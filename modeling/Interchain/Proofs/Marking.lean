import Interchain.Proofs.Signers
import Interchain.Validator.Set

/-!
# Marked validators

A set of signers marks validators of a set: those at the places that are its members.
`ValidatorSet.select_eq_ok` says that they are what is selected, and
`ValidatorSet.markedWeight_le` that they carry no more weight than the whole set, so that
no sum of their weights overflows.
-/

namespace Interchain

/-! ### Sums of weights -/

/-- Some of the weights of a list are at most all of them. -/
theorem totalWeight_le_of_sublist {l m : List UInt64} (h : l.Sublist m) :
  totalWeight l ≤ totalWeight m
  := by
  induction h with
  | slnil => apply Nat.le_refl
  | cons w _ ih =>
      rw [totalWeight]
      omega
  | cons_cons w _ ih =>
      rw [totalWeight, totalWeight]
      omega

namespace ValidatorSet

variable {Key : Type}

/-- The validators at the places that are members of `signers`, in the order of the set. -/
def marked (set : ValidatorSet Key) (signers : Signers) : List (Validator Key) :=
  (set.validators.zipIdx.filter fun p => signers.contains p.2).map (·.1)

/-- The sum of the weights of the marked validators. -/
def markedWeight (set : ValidatorSet Key) (signers : Signers) : Nat :=
  totalWeight ((set.marked signers).map (·.weight))

/-- The entries of a list at the places that satisfy `p`, found by their places or by going
through the list. -/
theorem filterMap_filter_range {α : Type} (l : List α) (p : Nat → Bool) :
  ((List.range l.length).filter p).filterMap (l[·]?)
    = (l.zipIdx.filter fun x => p x.2).map (·.1)
  := by
  -- Induction from the end of the list, where both enumerations grow.
  induction l using List.reverseRecOn with
  | nil => rfl
  | append_singleton l a ih =>
      have hlt : ∀ i ∈ (List.range l.length).filter p, (l ++ [a])[i]? = l[i]? := by
        intro i hi
        apply List.getElem?_append_left
        apply List.mem_range.mp (List.mem_filter.mp hi).1
      rw [List.length_append, List.length_singleton, List.range_succ, List.filter_append,
        List.filterMap_append, List.filterMap_congr hlt, ih, List.zipIdx_append,
        List.filter_append, List.map_append]
      by_cases hp : p l.length
      · simp [hp]
      · simp [hp]

/-- If all signers are in the set, the marked validators are found by the list of signers. -/
theorem filterMap_toList (set : ValidatorSet Key) {signers : Signers}
    (h : signers.bound ≤ set.validators.length) :
  signers.toList.filterMap (set.validators[·]?) = set.marked signers
  := by
  rw [signers.toList_eq_filter h, filterMap_filter_range, marked]

/-- If all signers are in the set, the marked validators are selected. -/
theorem select_eq_ok (set : ValidatorSet Key) {signers : Signers}
    (h : signers.bound ≤ set.validators.length) :
  set.select signers = .ok (set.marked signers)
  := by
  rw [select, if_neg (Nat.not_lt_of_le h), set.filterMap_toList h]

/-- Marked validators are some of the set, in its order. -/
theorem marked_sublist (set : ValidatorSet Key) (signers : Signers) :
  (set.marked signers).Sublist set.validators
  := by
  have h := (List.filter_sublist (l := set.validators.zipIdx)
    (p := fun p => signers.contains p.2)).map Prod.fst
  rwa [List.zipIdx_map_fst] at h

/-- Marked validators carry no more than the weight of the set. -/
theorem markedWeight_le (set : ValidatorSet Key) (signers : Signers) :
  set.markedWeight signers ≤ set.total.toNat
  := by
  apply Nat.le_trans _ set.covered
  apply totalWeight_le_of_sublist
  apply (set.marked_sublist signers).map

/-- The weights of marked validators add up without overflow. -/
theorem sumWeights_marked (set : ValidatorSet Key) (signers : Signers) :
  sumWeights ((set.marked signers).map (·.weight)) = .ok (set.markedWeight signers)
  := by
  have hle := set.markedWeight_le signers
  have hlt := set.total.toNat_lt_size
  rw [markedWeight] at hle ⊢
  rw [sumWeights_eq, if_pos (Nat.lt_of_le_of_lt hle hlt)]

/-- A validator is marked if its place is a member. -/
theorem mem_marked_iff (set : ValidatorSet Key) (signers : Signers) (v : Validator Key) :
  v ∈ set.marked signers ↔ ∃ i, signers.contains i = true ∧ set.validators[i]? = some v
  := by
  rw [marked, List.mem_map]
  constructor
  · rintro ⟨⟨u, i⟩, h, rfl⟩
    obtain ⟨hmem, hi⟩ := List.mem_filter.mp h
    use i, hi
    apply List.mk_mem_zipIdx_iff_getElem?.mp hmem
  · rintro ⟨i, hi, hv⟩
    use (v, i)
    constructor
    · apply List.mem_filter.mpr
      use List.mk_mem_zipIdx_iff_getElem?.mpr hv
    · rfl

/-- If there are no signers, nobody is marked. -/
theorem marked_eq_nil (set : ValidatorSet Key) {signers : Signers}
    (h : ∀ i, signers.contains i = false) :
  set.marked signers = []
  := by
  apply List.eq_nil_iff_forall_not_mem.mpr
  intro v hv
  obtain ⟨i, hi, -⟩ := (set.mem_marked_iff signers v).mp hv
  rw [h i] at hi
  cases hi

/-- If there are signers and all are in the set, somebody is marked. -/
theorem marked_ne_nil (set : ValidatorSet Key) {signers : Signers}
    (hk : ∀ i, signers.contains i = true → i < set.validators.length)
    (hs : ∃ i, signers.contains i = true) :
  set.marked signers ≠ []
  := by
  obtain ⟨i, hi⟩ := hs
  apply List.ne_nil_of_mem
  apply (set.mem_marked_iff signers (set.validators.get ⟨i, hk i hi⟩)).mpr
  use i, hi
  apply List.getElem?_eq_getElem

/-! ### Validators at places -/

/-- The weight of the validators at some places. -/
def weightAt (set : ValidatorSet Key) (places : List Nat) : Nat :=
  totalWeight (places.filterMap fun i => (set.validators[i]?).map (·.weight))

@[simp]
theorem weightAt_append (set : ValidatorSet Key) (l m : List Nat) :
  set.weightAt (l ++ m) = set.weightAt l + set.weightAt m
  := by rw [weightAt, List.filterMap_append, totalWeight_append, weightAt, weightAt]

theorem weightAt_perm (set : ValidatorSet Key) {l m : List Nat} (h : l.Perm m) :
  set.weightAt l = set.weightAt m
  := totalWeight_perm (h.filterMap _)

/-- Fewer places carry no more weight. -/
theorem weightAt_le_of_subperm (set : ValidatorSet Key) {l m : List Nat} (h : l.Subperm m) :
  set.weightAt l ≤ set.weightAt m
  := by
  obtain ⟨k, hperm, hsub⟩ := h
  rw [← set.weightAt_perm hperm]
  apply totalWeight_le_of_sublist (hsub.filterMap _)

/-- Places that are not in the set carry no weight. -/
theorem weightAt_filter_lt (set : ValidatorSet Key) (l : List Nat) :
  set.weightAt (l.filter (· < set.validators.length)) = set.weightAt l
  := by
  rw [weightAt, List.filterMap_filter, weightAt]
  congr 1
  apply List.filterMap_congr
  intro i _
  split
  · rfl
  · next h =>
    rw [decide_eq_true_eq, Nat.not_lt] at h
    rw [List.getElem?_eq_none h, Option.map_none]

/-- The places that satisfy `p` carry the weight of the validators at them. -/
theorem weightAt_filter_range (set : ValidatorSet Key) (p : Nat → Bool) :
  set.weightAt ((List.range set.validators.length).filter p)
    = totalWeight (((set.validators.zipIdx.filter fun x => p x.2).map (·.1)).map (·.weight))
  := by rw [← filterMap_filter_range, List.map_filterMap, weightAt]

/-- Different places carry no more than the weight of the set. -/
theorem weightAt_le_total (set : ValidatorSet Key) {l : List Nat} (h : l.Nodup) :
  set.weightAt l ≤ set.total.toNat
  := by
  have hall := set.weightAt_filter_range fun _ => true
  simp only [List.filter_true, List.zipIdx_map_fst] at hall
  have hsubset : l.filter (· < set.validators.length) ⊆ List.range set.validators.length := by
    intro i hi
    apply List.mem_range.mpr
    apply of_decide_eq_true (List.mem_filter.mp hi).2
  calc set.weightAt l
    _ = set.weightAt (l.filter (· < set.validators.length)) := (set.weightAt_filter_lt l).symm
    _ ≤ set.weightAt (List.range set.validators.length) :=
        set.weightAt_le_of_subperm ((h.filter _).subperm hsubset)
    _ = totalWeight (set.validators.map (·.weight)) := hall
    _ ≤ set.total.toNat := set.covered

/-- Signers that are among some places carry no more than the weight at these. -/
theorem markedWeight_le_weightAt (set : ValidatorSet Key) {signers : Signers} {l : List Nat}
    (h : ∀ i, signers.contains i = true → i ∈ l) :
  set.markedWeight signers ≤ set.weightAt l
  := by
  rw [markedWeight, marked, ← weightAt_filter_range]
  apply weightAt_le_of_subperm
  apply (List.nodup_range.filter _).subperm
  intro i hi
  apply h i (List.mem_filter.mp hi).2

/-! ### A set of one validator -/

/-- The set of one validator. -/
def sole (v : Validator Key) : ValidatorSet Key := ⟨[v], v.weight, Nat.le_refl _⟩

/-- Signers with the first place among them mark the only validator. -/
theorem marked_sole_of_contains (v : Validator Key) {signers : Signers}
    (h : signers.contains 0 = true) :
  (sole v).marked signers = [v]
  := by simp [marked, sole, h]

/-- The first place marks the only validator. -/
theorem marked_sole (v : Validator Key) :
  (sole v).marked (.ofList [0]) = [v]
  := by simp [marked, sole]

/-- The weight of the only validator is that of the set. -/
theorem markedWeight_sole (v : Validator Key) :
  (sole v).markedWeight (.ofList [0]) = v.weight.toNat
  := by simp [markedWeight, marked_sole, totalWeight]

/-- The canonical set of one record with a key. -/
theorem ofRecords_sole {Sig : Type} [AggregateScheme Key Sig] (node : NodeId) (key : Key)
    (weight : UInt64) :
  ofRecords [⟨node, some key, weight⟩] = .ok (sole ⟨key, weight, [node]⟩)
  := by
  have hfits : addChecked 0 weight = .ok weight.toNat := by
    rw [addChecked, Nat.zero_add, if_pos weight.toNat_lt_size]
  have hcount : Tally.count .empty ⟨node, some key, weight⟩
      = .ok ⟨weight, .put .empty (AggregateScheme.encodeKey key) ⟨key, weight, [node]⟩,
        Nat.le_refl _⟩ := by
    rw [Tally.count]
    split
    case h_1 h => cases hfits.symm.trans h
    case h_2 total h =>
      cases hfits.symm.trans h
      dsimp only
      split
      case h_1 h' => cases hfits.symm.trans h'
      case h_2 _ h' =>
        cases hfits.symm.trans h'
        simp only [UInt64.ofNat_toNat]
        rfl
  rw [ofRecords, List.foldlM_cons, hcount]
  show Except.ok (Tally.toSet _) = .ok (sole _)
  rw [Tally.toSet, sole]
  simp [OrderedTable.values, OrderedTable.put, OrderedTable.empty, OrderedTable.place]

end ValidatorSet

end Interchain
