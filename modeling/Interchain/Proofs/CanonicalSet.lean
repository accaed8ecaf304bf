import Interchain.Proofs.Marking

/-!
# The canonical validator set

The records of a query are counted one after the other.  `Tally.Counts` says what has been
counted in terms of the records so far: each step keeps it, or fails because the weights of
the records leave 64 bits, which no later record makes undone.  `ValidatorSet.IsCanonical` says
what the set is in terms of the records as a collection, and determines it up to keys of the
same byte form.  So the order in which a query lists its records has no influence, and all who
read the same records agree on the validator that each signer stands for.
-/

namespace Interchain

open AggregateScheme

variable {Key Sig : Type} [AggregateScheme Key Sig]

namespace ValidatorSet

/-! ### Records of a key -/

/-- The records whose key has the given byte form. -/
def ofKey (k : FixedBytes 48) (records : List (ValidatorRecord Key)) :
    List (ValidatorRecord Key) :=
  records.filter fun r => r.key.map encodeKey = some k

theorem mem_ofKey_iff (k : FixedBytes 48) (records : List (ValidatorRecord Key))
    (r : ValidatorRecord Key) :
  r ∈ ofKey k records ↔ r ∈ records ∧ ∃ key, r.key = some key ∧ encodeKey key = k
  := by
  rw [ofKey, List.mem_filter, decide_eq_true_eq, Option.map_eq_some_iff]

/-- A record of the key is added to the others. -/
theorem ofKey_concat_of_eq {r : ValidatorRecord Key} {key : Key} (h : r.key = some key)
    (records : List (ValidatorRecord Key)) :
  ofKey (encodeKey key) (records ++ [r]) = ofKey (encodeKey key) records ++ [r]
  := by
  rw [ofKey, List.filter_append, ofKey, List.filter_cons_of_pos, List.filter_nil]
  rw [h]
  exact decide_eq_true rfl

/-- A record of another key, or without a key, adds nothing. -/
theorem ofKey_concat_of_ne {k : FixedBytes 48} {r : ValidatorRecord Key}
    (h : ∀ key, r.key = some key → k ≠ encodeKey key) (records : List (ValidatorRecord Key)) :
  ofKey k (records ++ [r]) = ofKey k records
  := by
  rw [ofKey, List.filter_append, List.filter_cons_of_neg, List.filter_nil, List.append_nil,
    ofKey]
  intro hmap
  obtain ⟨key, hkey, hform⟩ := Option.map_eq_some_iff.mp (of_decide_eq_true hmap)
  exact h key hkey hform.symm

end ValidatorSet

/-! ### Counting records -/

namespace Tally

open ValidatorSet

variable {t t' : Tally Key} {r : ValidatorRecord Key} {records : List (ValidatorRecord Key)}

/-- What a record changes. -/
theorem of_count_eq_ok (h : t.count r = .ok t') :
  t'.total.toNat = t.total.toNat + r.weight.toNat ∧
  ((r.key = none ∧ t'.byKey = t.byKey) ∨
    ∃ key weight, r.key = some key ∧
      weight.toNat = (t.validator key).weight.toNat + r.weight.toNat ∧
      t'.byKey = t.byKey.put (encodeKey key)
        ⟨(t.validator key).key, weight, (t.validator key).nodes ++ [r.node]⟩)
  := by
  rw [count] at h
  split at h
  case h_1 => cases h
  case h_2 total htotal =>
    split at h
    case h_1 hkey =>
      cases h
      exact ⟨toNat_ofNat_of_addChecked htotal, .inl ⟨hkey, rfl⟩⟩
    case h_2 key hkey =>
      dsimp only at h
      split at h
      case h_1 => cases h
      case h_2 weight hweight =>
        cases h
        exact ⟨toNat_ofNat_of_addChecked htotal,
          .inr ⟨key, _, hkey, toNat_ofNat_of_addChecked hweight, rfl⟩⟩

/-- A validator has no more weight than all records. -/
theorem weight_validator_le (t : Tally Key) (key : Key) :
  (t.validator key).weight.toNat ≤ t.total.toNat
  := by
  rw [validator]
  cases hget : t.byKey.get? (encodeKey key) with
  | none => exact Nat.zero_le _
  | some v =>
      apply Nat.le_trans _ t.covered
      have hmem := List.mem_map_of_mem (f := (·.2)) ((t.byKey.get?_eq_some_iff ..).mp hget)
      have hle := totalWeight_le_of_sublist ((List.singleton_sublist.mpr hmem).map (·.weight))
      exact Nat.le_trans (Nat.le_add_right ..) hle

/-- Counting fails only if the weight of all records leaves 64 bits: the weight of a single
validator never does so first. -/
theorem of_count_eq_error {e : MessageError} (h : t.count r = .error e) :
  UInt64.size ≤ t.total.toNat + r.weight.toNat ∧ e = .weightOverflow
  := by
  rw [count] at h
  split at h
  case h_1 htotal =>
    cases h
    exact (addChecked_eq_error_iff ..).mp htotal
  case h_2 total htotal =>
    split at h
    case h_1 => cases h
    case h_2 key _ =>
      dsimp only at h
      split at h
      case h_1 hweight =>
        have hlt := ((addChecked_eq_ok_iff ..).mp htotal).1
        have hle := ((addChecked_eq_error_iff ..).mp hweight).1
        have := t.weight_validator_le key
        omega
      case h_2 => cases h

/-- A validator is made of records, in their order, with the key of one of them. -/
structure IsMadeOf (v : Validator Key) (records : List (ValidatorRecord Key)) : Prop where
  key_mem : ∃ r ∈ records, r.key = some v.key
  weight_eq : v.weight.toNat = totalWeight (records.map (·.weight))
  nodes_eq : v.nodes = records.map (·.node)

/-- The validator of each key among the records is made of all records of this key.  Records
without a key count toward the total weight. -/
structure Counts (t : Tally Key) (records : List (ValidatorRecord Key)) : Prop where
  isMadeOf : ∀ e ∈ t.byKey.entries, IsMadeOf e.2 (ofKey e.1 records)
  exists_mem : ∀ k, ofKey k records ≠ [] → ∃ v, (k, v) ∈ t.byKey.entries
  total_eq : t.total.toNat = totalWeight (records.map (·.weight))

theorem counts_empty :
  (empty : Tally Key).Counts []
  := by
  constructor
  · nofun
  · exact fun _ h => absurd rfl h
  · rfl

/-- A validator of a key with one more record of this key. -/
theorem Counts.isMadeOf_concat (h : t.Counts records) {key : Key} (hkey : r.key = some key)
    {weight : UInt64}
    (hweight : weight.toNat = (t.validator key).weight.toNat + r.weight.toNat) :
  IsMadeOf ⟨(t.validator key).key, weight, (t.validator key).nodes ++ [r.node]⟩
    (ofKey (encodeKey key) records ++ [r])
  := by
  rw [validator] at hweight ⊢
  cases hget : t.byKey.get? (encodeKey key) with
  | none =>
      have hnil : ofKey (encodeKey key) records = [] := by
        by_contra hne
        obtain ⟨v, hv⟩ := h.exists_mem _ hne
        rw [← t.byKey.get?_eq_some_iff, hget] at hv
        cases hv
      rw [hget] at hweight
      rw [hnil]
      constructor
      case key_mem => exact ⟨r, List.mem_singleton_self r, hkey⟩
      case weight_eq => exact hweight.trans (Nat.add_comm ..)
      case nodes_eq => rfl
  | some v =>
      have hv := h.isMadeOf _ ((t.byKey.get?_eq_some_iff ..).mp hget)
      obtain ⟨r', hr', hkey'⟩ := hv.key_mem
      rw [hget, Option.getD_some, hv.weight_eq] at hweight
      constructor
      case key_mem => exact ⟨r', List.mem_append_left _ hr', hkey'⟩
      case weight_eq =>
        rw [hweight, List.map_append, totalWeight_append]
        rfl
      case nodes_eq =>
        rw [List.map_append, ← hv.nodes_eq]
        rfl

/-- An entry is found by the key of its validator. -/
theorem Counts.form_eq (h : t.Counts records) {e : FixedBytes 48 × Validator Key}
    (he : e ∈ t.byKey.entries) :
  encodeKey e.2.key = e.1
  := by
  obtain ⟨r, hr, hkey⟩ := (h.isMadeOf e he).key_mem
  obtain ⟨-, key, hkey', hform⟩ := (mem_ofKey_iff ..).mp hr
  rw [hkey] at hkey'
  cases hkey'
  exact hform

/-- What one record keeps. -/
theorem Counts.step (h : t.Counts records) (hcount : t.count r = .ok t') :
  t'.Counts (records ++ [r])
  := by
  obtain ⟨htotal, hby⟩ := of_count_eq_ok hcount
  have htotal' : t'.total.toNat = totalWeight ((records ++ [r]).map (·.weight)) := by
    rw [htotal, h.total_eq, List.map_append, totalWeight_append]
    rfl
  obtain ⟨hkey, hby⟩ | ⟨key, weight, hkey, hweight, hby⟩ := hby
  · have hsame : ∀ k, ofKey k (records ++ [r]) = ofKey k records := by
      intro k
      apply ofKey_concat_of_ne
      rw [hkey]
      nofun
    constructor
    case isMadeOf =>
      intro e he
      rw [hby] at he
      rw [hsame]
      exact h.isMadeOf e he
    case exists_mem =>
      intro k hk
      rw [hsame] at hk
      rw [hby]
      exact h.exists_mem k hk
    case total_eq => exact htotal'
  · have hother : ∀ k, k ≠ encodeKey key → ofKey k (records ++ [r]) = ofKey k records := by
      intro k hk
      apply ofKey_concat_of_ne
      rw [hkey]
      rintro _ ⟨⟩
      exact hk
    constructor
    case isMadeOf =>
      intro e he
      rw [hby, OrderedTable.mem_entries_put_iff] at he
      obtain rfl | ⟨he, hne⟩ := he
      · rw [ofKey_concat_of_eq hkey]
        exact h.isMadeOf_concat hkey hweight
      · rw [hother e.1 hne]
        exact h.isMadeOf e he
    case exists_mem =>
      intro k hk
      simp only [hby, OrderedTable.mem_entries_put_iff]
      by_cases heq : k = encodeKey key
      · rw [heq]
        exact ⟨_, .inl rfl⟩
      · rw [hother k heq] at hk
        obtain ⟨v, hv⟩ := h.exists_mem k hk
        exact ⟨v, .inr ⟨hv, heq⟩⟩
    case total_eq => exact htotal'

/-- What some records come to after others: they are counted, or the weight of all has left 64
bits. -/
theorem Counts.foldlM (h : t.Counts records) (more : List (ValidatorRecord Key)) :
  (∃ t', more.foldlM count t = .ok t' ∧ t'.Counts (records ++ more)) ∨
  (more.foldlM count t = .error .weightOverflow ∧
    UInt64.size ≤ totalWeight ((records ++ more).map (·.weight)))
  := by
  induction more generalizing t records with
  | nil =>
      left
      rw [List.append_nil]
      exact ⟨t, rfl, h⟩
  | cons r more ih =>
      rw [List.foldlM_cons, List.append_cons]
      cases hcount : t.count r with
      | ok t' => exact ih (h.step hcount)
      | error e =>
          obtain ⟨hle, rfl⟩ := of_count_eq_error hcount
          right
          use rfl
          rw [h.total_eq] at hle
          simp only [List.map_append, totalWeight_append, List.map_cons, List.map_nil,
            totalWeight]
          omega

end Tally

namespace ValidatorSet

/-! ### The set of some records -/

/-- There is one validator for each key among the records, in the order of the keys' byte
forms, with the weight and the nodes of all records of this key.  Records without a key count
toward the total weight. -/
structure IsCanonical (set : ValidatorSet Key) (records : List (ValidatorRecord Key)) :
    Prop where
  ordered : set.validators.Pairwise fun v w =>
    (encodeKey v.key).bytes < (encodeKey w.key).bytes
  key_mem : ∀ v ∈ set.validators, ∃ r ∈ records, r.key = some v.key
  exists_mem : ∀ r ∈ records, ∀ key, r.key = some key →
    ∃ v ∈ set.validators, encodeKey v.key = encodeKey key
  weight_eq : ∀ v ∈ set.validators,
    v.weight.toNat = totalWeight ((ofKey (encodeKey v.key) records).map (·.weight))
  nodes_perm : ∀ v ∈ set.validators,
    v.nodes.Perm ((ofKey (encodeKey v.key) records).map (·.node))
  nodes_ordered : ∀ v ∈ set.validators, v.nodes.Pairwise fun m n => m.bytes ≤ n.bytes
  nodes_ne_nil : ∀ v ∈ set.validators, v.nodes ≠ []
  total_eq : set.total.toNat = totalWeight (records.map (·.weight))
  covered : totalWeight (set.validators.map (·.weight)) ≤ totalWeight (records.map (·.weight))

/-- Nodes are listed in the order of their names. -/
theorem pairwise_mergeSort_nodes (nodes : List NodeId) :
  (nodes.mergeSort NodeId.precedes).Pairwise fun m n => m.bytes ≤ n.bytes
  := by
  apply (List.pairwise_mergeSort _ _ nodes).imp
  · intro m n h
    apply of_decide_eq_true h
  · intro m n o h h'
    apply decide_eq_true (List.le_trans (of_decide_eq_true h) (of_decide_eq_true h'))
  · intro m n
    rw [Bool.or_eq_true, NodeId.precedes, NodeId.precedes, Bytes.precedes, Bytes.precedes,
      decide_eq_true_eq, decide_eq_true_eq]
    apply List.le_total

/-- What is made of the records that have been counted is canonical. -/
theorem isCanonical_toSet {t : Tally Key} {records : List (ValidatorRecord Key)}
    (h : t.Counts records) :
  t.toSet.IsCanonical records
  := by
  -- A validator of the set is that of an entry, except for the order of its nodes.
  have hentry : ∀ v ∈ t.toSet.validators, ∃ u, (encodeKey v.key, u) ∈ t.byKey.entries ∧
      v = { u with nodes := u.nodes.mergeSort NodeId.precedes } := by
    intro v hv
    obtain ⟨_, hu, rfl⟩ := List.mem_map.mp hv
    obtain ⟨e, he, rfl⟩ := List.mem_map.mp hu
    refine ⟨e.2, ?_, rfl⟩
    rwa [h.form_eq he]
  constructor
  case ordered =>
    apply List.pairwise_map.mpr
    apply List.pairwise_map.mpr
    apply t.byKey.ordered.imp_of_mem
    intro e e' he he' hlt
    rwa [h.form_eq he, h.form_eq he']
  case key_mem =>
    intro v hv
    obtain ⟨u, hu, rfl⟩ := hentry v hv
    obtain ⟨r, hr, hkey⟩ := (h.isMadeOf _ hu).key_mem
    exact ⟨r, ((mem_ofKey_iff ..).mp hr).1, hkey⟩
  case exists_mem =>
    intro r hr key hkey
    obtain ⟨u, hu⟩ := h.exists_mem (encodeKey key)
      (List.ne_nil_of_mem ((mem_ofKey_iff ..).mpr ⟨hr, key, hkey, rfl⟩))
    exact ⟨_, List.mem_map_of_mem (List.mem_map_of_mem hu), h.form_eq hu⟩
  case weight_eq =>
    intro v hv
    obtain ⟨u, hu, rfl⟩ := hentry v hv
    exact (h.isMadeOf _ hu).weight_eq
  case nodes_perm =>
    intro v hv
    obtain ⟨u, hu, rfl⟩ := hentry v hv
    rw [← (h.isMadeOf _ hu).nodes_eq]
    apply List.mergeSort_perm
  case nodes_ordered =>
    intro v hv
    obtain ⟨u, -, rfl⟩ := hentry v hv
    apply pairwise_mergeSort_nodes
  case nodes_ne_nil =>
    intro v hv hnil
    obtain ⟨u, hu, rfl⟩ := hentry v hv
    obtain ⟨r, hr, -⟩ := (h.isMadeOf _ hu).key_mem
    have hmem : r.node ∈ u.nodes := by
      rw [(h.isMadeOf _ hu).nodes_eq]
      exact List.mem_map_of_mem hr
    have hmem' := (List.mergeSort_perm u.nodes NodeId.precedes).mem_iff.mpr hmem
    exact List.ne_nil_of_mem hmem' hnil
  case total_eq => exact h.total_eq
  case covered =>
    rw [← h.total_eq]
    exact t.toSet.covered

/-- The records of a query make up a set unless their weights do not add up to a number of 64
bits. -/
theorem ofRecords_cases (records : List (ValidatorRecord Key)) :
  (UInt64.size ≤ totalWeight (records.map (·.weight)) ∧
    ofRecords records = .error .weightOverflow) ∨
  (totalWeight (records.map (·.weight)) < UInt64.size ∧
    ∃ set, ofRecords records = .ok set ∧ set.IsCanonical records)
  := by
  rw [ofRecords]
  obtain ⟨t, hfold, hcounts⟩ | ⟨hfold, hle⟩ := Tally.counts_empty.foldlM records
  · right
    rw [hfold]
    have hlt := t.total.toNat_lt_size
    rw [hcounts.total_eq] at hlt
    exact ⟨hlt, t.toSet, rfl, isCanonical_toSet hcounts⟩
  · left
    rw [hfold]
    exact ⟨hle, rfl⟩

/-- The set that is made of records is canonical. -/
theorem isCanonical_of_ofRecords {records : List (ValidatorRecord Key)} {set : ValidatorSet Key}
    (h : ofRecords records = .ok set) :
  set.IsCanonical records
  := by
  obtain ⟨-, herror⟩ | ⟨-, set', hset', hcanonical⟩ := ofRecords_cases records
  · rw [h] at herror
    cases herror
  · rw [h] at hset'
    cases hset'
    exact hcanonical

/-! ### Order of the records -/

/-- What all who read the same records see of a validator: the byte form of the key, the
weight and the nodes. -/
def seen (v : Validator Key) : FixedBytes 48 × UInt64 × List NodeId :=
  (encodeKey v.key, v.weight, v.nodes)

variable {set set' : ValidatorSet Key} {records others : List (ValidatorRecord Key)}

/-- A validator of one set is seen in another one that has been made of the same records. -/
theorem IsCanonical.seen_mem (h : set.IsCanonical records) (h' : set'.IsCanonical others)
    (hperm : records.Perm others) {v : Validator Key} (hv : v ∈ set.validators) :
  seen v ∈ set'.validators.map seen
  := by
  obtain ⟨r, hr, hkey⟩ := h.key_mem v hv
  obtain ⟨w, hw, hform⟩ := h'.exists_mem r (hperm.subset hr) v.key hkey
  have hrecords : (ofKey (encodeKey v.key) records).Perm (ofKey (encodeKey w.key) others) := by
    rw [hform]
    apply hperm.filter
  have hweight : w.weight = v.weight := by
    apply UInt64.toNat_inj.mp
    rw [h'.weight_eq w hw, h.weight_eq v hv, totalWeight_perm (hrecords.map _)]
  have hnodes : w.nodes = v.nodes := by
    apply List.Perm.eq_of_pairwise _ (h'.nodes_ordered w hw) (h.nodes_ordered v hv)
    · apply (h'.nodes_perm w hw).trans
      apply ((hrecords.map _).symm.trans (h.nodes_perm v hv).symm)
    · intro m n _ _ hle hge
      rw [NodeId.mk.injEq]
      apply FixedBytes.ext (List.le_antisymm hle hge)
  apply List.mem_map.mpr
  use w, hw
  rw [seen, hform, hweight, hnodes, seen]

/-- The order of the validators is the only one by their keys. -/
theorem IsCanonical.pairwise_seen (h : set.IsCanonical records) :
  (set.validators.map seen).Pairwise fun v w => v.1.bytes < w.1.bytes
  := List.pairwise_map.mpr h.ordered

theorem IsCanonical.nodup_seen (h : set.IsCanonical records) :
  (set.validators.map seen).Nodup
  := by
  apply h.pairwise_seen.imp
  rintro v w hlt rfl
  apply List.lt_irrefl _ hlt

/-- Records in another order make up the same validators, as they are seen. -/
theorem IsCanonical.map_seen_eq (h : set.IsCanonical records) (h' : set'.IsCanonical others)
    (hperm : records.Perm others) :
  set.validators.map seen = set'.validators.map seen
  := by
  apply List.Perm.eq_of_pairwise _ h.pairwise_seen h'.pairwise_seen
  · apply (List.perm_ext_iff_of_nodup h.nodup_seen h'.nodup_seen).mpr
    intro x
    constructor
    · intro hx
      obtain ⟨v, hv, rfl⟩ := List.mem_map.mp hx
      apply h.seen_mem h' hperm hv
    · intro hx
      obtain ⟨v, hv, rfl⟩ := List.mem_map.mp hx
      apply h'.seen_mem h hperm.symm hv
  · intro v w _ _ hlt hgt
    exact absurd hgt (List.lt_asymm hlt)

/-- What all who read the same records see of a set. -/
def outline (set : ValidatorSet Key) : List (FixedBytes 48 × UInt64 × List NodeId) × UInt64 :=
  (set.validators.map seen, set.total)

/-- Records in another order make up the same set, as it is seen. -/
theorem IsCanonical.outline_eq (h : set.IsCanonical records) (h' : set'.IsCanonical others)
    (hperm : records.Perm others) :
  set.outline = set'.outline
  := by
  have htotal : set.total = set'.total := by
    apply UInt64.toNat_inj.mp
    rw [h.total_eq, h'.total_eq, totalWeight_perm (hperm.map _)]
  rw [outline, outline, h.map_seen_eq h' hperm, htotal]

/-- Sets that are seen as the same are the same, if keys have byte forms of their own. -/
theorem eq_of_outline_eq (hkey : Function.Injective (encodeKey : Key → FixedBytes 48))
    (h : set.outline = set'.outline) :
  set = set'
  := by
  have hinjective : Function.Injective (seen : Validator Key → _) := by
    intro v w hvw
    obtain ⟨hform, hrest⟩ := Prod.mk.inj hvw
    obtain ⟨hweight, hnodes⟩ := Prod.mk.inj hrest
    cases v
    cases w
    congr
    apply hkey hform
  obtain ⟨hvalidators, htotal⟩ := Prod.mk.inj h
  have heq := List.map_injective_iff.mpr hinjective hvalidators
  cases set
  cases set'
  congr

/-- Whatever order records are listed in, making a set of them fails exactly if their weights
do not add up to a number of 64 bits, and otherwise comes to the set that is canonical for them.
The result is always the same, as it is seen, so that the validators at each place agree, and it
is the very same if keys have byte forms of their own. -/
theorem ofRecords_canonical (records : List (ValidatorRecord Key)) :
  (ofRecords records = .error .weightOverflow
    ↔ UInt64.size ≤ totalWeight (records.map (·.weight))) ∧
  (totalWeight (records.map (·.weight)) < UInt64.size →
    ∃ set, ofRecords records = .ok set ∧ set.IsCanonical records) ∧
  ∀ others, records.Perm others →
    (ofRecords records).map outline = (ofRecords others).map outline ∧
    (∀ set set', ofRecords records = .ok set → ofRecords others = .ok set' →
      ∀ i : Nat, set.validators[i]?.map seen = set'.validators[i]?.map seen) ∧
    (Function.Injective (encodeKey : Key → FixedBytes 48) → ofRecords records = ofRecords others)
  := by
  refine ⟨?overflow, ?canonical, ?order⟩
  case overflow =>
    obtain ⟨hle, herror⟩ | ⟨hlt, set, hset, -⟩ := ofRecords_cases records
    · exact ⟨fun _ => hle, fun _ => herror⟩
    · rw [hset]
      exact ⟨nofun, fun hle => absurd hle (Nat.not_le_of_lt hlt)⟩
  case canonical =>
    intro hlt
    obtain ⟨hle, -⟩ | ⟨-, h⟩ := ofRecords_cases records
    · exact absurd hle (Nat.not_le_of_lt hlt)
    · apply h
  case order =>
    intro others hperm
    have hweight := totalWeight_perm (hperm.map (·.weight))
    obtain ⟨hle, herror⟩ | ⟨hlt, set, hset, hcanonical⟩ := ofRecords_cases records
    · obtain ⟨-, herror'⟩ | ⟨hlt', -⟩ := ofRecords_cases others
      · rw [herror, herror']
        exact ⟨rfl, nofun, fun _ => rfl⟩
      · omega
    · obtain ⟨hle', -⟩ | ⟨-, set', hset', hcanonical'⟩ := ofRecords_cases others
      · omega
      have hsame := hcanonical.outline_eq hcanonical' hperm
      rw [hset, hset']
      refine ⟨?_, ?_, ?_⟩
      · rw [Except.map, Except.map, hsame]
      · rintro _ _ ⟨⟩ ⟨⟩ i
        rw [← List.getElem?_map, ← List.getElem?_map, (Prod.mk.inj hsame).1]
      · intro hkey
        rw [eq_of_outline_eq hkey hsame]

end ValidatorSet

end Interchain
