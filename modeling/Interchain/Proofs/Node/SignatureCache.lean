import Interchain.Node.SignatureCache
import Mathlib.Data.List.Nodup
import Mathlib.Tactic.Use

/-!
# What a cache keeps

A cache remembers its signatures in a table and the order of their names in a queue, and changes
the two one after the other.  `SignatureCache.Follows` says of what was asked of a cache so far
that the queue holds the latest of the names that were put in, none of them twice, and the table
their latest signatures.  Every call preserves this, so `keeps_latest` tells the signature that is
kept for a name from the calls alone.
-/

namespace Interchain.SignatureCache

/-! ### Letting go -/

/-- Names are let go of from the front of the queue, and their signatures with them. -/
theorem evict_eq (capacity : Nat) (order : List Id) (entries : Table Id (FixedBytes 96)) :
  evict capacity order entries
    = (order.drop (order.length - capacity),
        (order.take (order.length - capacity)).foldl Table.erase entries)
  := by
  induction order generalizing entries with
  | nil =>
      rw [List.drop_nil, List.take_nil]
      rfl
  | cons name rest ih =>
      rw [evict]
      split
      · next hlt =>
        have hlength : (name :: rest).length - capacity = rest.length - capacity + 1 := by
          rw [List.length_cons]
          omega
        rw [ih, hlength]
        rfl
      · next hle =>
        have hlength : (name :: rest).length - capacity = 0 := by
          rw [List.length_cons]
          omega
        rw [hlength]
        rfl

/-- A table without the values for some keys. -/
theorem get?_foldl_erase (names : List Id) (t : Table Id (FixedBytes 96)) (name : Id) :
  (names.foldl Table.erase t).get? name = if name ∈ names then none else t.get? name
  := by
  induction names generalizing t with
  | nil => rfl
  | cons n names ih =>
      rw [List.foldl_cons, ih, Table.get?_erase]
      by_cases hn : name = n
      · simp [hn]
      · simp [hn]

variable {c : SignatureCache} {name : Id}

/-- A signature for a name that is present takes the place of the other. -/
theorem put_of_isSome (h : (c.get? name).isSome = true) (signature : FixedBytes 96) :
  c.put name signature = { c with entries := c.entries.put name signature }
  := by
  rw [put, if_pos h]

/-- A name that is not present is put in behind the others, and the first are let go of if there
are too many. -/
theorem put_of_get?_eq_none (h : c.get? name = none) (signature : FixedBytes 96) :
  let order := c.order ++ [name]
  c.put name signature
    = { c with
        order := order.drop (order.length - c.capacity)
        entries := (order.take (order.length - c.capacity)).foldl Table.erase
          (c.entries.put name signature) }
  := by
  rw [put, h, evict_eq]
  rfl

theorem capacity_put (c : SignatureCache) (name : Id) (signature : FixedBytes 96) :
  (c.put name signature).capacity = c.capacity
  := by
  rw [put]
  split
  · rfl
  · rfl

/-- A cache keeps nothing but what it kept and the signature that is put in. -/
theorem get?_put_cases {signature s : FixedBytes 96} {other : Id}
    (h : (c.put name signature).get? other = some s) :
  (other = name ∧ s = signature) ∨ c.get? other = some s
  := by
  have hput : (c.entries.put name signature).get? other = some s := by
    cases hname : c.get? name with
    | some _ =>
        rw [put_of_isSome (by rw [hname]; rfl)] at h
        exact h
    | none =>
        rw [put_of_get?_eq_none hname] at h
        rw [get?, get?_foldl_erase] at h
        exact (Option.ite_none_left_eq_some.mp h).2
  rw [Table.get?_put] at hput
  split at hput
  · next hother =>
    cases hput
    exact .inl ⟨hother, rfl⟩
  · exact .inr hput

/-- The last entries of a list and one more are the last of all. -/
theorem drop_concat_drop {α : Type} (l : List α) (a : α) (n : Nat) :
  let last := l.drop (l.length - n) ++ [a]
  last.drop (last.length - n) = (l ++ [a]).drop ((l ++ [a]).length - n)
  := by
  intro last
  have hlast : last = (l ++ [a]).drop (l.length - n) :=
    (List.drop_append_of_le_length (Nat.sub_le ..)).symm
  rw [hlast, List.drop_drop]
  congr 1
  simp only [List.length_drop, List.length_append, List.length_singleton]
  omega

/-- Of entries that do not repeat, the last are those that are not among the first. -/
theorem mem_drop_iff_not_mem_take {α : Type} {l : List α} (h : l.Nodup) (n : Nat) (a : α) :
  a ∈ l.drop n ↔ a ∈ l ∧ a ∉ l.take n
  := by
  constructor
  · intro ha
    use List.mem_of_mem_drop ha
    intro ha'
    exact List.disjoint_take_drop h (Nat.le_refl n) ha' ha
  · rintro ⟨ha, ha'⟩
    rw [← List.take_append_drop n l] at ha
    exact (List.mem_append.mp ha).resolve_left ha'

/-! ### Calls -/

/-- What is asked of a cache. -/
inductive Call where
  | put (name : Id) (signature : FixedBytes 96)
  | get (name : Id)

/-- What a call puts in, if it does. -/
def Call.put? : Call → Option (Id × FixedBytes 96)
  | .put name signature => some (name, signature)
  | .get _ => none

/-- The cache after a call. -/
def after (c : SignatureCache) : Call → SignatureCache
  | .put name signature => c.put name signature
  | .get _ => c

/-- The cache after some calls. -/
def run (c : SignatureCache) (calls : List Call) : SignatureCache := calls.foldl after c

/-- The name that a call inserts, which is one that it puts in and the cache does not have. -/
def insertedBy (c : SignatureCache) : Call → Option Id
  | .put name _ => if (c.get? name).isSome then none else some name
  | .get _ => none

/-- The names that calls insert, in their order. -/
def inserted (c : SignatureCache) : List Call → List Id
  | [] => []
  | call :: calls => (c.insertedBy call).toList ++ inserted (c.after call) calls

/-- The signature that was put in last for a name. -/
def latest? (name : Id) (calls : List Call) : Option (FixedBytes 96) :=
  (calls.filterMap Call.put?).reverse.lookup name

/-- How many names were inserted since a name was inserted last. -/
def insertedSince (name : Id) (names : List Id) : Nat := names.reverse.idxOf name

/-- Another signature for a name is the latest. -/
theorem latest?_concat_put (calls : List Call) (name other : Id) (signature : FixedBytes 96) :
  latest? other (calls ++ [.put name signature])
    = if other = name then some signature else latest? other calls
  := by
  have hputs : ((calls ++ [Call.put name signature]).filterMap Call.put?).reverse
      = (name, signature) :: (calls.filterMap Call.put?).reverse := by
    rw [List.filterMap_append, List.reverse_append]
    rfl
  rw [latest?, hputs, List.lookup_cons]
  by_cases h : other = name
  · rw [if_pos h, h, beq_self_eq_true]
  · rw [if_neg h, beq_false_of_ne h]
    rfl

/-- To ask for a signature puts in nothing. -/
theorem latest?_concat_get (calls : List Call) (name other : Id) :
  latest? other (calls ++ [.get name]) = latest? other calls
  := by
  rw [latest?, List.filterMap_append]
  show (calls.filterMap Call.put? ++ []).reverse.lookup other = _
  rw [List.append_nil, latest?]

/-- The cache is as some calls leave it that inserted some names: it keeps the latest of the
names, each once, with the latest signatures. -/
structure Follows (c : SignatureCache) (calls : List Call) (names : List Id) : Prop where
  order_eq : c.order = names.drop (names.length - c.capacity)
  nodup : c.order.Nodup
  get?_eq : ∀ name, c.get? name = if name ∈ c.order then latest? name calls else none
  mem_iff : ∀ name, name ∈ names ↔ (latest? name calls).isSome = true

namespace Follows

variable {calls : List Call} {names : List Id}

/-- The names in the queue were inserted. -/
theorem mem_of_mem_order (h : c.Follows calls names) {name : Id} (hname : name ∈ c.order) :
  name ∈ names
  := by
  rw [h.order_eq] at hname
  exact List.mem_of_mem_drop hname

/-- The names in the queue are those for which a signature is kept. -/
theorem mem_order_iff (h : c.Follows calls names) (name : Id) :
  name ∈ c.order ↔ (c.get? name).isSome = true
  := by
  rw [h.get?_eq]
  by_cases hmem : name ∈ c.order
  · simp only [hmem, if_true, (h.mem_iff name).mp (h.mem_of_mem_order hmem)]
  · simp [hmem]

/-- There are no more names in the queue than are to be kept. -/
theorem length_order_le (h : c.Follows calls names) :
  c.order.length ≤ c.capacity
  := by
  rw [h.order_eq, List.length_drop]
  omega

/-- A name that was put in is in the queue unless too many were inserted since. -/
theorem mem_order_iff_insertedSince (h : c.Follows calls names) {name : Id} (hname : name ∈ names) :
  name ∈ c.order ↔ insertedSince name names < c.capacity
  := by
  have hreverse : (names.drop (names.length - c.capacity)).reverse
      = names.reverse.take c.capacity := by
    rw [List.take_reverse]
  rw [h.order_eq, ← List.mem_reverse, hreverse, insertedSince]
  exact List.mem_take_iff_idxOf_lt (List.mem_reverse.mpr hname)

/-- A signature for a name that is present changes the signature only. -/
theorem put_of_isSome (h : c.Follows calls names) (hsome : (c.get? name).isSome = true)
    (signature : FixedBytes 96) :
  (c.put name signature).Follows (calls ++ [.put name signature]) names
  := by
  have hmem := (h.mem_order_iff name).mpr hsome
  rw [SignatureCache.put_of_isSome hsome]
  constructor
  case order_eq => exact h.order_eq
  case nodup => exact h.nodup
  case get?_eq =>
    intro other
    show (c.entries.put name signature).get? other = if other ∈ c.order then _ else none
    rw [Table.get?_put, latest?_concat_put]
    by_cases hother : other = name
    · rw [if_pos hother, if_pos hother, hother, if_pos hmem]
    · rw [if_neg hother, if_neg hother]
      exact h.get?_eq other
  case mem_iff =>
    intro other
    rw [latest?_concat_put]
    by_cases hother : other = name
    · rw [if_pos hother, hother]
      exact iff_of_true (h.mem_of_mem_order hmem) rfl
    · rw [if_neg hother]
      exact h.mem_iff other

/-- A name that is not present is inserted. -/
theorem put_of_get?_eq_none (h : c.Follows calls names) (hnone : c.get? name = none)
    (signature : FixedBytes 96) :
  (c.put name signature).Follows (calls ++ [.put name signature]) (names ++ [name])
  := by
  have hfresh : name ∉ c.order := by
    rw [h.mem_order_iff, hnone]
    exact Bool.false_ne_true
  have hnodup := h.nodup.concat hfresh
  rw [List.concat_eq_append] at hnodup
  rw [SignatureCache.put_of_get?_eq_none hnone]
  generalize hn : (c.order ++ [name]).length - c.capacity = n
  constructor
  case order_eq =>
    show (c.order ++ [name]).drop n = (names ++ [name]).drop ((names ++ [name]).length - c.capacity)
    rw [← hn, h.order_eq]
    apply drop_concat_drop
  case nodup => exact hnodup.sublist (List.drop_sublist n _)
  case get?_eq =>
    intro other
    show (((c.order ++ [name]).take n).foldl Table.erase (c.entries.put name signature)).get? other
      = if other ∈ (c.order ++ [name]).drop n then _ else none
    have hlast := mem_drop_iff_not_mem_take hnodup n other
    have hget := h.get?_eq other
    rw [SignatureCache.get?] at hget
    rw [get?_foldl_erase, Table.get?_put, latest?_concat_put]
    by_cases htaken : other ∈ (c.order ++ [name]).take n
    · rw [if_pos htaken, if_neg (fun hkept => (hlast.mp hkept).2 htaken)]
    · rw [if_neg htaken, hget]
      by_cases hother : other = name
      · have hkept := hlast.mpr ⟨List.mem_append_right _ (List.mem_singleton.mpr hother), htaken⟩
        rw [if_pos hother, if_pos hkept, if_pos hother]
      · simp [hlast, htaken, hother]
  case mem_iff =>
    intro other
    rw [latest?_concat_put, List.mem_append, List.mem_singleton, h.mem_iff]
    by_cases hother : other = name
    · simp [hother]
    · simp [hother]

/-- A call leaves a cache as it and those before it say. -/
theorem after (h : c.Follows calls names) (call : Call) :
  (c.after call).Follows (calls ++ [call]) (names ++ (c.insertedBy call).toList)
  := by
  cases call with
  | get name =>
      show c.Follows (calls ++ [.get name]) (names ++ [])
      rw [List.append_nil]
      refine { h with get?_eq := ?_, mem_iff := ?_ }
      · simp only [latest?_concat_get]
        exact h.get?_eq
      · simp only [latest?_concat_get]
        exact h.mem_iff
  | put name signature =>
      cases hget : c.get? name with
      | some s =>
          have hsome : (c.get? name).isSome = true := by rw [hget]; rfl
          rw [insertedBy, if_pos hsome, Option.toList_none, List.append_nil]
          exact h.put_of_isSome hsome signature
      | none =>
          have hnone : ¬ (c.get? name).isSome = true := by simp [hget]
          rw [insertedBy, if_neg hnone, Option.toList_some]
          exact h.put_of_get?_eq_none hget signature

/-- Calls leave a cache as they and those before them say. -/
theorem run (h : c.Follows calls names) (calls' : List Call) :
  (c.run calls').Follows (calls ++ calls') (names ++ c.inserted calls')
  := by
  induction calls' generalizing c calls names with
  | nil =>
      rw [inserted, List.append_nil, List.append_nil]
      exact h
  | cons call calls' ih =>
      have hafter := ih (h.after call)
      rw [List.append_assoc, List.append_assoc] at hafter
      exact hafter

end Follows

/-- Nothing was asked of a new cache. -/
theorem follows_ofCapacity (n : Nat) :
  (ofCapacity n).Follows [] []
  := by
  constructor
  case order_eq => exact List.drop_nil.symm
  case nodup => exact List.nodup_nil
  case get?_eq =>
    intro name
    rfl
  case mem_iff =>
    intro name
    simp [latest?]

/-- A cache keeps its capacity. -/
theorem capacity_run (c : SignatureCache) (calls : List Call) :
  (c.run calls).capacity = c.capacity
  := by
  induction calls generalizing c with
  | nil => rfl
  | cons call calls ih =>
      rw [run, List.foldl_cons, ← run, ih]
      cases call with
      | put name signature => apply capacity_put
      | get name => rfl

/-- Whatever is asked of a cache, the queue holds the names of the signatures that are kept, none
twice and no more than the capacity allows.  The signature that is kept for a name is the latest
that was put in, if fewer names than the capacity were inserted since the name was inserted last,
and otherwise there is none.  Another signature for a name that is present changes neither the
queue nor the signatures for other names. -/
theorem keeps_latest (n : Nat) (calls : List Call) :
  let c := (ofCapacity n).run calls
  let names := (ofCapacity n).inserted calls
  c.order.Nodup ∧
  (∀ name, name ∈ c.order ↔ ∃ signature, c.entries.get? name = some signature) ∧
  c.order.length ≤ max 1 n ∧
  (∀ name, name ∈ names ↔ ∃ signature, latest? name calls = some signature) ∧
  (∀ name, c.get? name
    = if insertedSince name names < max 1 n then latest? name calls else none) ∧
  (∀ name signature, (c.get? name).isSome = true →
    (c.put name signature).order = c.order ∧
    ∀ other, (c.put name signature).get? other
      = if other = name then some signature else c.get? other)
  := by
  intro c names
  have h : c.Follows calls names := (follows_ofCapacity n).run calls
  have hcapacity : c.capacity = max 1 n := capacity_run (ofCapacity n) calls
  refine ⟨h.nodup, ?_, ?_, ?_, ?_, ?_⟩
  · intro name
    rw [h.mem_order_iff, Option.isSome_iff_exists]
    rfl
  · rw [← hcapacity]
    exact h.length_order_le
  · intro name
    rw [h.mem_iff, Option.isSome_iff_exists]
  · intro name
    rw [h.get?_eq, ← hcapacity]
    by_cases hname : name ∈ names
    · simp only [h.mem_order_iff_insertedSince hname]
    · have hlatest : latest? name calls = none := by
        rwa [h.mem_iff, Option.not_isSome_iff_eq_none] at hname
      rw [hlatest, ite_self, ite_self]
  · intro name signature hsome
    rw [put_of_isSome hsome]
    use rfl
    intro other
    apply Table.get?_put

end Interchain.SignatureCache
