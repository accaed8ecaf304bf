/-!
# Tables

A table holds at most one value for each key.  Putting in a value for a key replaces the
one that is there.
-/

namespace Interchain

/-- Values by keys. -/
structure Table (α β : Type) where
  /-- The keys with their values, in the order of the last changes, latest first. -/
  entries : List (α × β) := []
  nodup_keys : (entries.map (·.1)).Nodup := by exact List.nodup_nil

namespace Table

variable {α β : Type} [DecidableEq α]

/-- The value for a key. -/
def get? (t : Table α β) (k : α) : Option β := t.entries.lookup k

/-- The table with a value for a key. -/
def put (t : Table α β) (k : α) (v : β) : Table α β where
  entries := (k, v) :: t.entries.filter (·.1 ≠ k)
  nodup_keys := by
    rw [List.map_cons, List.nodup_cons]
    constructor
    · simp
    · exact t.nodup_keys.sublist (List.filter_sublist.map _)

/-- The table without a value for a key. -/
def erase (t : Table α β) (k : α) : Table α β where
  entries := t.entries.filter (·.1 ≠ k)
  nodup_keys := t.nodup_keys.sublist (List.filter_sublist.map _)

/-- A value that is found first among some is one of them. -/
theorem mem_of_lookup_eq_some {entries : List (α × β)} {k : α} {v : β}
    (h : entries.lookup k = some v) :
  (k, v) ∈ entries
  := by
  obtain ⟨before, after, hentries, -⟩ := List.lookup_eq_some_iff.mp h
  rw [hentries]
  exact List.mem_append_right _ List.mem_cons_self

/-- A table has the values that are found in it. -/
theorem get?_eq_some_iff (t : Table α β) (k : α) (v : β) :
  t.get? k = some v ↔ (k, v) ∈ t.entries
  := by
  constructor
  · intro h
    apply mem_of_lookup_eq_some h
  · intro h
    obtain ⟨before, after, hentries⟩ := List.append_of_mem h
    have hnodup := t.nodup_keys
    rw [hentries, List.map_append, List.map_cons, List.nodup_append] at hnodup
    apply List.lookup_eq_some_iff.mpr
    refine ⟨before, after, hentries, ?_⟩
    intro e he
    apply bne_iff_ne.mpr
    exact (hnodup.2.2 e.1 (List.mem_map_of_mem he) k List.mem_cons_self).symm

/-- The values of a table with one less. -/
theorem get?_erase (t : Table α β) (k k' : α) :
  (t.erase k).get? k' = if k' = k then none else t.get? k'
  := by
  show (t.entries.filter (·.1 ≠ k)).lookup k' = if k' = k then none else t.entries.lookup k'
  induction t.entries with
  | nil => exact (ite_self _).symm
  | cons e rest ih =>
      by_cases he : e.1 = k
      · rw [List.filter_cons_of_neg (by simpa using he), ih, List.lookup_cons, he]
        by_cases h : k' = k
        · rw [if_pos h, if_pos h]
        · rw [if_neg h, if_neg h, beq_false_of_ne h]
      · rw [List.filter_cons_of_pos (by simpa using he), List.lookup_cons, ih, List.lookup_cons]
        by_cases h : k' = e.1
        · rw [h, beq_self_eq_true, if_neg he, if_neg he]
        · rw [beq_false_of_ne h]

/-- The values of a table with one more. -/
theorem get?_put (t : Table α β) (k k' : α) (v : β) :
  (t.put k v).get? k' = if k' = k then some v else t.get? k'
  := by
  have herase := t.get?_erase k k'
  rw [get?, put, List.lookup_cons]
  by_cases h : k' = k
  · rw [if_pos h, h, beq_self_eq_true]
  · rw [if_neg h] at herase ⊢
    rw [beq_false_of_ne h]
    exact herase

/-- No entry is of a key for which nothing is found. -/
theorem filter_entries_of_get?_eq_none {t : Table α β} {k : α} (h : t.get? k = none) :
  t.entries.filter (·.1 ≠ k) = t.entries
  := by
  apply List.filter_eq_self.mpr
  intro e he
  rw [get?, List.lookup_eq_none_iff] at h
  have hne := bne_iff_ne.mp (h e he)
  exact decide_eq_true hne.symm

/-- At most one entry comes in. -/
theorem length_put_le (t : Table α β) (k : α) (v : β) :
  (t.put k v).entries.length ≤ t.entries.length + 1
  := Nat.succ_le_succ (List.length_filter_le _ _)

/-- Only a new key makes a table longer. -/
theorem get?_eq_none_of_length_put {t : Table α β} {k : α} {v : β}
    (h : (t.put k v).entries.length = t.entries.length + 1) :
  t.get? k = none
  := by
  have hfilter := List.length_filter_eq_length_iff.mp (Nat.succ.inj h)
  rw [get?, List.lookup_eq_none_iff]
  intro e he
  exact bne_iff_ne.mpr (of_decide_eq_true (hfilter e he)).symm

/-- A new key is put before the others. -/
theorem entries_put_of_get?_eq_none {t : Table α β} {k : α} (v : β) (h : t.get? k = none) :
  (t.put k v).entries = (k, v) :: t.entries
  := by
  show (k, v) :: t.entries.filter (·.1 ≠ k) = (k, v) :: t.entries
  rw [filter_entries_of_get?_eq_none h]

/-- A value is put before those that were put in for other keys. -/
theorem entries_put_concat {γ : Type} {t : Table α β} {key : γ → α} {value : γ → β}
    {done : List γ} {s : γ} (h : t.entries = (done.map fun s => (key s, value s)).reverse)
    (hs : key s ∉ done.map key) :
  (t.put (key s) (value s)).entries
    = ((done ++ [s]).map fun s => (key s, value s)).reverse
  := by
  have hnone : t.get? (key s) = none := by
    apply List.lookup_eq_none_iff.mpr
    intro e he
    rw [h, List.mem_reverse, List.mem_map] at he
    obtain ⟨s', hs', rfl⟩ := he
    apply bne_iff_ne.mpr
    intro hkey
    apply hs
    rw [hkey]
    apply List.mem_map_of_mem hs'
  rw [entries_put_of_get?_eq_none _ hnone, h, List.map_append, List.reverse_append]
  rfl

end Table

end Interchain
