import Interchain.Bytes
import Interchain.Table

/-!
# Ordered tables

An ordered table lists its values in the order of their keys, which are byte strings of one
length.  Putting in a value comes to the same entries as in other tables, but at the place
that the key has among the others.
-/

namespace Interchain

/-- Values by byte strings of length `n`, in the order of these. -/
structure OrderedTable (n : Nat) (β : Type) extends Table (FixedBytes n) β where
  ordered : entries.Pairwise fun e e' => e.1.bytes < e'.1.bytes

namespace OrderedTable

variable {n : Nat} {β : Type}

/-- The table without values. -/
def empty : OrderedTable n β := ⟨{}, .nil⟩

/-- The values in the order of their keys. -/
def values (t : OrderedTable n β) : List β := t.entries.map (·.2)

/-- The entries with a value at the place of its key. -/
def place (k : FixedBytes n) (v : β) : List (FixedBytes n × β) → List (FixedBytes n × β)
  | [] => [(k, v)]
  | e :: rest =>
    if k = e.1 then (k, v) :: rest
    else if k.bytes < e.1.bytes then (k, v) :: e :: rest
    else e :: place k v rest

/-- An entry is the value that was put in, or was there before. -/
theorem mem_of_mem_place {k : FixedBytes n} {v : β} {entries : List (FixedBytes n × β)}
    {e : FixedBytes n × β} (h : e ∈ place k v entries) :
  e = (k, v) ∨ e ∈ entries
  := by
  induction entries with
  | nil => exact .inl (List.mem_singleton.mp h)
  | cons d rest ih =>
      rw [place] at h
      split at h
      · exact (List.mem_cons.mp h).imp id (List.mem_cons_of_mem _)
      · split at h
        · exact List.mem_cons.mp h
        · obtain rfl | h := List.mem_cons.mp h
          · exact .inr List.mem_cons_self
          · exact (ih h).imp id (List.mem_cons_of_mem _)

theorem ne_of_lt {k k' : FixedBytes n} (h : k.bytes < k'.bytes) :
  k ≠ k'
  := by
  rintro rfl
  exact List.lt_irrefl _ h

/-- What is less than the first key is less than all. -/
theorem lt_of_lt_first {k : FixedBytes n} {d : FixedBytes n × β}
    {rest : List (FixedBytes n × β)}
    (h : (d :: rest).Pairwise fun e e' => e.1.bytes < e'.1.bytes)
    (hk : k.bytes < d.1.bytes) :
  ∀ e ∈ d :: rest, k.bytes < e.1.bytes
  := by
  intro e he
  obtain rfl | he := List.mem_cons.mp he
  · exact hk
  · exact List.lt_trans hk ((List.pairwise_cons.mp h).1 e he)

/-- Entries stay in order. -/
theorem ordered_place (k : FixedBytes n) (v : β) {entries : List (FixedBytes n × β)}
    (h : entries.Pairwise fun e e' => e.1.bytes < e'.1.bytes) :
  (place k v entries).Pairwise fun e e' => e.1.bytes < e'.1.bytes
  := by
  induction entries with
  | nil => exact List.pairwise_singleton _ _
  | cons d rest ih =>
      obtain ⟨hd, hrest⟩ := List.pairwise_cons.mp h
      rw [place]
      split
      case isTrue heq => exact List.pairwise_cons.mpr ⟨by rwa [heq], hrest⟩
      case isFalse hne =>
        split
        case isTrue hlt => exact List.pairwise_cons.mpr ⟨lt_of_lt_first h hlt, h⟩
        case isFalse hge =>
          apply List.pairwise_cons.mpr ⟨_, ih hrest⟩
          intro e he
          obtain rfl | he := mem_of_mem_place he
          · apply Std.lt_of_le_of_ne (List.not_lt.mp hge)
            intro heq
            exact hne (FixedBytes.ext heq.symm)
          · exact hd e he

/-- Keys in order differ. -/
theorem nodup_of_ordered {entries : List (FixedBytes n × β)}
    (h : entries.Pairwise fun e e' => e.1.bytes < e'.1.bytes) :
  (entries.map (·.1)).Nodup
  := by
  apply List.pairwise_map.mpr (h.imp _)
  intro e e' hlt
  exact ne_of_lt hlt

/-- The table with a value for a key. -/
def put (t : OrderedTable n β) (k : FixedBytes n) (v : β) : OrderedTable n β where
  entries := place k v t.entries
  nodup_keys := nodup_of_ordered (ordered_place k v t.ordered)
  ordered := ordered_place k v t.ordered

/-- Entries with greater keys are all of other keys. -/
theorem filter_eq_self_of_lt {k : FixedBytes n} {entries : List (FixedBytes n × β)}
    (h : ∀ e ∈ entries, k.bytes < e.1.bytes) :
  entries.filter (·.1 ≠ k) = entries
  := by
  apply List.filter_eq_self.mpr
  intro e he
  exact decide_eq_true (ne_of_lt (h e he)).symm

/-- The entries are those of a table without order. -/
theorem entries_put_perm (t : OrderedTable n β) (k : FixedBytes n) (v : β) :
  (t.put k v).entries.Perm ((k, v) :: t.entries.filter (·.1 ≠ k))
  := by
  show (place k v t.entries).Perm _
  have hordered := t.ordered
  generalize t.entries = entries at hordered
  induction entries with
  | nil => exact .refl _
  | cons d rest ih =>
      obtain ⟨hd, hrest⟩ := List.pairwise_cons.mp hordered
      rw [place]
      by_cases heq : k = d.1
      · rw [if_pos heq, List.filter_cons_of_neg (by simp [heq]), filter_eq_self_of_lt]
        rwa [heq]
      · rw [if_neg heq]
        split
        case isTrue hlt => rw [filter_eq_self_of_lt (lt_of_lt_first hordered hlt)]
        case isFalse =>
          rw [List.filter_cons_of_pos (by simpa using Ne.symm heq)]
          exact ((ih hrest).cons d).trans (.swap ..)

/-- What is in a table with one more value. -/
theorem mem_entries_put_iff (t : OrderedTable n β) (k : FixedBytes n) (v : β)
    (e : FixedBytes n × β) :
  e ∈ (t.put k v).entries ↔ e = (k, v) ∨ e ∈ t.entries ∧ e.1 ≠ k
  := by
  rw [(t.entries_put_perm k v).mem_iff, List.mem_cons, List.mem_filter, decide_eq_true_eq]

/-- Putting in the value that is there changes nothing. -/
theorem put_of_get?_eq_some {t : OrderedTable n β} {k : FixedBytes n} {v : β}
    (h : t.get? k = some v) :
  (t.put k v).entries = t.entries
  := by
  have hmem := (t.get?_eq_some_iff k v).mp h
  have hordered := t.ordered
  show place k v t.entries = t.entries
  generalize t.entries = entries at hmem hordered
  induction entries with
  | nil => cases hmem
  | cons d rest ih =>
      obtain ⟨hd, hrest⟩ := List.pairwise_cons.mp hordered
      obtain rfl | hmem := List.mem_cons.mp hmem
      · rw [place, if_pos rfl]
      · have hlt := hd _ hmem
        rw [place, if_neg (ne_of_lt hlt).symm, if_neg (List.lt_asymm hlt), ih hmem hrest]

end OrderedTable

end Interchain
