import Mathlib.Data.Finset.Sort
import Mathlib.Data.Nat.BitIndices
import Mathlib.Tactic.Simps.Basic
import Interchain.Proofs.BitRow
import Interchain.Proofs.Checks

/-!
# Forms of sets

Sets of validator indices are kept in two forms: as the number whose binary digits tell the
members, which is `Signers`, and as a row of stored bits, which is `BitRow`.  `SetForm` names what
can be done to a form and asked of it, and `SetForm.IsCanonical` says that a form is as good as the
sets themselves: all that can be asked is determined by the set, however it was built, and there is
one byte form for every set.  The result is `SetForm.forms_canonical`.

For numbers this rests on the members alone, for a number is determined by its binary digits.  Rows
are taken to numbers by `BitRow.toSigners`, and back because the rows that can be built are tight.
-/

namespace Interchain

/-- What is done to a form of sets of validator indices, and what is asked of it. -/
structure SetForm (α : Type) where
  empty : α
  insert : α → Nat → α
  ofList : List Nat → α
  ofBytes : Bytes → Except MessageError α
  contains : α → Nat → Bool
  toList : α → List Nat
  size : α → Nat
  bound : α → Nat
  isEmpty : α → Bool
  bytes : α → Bytes

namespace SetForm

variable {α : Type} (F : SetForm α)

/-- The form was built for the set: from nothing, from a list or from bytes, and by putting in more
indices. -/
inductive Builds : Finset Nat → α → Prop
  | empty : Builds ∅ F.empty
  | ofList (l : List Nat) : Builds l.toFinset (F.ofList l)
  | ofBytes {b : Bytes} {a : α} (h : F.ofBytes b = .ok a) : Builds b.toNat.bitIndices.toFinset a
  | insert {S : Finset Nat} {a : α} (h : Builds S a) (i : Nat) : Builds (S ∪ {i}) (F.insert a i)

/-- All that is asked of the form is answered for the set.  The byte form denotes the number with a
binary digit for each member, it does not start with a zero byte, and it is read back. -/
structure Shows (S : Finset Nat) (a : α) : Prop where
  contains_iff : ∀ i, F.contains a i = true ↔ i ∈ S
  toList_eq : F.toList a = S.sort (· ≤ ·)
  size_eq : F.size a = S.card
  bound_eq : F.bound a = S.sup Nat.succ
  isEmpty_iff : F.isEmpty a = true ↔ S = ∅
  testBit_bytes : ∀ i, (F.bytes a).toNat.testBit i = true ↔ i ∈ S
  head?_bytes : (F.bytes a).head? ≠ some 0
  ofBytes_bytes : F.ofBytes (F.bytes a) = .ok a

/-- Sets and what was built for them correspond, and so do what was built and the byte strings that
do not start with a zero byte. -/
structure IsCanonical : Prop where
  shows : ∀ {S a}, F.Builds S a → F.Shows S a
  eq_iff : ∀ {S T a b}, F.Builds S a → F.Builds T b → (a = b ↔ S = T)
  exists_ofBytes_iff : ∀ b, (∃ a, F.ofBytes b = .ok a) ↔ b = [] ∨ ∃ x rest, b = x :: rest ∧ x ≠ 0
  ofBytes_zero : ∀ rest, F.ofBytes (0 :: rest) = .error .nonCanonicalSigners
  bytes_ofBytes : ∀ {b a}, F.ofBytes b = .ok a → F.bytes a = b

variable {F}

/-- What shows two sets shows that they are the same. -/
theorem Shows.eq {S T : Finset Nat} {a : α} (h : F.Shows S a) (h' : F.Shows T a) :
  S = T
  := by
  ext i
  rw [← h.contains_iff, h'.contains_iff]

end SetForm

/-! ### Sets as numbers -/

namespace Signers

/-- Sets of signers as a form of sets. -/
@[simps]
def form : SetForm Signers where
  empty := empty
  insert := insert
  ofList := ofList
  ofBytes := ofBytes
  contains := contains
  toList := toList
  size := size
  bound := bound
  isEmpty := isEmpty
  bytes := bytes

/-- What was built has the members that were put in. -/
theorem contains_of_builds {S : Finset Nat} {s : Signers} (h : form.Builds S s) (i : Nat) :
  s.contains i = true ↔ i ∈ S
  := by
  induction h with
  | empty => simp [form]
  | ofList l =>
      rw [List.mem_toFinset]
      apply contains_ofList
  | @ofBytes b s h =>
      have hbytes := (ofBytes_eq_ok_iff b s).mp h
      rw [← hbytes, List.mem_toFinset, Nat.mem_bitIndices, toNat_bytes, contains]
  | insert _ j ih =>
      rw [Finset.mem_union, Finset.mem_singleton, ← ih, or_comm]
      apply contains_insert

theorem isEmpty_iff (s : Signers) :
  s.isEmpty = true ↔ ∀ i, s.contains i = false
  := by
  rw [isEmpty, decide_eq_true_iff]
  constructor
  · intro h i
    rw [contains, h, Nat.zero_testBit]
  · intro h
    have hempty : s = empty := eq_of_contains (by simpa using h)
    rw [hempty, empty]

/-- A set answers for its members. -/
theorem shows_of_contains {S : Finset Nat} {s : Signers} (h : ∀ i, s.contains i = true ↔ i ∈ S) :
  form.Shows S s
  := by
  have hlist : s.toList = S.sort (· ≤ ·) := by
    apply s.pairwise_toList.eq_of_mem_iff S.sortedLT_sort.pairwise
    intro i
    rw [mem_toList, h, Finset.mem_sort]
  constructor
  case contains_iff => apply h
  case toList_eq => apply hlist
  case size_eq =>
    have hlength := congrArg List.length hlist
    rw [Finset.length_sort] at hlength
    apply hlength
  case bound_eq =>
    apply eq_of_forall_ge_iff
    intro n
    rw [Finset.sup_le_iff, form_bound, bound_le_iff]
    simp only [h, Nat.succ_le_iff]
  case isEmpty_iff =>
    rw [form_isEmpty, isEmpty_iff, Finset.eq_empty_iff_forall_notMem]
    simp only [← h, Bool.not_eq_true]
  case testBit_bytes =>
    intro i
    rw [form_bytes, toNat_bytes]
    apply h
  case head?_bytes => apply s.head?_bytes_ne
  case ofBytes_bytes => apply s.ofBytes_bytes

theorem exists_ofBytes_iff (b : Bytes) :
  (∃ s, ofBytes b = .ok s) ↔ b = [] ∨ ∃ x rest, b = x :: rest ∧ x ≠ 0
  := by
  cases b with
  | nil => simp [ofBytes]
  | cons x rest =>
      by_cases hx : x = 0
      · simp [ofBytes, hx]
      · simp [ofBytes, hx]

theorem isCanonical_form :
  form.IsCanonical
  where
  shows := by
    intro S s h
    apply shows_of_contains (contains_of_builds h)
  eq_iff := by
    intro S T s t hs ht
    constructor
    · rintro rfl
      exact (shows_of_contains (contains_of_builds hs)).eq
        (shows_of_contains (contains_of_builds ht))
    · rintro rfl
      apply eq_of_contains
      intro i
      rw [Bool.eq_iff_iff, contains_of_builds hs, contains_of_builds ht]
  exists_ofBytes_iff := exists_ofBytes_iff
  ofBytes_zero := by
    intro rest
    rfl
  bytes_ofBytes := by
    intro b s h
    exact (ofBytes_eq_ok_iff b s).mp h

end Signers

/-! ### Sets as rows -/

namespace BitRow

/-- Rows of bits as a form of sets. -/
@[simps]
def form : SetForm BitRow where
  empty := empty
  insert := insert
  ofList := ofList
  ofBytes := ofBytes
  contains := contains
  toList := toList
  size := size
  bound := bound
  isEmpty := isEmpty
  bytes := bytes

/-- What is built as a row is built as a number. -/
theorem builds_toSigners {S : Finset Nat} {r : BitRow} (h : form.Builds S r) :
  Signers.form.Builds S r.toSigners
  := by
  induction h with
  | empty => apply SetForm.Builds.empty
  | ofList l =>
      rw [form_ofList, toSigners_ofList]
      apply SetForm.Builds.ofList
  | @ofBytes b r h =>
      apply SetForm.Builds.ofBytes
      rw [Signers.form_ofBytes, ← ofBytes_eq, map_eq_ok_iff]
      exact ⟨r, h, rfl⟩
  | @insert _ r _ i ih =>
      rw [form_insert, toSigners_insert]
      apply ih.insert

/-- Rows that are built are tight. -/
theorem isTight_of_builds {S : Finset Nat} {r : BitRow} (h : form.Builds S r) :
  r.IsTight
  := by
  induction h with
  | empty => apply isTight_empty
  | ofList l => apply isTight_ofList
  | ofBytes h => apply isTight_of_ofBytes h
  | insert _ i ih => apply ih.insert

/-- A tight row is read back from its byte form. -/
theorem IsTight.ofBytes_bytes {r : BitRow} (h : r.IsTight) :
  ofBytes r.bytes = .ok r
  := by
  -- the set is read back, and there is one tight row for it
  have hmap := ofBytes_eq r.bytes
  rw [← bytes_toSigners, Signers.ofBytes_bytes, map_eq_ok_iff] at hmap
  obtain ⟨r', hr', hsigners⟩ := hmap
  rw [bytes_toSigners] at hr'
  rw [hr', eq_of_toSigners_eq (isTight_of_ofBytes hr') h hsigners]

/-- A tight row answers as its set does. -/
theorem IsTight.shows {S : Finset Nat} {r : BitRow} (hr : r.IsTight)
    (h : Signers.form.Shows S r.toSigners) :
  form.Shows S r
  where
  contains_iff := by
    intro i
    rw [← h.contains_iff, Signers.form_contains, contains_toSigners, form_contains]
  toList_eq := by rw [← h.toList_eq, Signers.form_toList, toList_toSigners, form_toList]
  size_eq := by rw [← h.size_eq, Signers.form_size, size_toSigners, form_size]
  bound_eq := by rw [← h.bound_eq, Signers.form_bound, bound_toSigners, form_bound]
  isEmpty_iff := by
    rw [← h.isEmpty_iff, Signers.form_isEmpty, Signers.isEmpty_iff, form_isEmpty, isEmpty_iff]
    simp only [contains_toSigners]
  testBit_bytes := by
    intro i
    rw [← h.testBit_bytes, Signers.form_bytes, bytes_toSigners, form_bytes]
  head?_bytes := by
    rw [form_bytes, ← bytes_toSigners]
    apply h.head?_bytes
  ofBytes_bytes := hr.ofBytes_bytes

/-- Rows are read from the byte strings from which numbers are read. -/
theorem exists_ofBytes_iff (b : Bytes) :
  (∃ r, ofBytes b = .ok r) ↔ ∃ s, Signers.ofBytes b = .ok s
  := by
  rw [← ofBytes_eq]
  simp only [map_eq_ok_iff]
  constructor
  · rintro ⟨r, hr⟩
    exact ⟨r.toSigners, r, hr, rfl⟩
  · rintro ⟨_, r, hr, _⟩
    exact ⟨r, hr⟩

theorem isCanonical_form :
  form.IsCanonical
  where
  shows := by
    intro S r h
    apply (isTight_of_builds h).shows
    apply Signers.isCanonical_form.shows (builds_toSigners h)
  eq_iff := by
    intro S T r r' h h'
    rw [← Signers.isCanonical_form.eq_iff (builds_toSigners h) (builds_toSigners h')]
    constructor
    · rintro rfl
      rfl
    · apply eq_of_toSigners_eq (isTight_of_builds h) (isTight_of_builds h')
  exists_ofBytes_iff := by
    intro b
    rw [← Signers.exists_ofBytes_iff]
    apply exists_ofBytes_iff
  ofBytes_zero := by
    intro rest
    rfl
  bytes_ofBytes := by
    intro b r h
    have hsigners : Signers.ofBytes b = .ok r.toSigners := by
      rw [← ofBytes_eq, map_eq_ok_iff]
      exact ⟨r, h, rfl⟩
    rw [form_bytes, ← bytes_toSigners]
    exact (Signers.ofBytes_eq_ok_iff b _).mp hsigners

end BitRow

/-- Both forms are canonical, and what is built as a row stands for what is built as a number. -/
theorem SetForm.forms_canonical :
  BitRow.form.IsCanonical ∧ Signers.form.IsCanonical ∧
  ∀ S r, BitRow.form.Builds S r → Signers.form.Builds S r.toSigners
  := by
  use BitRow.isCanonical_form, Signers.isCanonical_form
  intro S r
  apply BitRow.builds_toSigners

/-- The order and the repetitions in the list do not matter. -/
example :
  BitRow.form.bytes (BitRow.form.ofList [8, 0, 3, 1, 3]) = [0x01, 0x0b]
  := by decide

end Interchain
