import Interchain.Message.Signers.Lemmas

/-!
# Signers as a set

A set of signers is determined by its members.  `bound_le_iff` says what the bound tells
about them, `toList_eq_filter` lists them in order, and `ofBytes_bytes` reads the byte form
back.
-/

namespace Interchain.Signers

/-! ### Members -/

/-- The empty set has no members. -/
@[simp]
theorem contains_empty (i : Nat) :
  empty.contains i = false
  := by
  rw [contains, empty, Nat.zero_testBit]

/-- The members after `i` was put in. -/
@[simp]
theorem contains_insert (s : Signers) (i j : Nat) :
  (s.insert i).contains j = true ↔ j = i ∨ s.contains j = true
  := by
  rw [contains, insert, Nat.testBit_or, Nat.one_shiftLeft, Nat.testBit_two_pow, Bool.or_eq_true,
    decide_eq_true_eq, ← contains, or_comm, eq_comm]

/-- Putting in the members of a list adds these. -/
theorem contains_foldl_insert (l : List Nat) (s : Signers) (i : Nat) :
  (l.foldl insert s).contains i = true ↔ i ∈ l ∨ s.contains i = true
  := by
  induction l generalizing s with
  | nil => simp
  | cons j l ih =>
      rw [List.foldl_cons, ih, contains_insert, List.mem_cons]
      tauto

/-- The members of the set of a list are those of the list. -/
@[simp]
theorem contains_ofList (l : List Nat) (i : Nat) :
  (ofList l).contains i = true ↔ i ∈ l
  := by
  rw [ofList, contains_foldl_insert]
  simp

/-- Sets with the same members are the same. -/
theorem eq_of_contains {s t : Signers} (h : ∀ i, s.contains i = t.contains i) :
  s = t
  := by
  apply Signers.ext
  apply Nat.eq_of_testBit_eq h

/-- The set of a list with one more entry. -/
theorem ofList_concat (l : List Nat) (i : Nat) :
  ofList (l ++ [i]) = (ofList l).insert i
  := by
  rw [ofList, List.foldl_append]
  rfl

/-! ### The bound -/

/-- A set that is not empty has its bound from its greatest member. -/
theorem contains_pred_bound (s : Signers) (h : 0 < s.bound) :
  s.contains (s.bound - 1) = true
  := by
  rw [bound] at h ⊢
  split at h
  · omega
  · next hz =>
    rw [if_neg hz, Nat.add_sub_cancel, contains]
    apply Nat.testBit_log2 hz

/-- The bound is the least number that is greater than all members. -/
theorem bound_le_iff (s : Signers) (n : Nat) :
  s.bound ≤ n ↔ ∀ i, s.contains i = true → i < n
  := by
  constructor
  · intro h i hi
    have := s.lt_bound i hi
    omega
  · intro h
    by_cases hz : s.bound = 0
    · omega
    · have := h _ (s.contains_pred_bound (by omega))
      omega

/-- The bound of a set with a member outside a range is behind its greatest member. -/
theorem isGreatest_pred_bound (s : Signers) {n : Nat} (h : n < s.bound) :
  IsGreatest { i | s.contains i = true } (s.bound - 1)
  := by
  constructor
  · apply s.contains_pred_bound
    omega
  · intro i hi
    have := s.lt_bound i hi
    omega

/-! ### The list of members -/

theorem nodup_toList (s : Signers) :
  s.toList.Nodup
  := s.pairwise_toList.imp fun h => Nat.ne_of_lt h

/-- The members in ascending order are the numbers in a range that belong to the set. -/
theorem toList_eq_filter (s : Signers) {n : Nat} (h : s.bound ≤ n) :
  s.toList = (List.range n).filter s.contains
  := by
  have hantisymm : ∀ i j, i ∈ s.toList → j ∈ (List.range n).filter s.contains →
      i < j → j < i → i = j := by
    intro i j _ _ hlt hgt
    omega
  apply List.Perm.eq_of_pairwise hantisymm s.pairwise_toList
  · apply List.pairwise_lt_range.filter
  · apply (List.perm_ext_iff_of_nodup s.nodup_toList (List.nodup_range.filter _)).mpr
    intro i
    rw [mem_toList, List.mem_filter, List.mem_range]
    have := (s.bound_le_iff n).mp h i
    tauto

/-- The set of a list without repetitions lists the same members. -/
theorem toList_ofList_perm {l : List Nat} (h : l.Nodup) :
  (ofList l).toList.Perm l
  := by
  apply (List.perm_ext_iff_of_nodup (nodup_toList _) h).mpr
  intro i
  rw [mem_toList, contains_ofList]

/-! ### The byte form -/

/-- The first byte of a number in `width + 1` bytes. -/
theorem head?_ofNat (width n : Nat) :
  (Bytes.ofNat (width + 1) n).head? = some (UInt8.ofNat (n / 256 ^ width))
  := by
  rw [Nat.add_comm, Bytes.ofNat_add]
  rfl

theorem mask_lt (s : Signers) :
  s.mask < 2 ^ s.bound
  := by
  rw [bound]
  split
  · next hz => simp [hz]
  · apply Nat.lt_log2_self

/-- A number with so many bits fits in bytes that have as many. -/
theorem mask_lt_of_bound_le (s : Signers) (width : Nat) (h : s.bound ≤ 8 * width) :
  s.mask < 256 ^ width
  := by
  apply Nat.lt_of_lt_of_le s.mask_lt
  rw [show 256 = 2 ^ 8 from rfl, ← Nat.pow_mul]
  apply Nat.pow_le_pow_right (by omega) h

/-- A number with more bits does not fit in the bytes. -/
theorem le_mask_of_lt_bound (s : Signers) (width : Nat) (h : 8 * width < s.bound) :
  256 ^ width ≤ s.mask
  := by
  apply Nat.le_trans _ (Nat.ge_two_pow_of_testBit (s.contains_pred_bound (by omega)))
  rw [show 256 = 2 ^ 8 from rfl, ← Nat.pow_mul]
  apply Nat.pow_le_pow_right (by omega)
  omega

/-- The byte form of a set is that of its number. -/
theorem bytes_eq (s : Signers) :
  s.bytes = Bytes.ofNat ((s.bound + 7) / 8) s.mask
  := Bytes.ofNatByHalves_eq _ _ _

/-- The byte form of a set of numbers below `n` takes no more bytes than it takes bits for
`n` numbers. -/
theorem length_bytes_le {s : Signers} {n : Nat} (h : s.bound ≤ n) :
  s.bytes.length ≤ (n + 7) / 8
  := by
  rw [bytes_eq, Bytes.length_ofNat]
  omega

/-- A byte form does not start with a zero byte. -/
theorem head?_bytes_ne (s : Signers) :
  s.bytes.head? ≠ some 0
  := by
  rw [bytes_eq]
  cases hw : (s.bound + 7) / 8 with
  | zero => simp [Bytes.ofNat]
  | succ width =>
      -- The greatest member stands in the first byte.
      have hge := s.le_mask_of_lt_bound width (by omega)
      have hlt := s.mask_lt_of_bound_le (width + 1) (by omega)
      have hpos : 0 < s.mask / 256 ^ width := Nat.div_pos hge (by positivity)
      have hsmall : s.mask / 256 ^ width < 256 := Nat.div_lt_of_lt_mul hlt
      rw [head?_ofNat]
      intro h
      have hzero := congrArg UInt8.toNat (Option.some.inj h)
      rw [UInt8.toNat_ofNat', Nat.mod_eq_of_lt hsmall] at hzero
      simp only [UInt8.toNat_zero] at hzero
      omega

/-- The byte form denotes the number of the set. -/
theorem toNat_bytes (s : Signers) :
  s.bytes.toNat = s.mask
  := by
  have hlt := s.mask_lt_of_bound_le ((s.bound + 7) / 8) (by omega)
  rw [bytes_eq, Bytes.toNat_ofNat, Nat.mod_eq_of_lt hlt]

/-- Every set is read back from its byte form. -/
theorem ofBytes_bytes (s : Signers) :
  ofBytes s.bytes = .ok s
  := by rw [ofBytes, if_neg s.head?_bytes_ne, Bytes.toNatByHalves_eq, toNat_bytes]

/-- A byte form takes as many bytes as were read. -/
theorem bytes_of_head?_ne {b : Bytes} (h : b.head? ≠ some 0) :
  bytes ⟨b.toNat⟩ = b
  := by
  have hwidth : (bound ⟨b.toNat⟩ + 7) / 8 = b.length := by
    cases b with
    | nil => rfl
    | cons x rest =>
        have hx : 1 ≤ x.toNat := by
          apply Nat.pos_of_ne_zero
          intro hx
          have hzero : x = 0 := UInt8.toNat_inj.mp hx
          apply h
          rw [hzero, List.head?_cons]
        have hge : 256 ^ rest.length ≤ Bytes.toNat (x :: rest) := by
          rw [Bytes.toNat_cons]
          nlinarith [Nat.mul_le_mul_right (256 ^ rest.length) hx]
        have hlt := Bytes.toNat_lt (x :: rest)
        have hlow : 8 * rest.length < bound ⟨Bytes.toNat (x :: rest)⟩ := by
          by_contra hle
          have hsmall := mask_lt_of_bound_le ⟨_⟩ rest.length (Nat.le_of_not_lt hle)
          apply Nat.not_lt_of_le hge hsmall
        have hhigh : bound ⟨Bytes.toNat (x :: rest)⟩ ≤ 8 * (x :: rest).length := by
          by_contra hgt
          have hlarge := le_mask_of_lt_bound ⟨_⟩ (x :: rest).length (Nat.lt_of_not_le hgt)
          apply Nat.not_lt_of_le hlarge hlt
        rw [List.length_cons] at hhigh ⊢
        omega
  rw [bytes_eq, hwidth, Bytes.ofNat_toNat]

/-- Only the byte form of a set is read as this set. -/
theorem ofBytes_eq_ok_iff (b : Bytes) (s : Signers) :
  ofBytes b = .ok s ↔ s.bytes = b
  := by
  constructor
  · intro h
    rw [ofBytes] at h
    split at h
    · cases h
    · next hhead =>
      cases h
      rw [Bytes.toNatByHalves_eq]
      apply bytes_of_head?_ne hhead
  · rintro rfl
    apply s.ofBytes_bytes

end Interchain.Signers
