import Interchain.Message.Signers.BitRow
import Interchain.Proofs.Signers

/-!
# Rows of bits as sets

`BitRow.toSigners` is the set of signers that a row of bits stands for.  It turns what can be asked
of rows into what can be asked of sets, and what is done to rows into what is done to sets: the
lemmas `*_toSigners` and `toSigners_*` say so, and `ofBytes_eq` of byte forms.

Rows that stand for one set may differ by zeros at their ends.  `BitRow.IsTight` says of a row that
it ends with its last bit that is set.  Whatever is done to rows keeps this, and tight rows are the
same if they stand for the same set: this is `eq_of_toSigners_eq`.
-/

namespace Interchain

/-! ### Bits of bytes -/

namespace Bytes

/-- The bits of the number that a byte string denotes are those of its bytes, from the last one
on. -/
theorem testBit_toNat (b : Bytes) (i : Nat) :
  (toNat b).testBit i = (b.reverse[i / 8]?.map fun x => x.toNat.testBit (i % 8)).getD false
  := by
  induction b using List.reverseRecOn generalizing i with
  | nil => simp [toNat]
  | append_singleton b x ih =>
      have hx : x.toNat < 2 ^ 8 := x.toNat_lt
      have hnat : toNat (b ++ [x]) = 2 ^ 8 * toNat b + x.toNat := by
        rw [toNat_append, toNat_cons]
        simp [toNat]
        omega
      rw [hnat, Nat.testBit_two_pow_mul_add _ hx, List.reverse_concat]
      by_cases hi : i < 8
      · rw [if_pos hi, Nat.div_eq_of_lt hi, Nat.mod_eq_of_lt hi]
        rfl
      · obtain ⟨k, rfl⟩ := Nat.exists_eq_add_of_le (Nat.le_of_not_lt hi)
        rw [if_neg hi, Nat.add_sub_cancel_left, ih, Nat.add_mod_left, Nat.add_comm 8 k,
          Nat.add_div_right k (by decide), List.getElem?_cons_succ]

/-- Zeros denote zero. -/
theorem toNat_replicate_zero (n : Nat) :
  toNat (List.replicate n 0) = 0
  := by
  apply Nat.eq_of_testBit_eq
  intro i
  rw [testBit_toNat, List.reverse_replicate, List.getElem?_replicate, Nat.zero_testBit]
  split
  · simp
  · rfl

/-- Byte strings of one length that denote the same number are the same. -/
theorem eq_of_toNat_eq {a b : Bytes} (hlength : a.length = b.length) (h : toNat a = toNat b) :
  a = b
  := by rw [← ofNat_toNat a, ← ofNat_toNat b, hlength, h]

end Bytes

namespace BitRow

/-! ### The set of a row -/

/-- The number whose binary digits are the bits of a list, the last one first. -/
def ofBits (l : List Bool) : Nat := l.foldr Nat.bit 0

/-- The set that a row stands for. -/
def toSigners (r : BitRow) : Signers := ⟨ofBits r.bits⟩

theorem testBit_ofBits (l : List Bool) (i : Nat) :
  (ofBits l).testBit i = l[i]?.getD false
  := by
  induction l generalizing i with
  | nil => simp [ofBits]
  | cons b l ih =>
      rw [ofBits, List.foldr_cons, ← ofBits]
      cases i with
      | zero => rw [Nat.testBit_bit_zero]; rfl
      | succ i => rw [Nat.testBit_bit_succ, ih]; rfl

@[simp]
theorem contains_toSigners (r : BitRow) (i : Nat) :
  r.toSigners.contains i = r.contains i
  := testBit_ofBits r.bits i

/-- A row stands for a set if it has the same members. -/
theorem toSigners_eq {r : BitRow} {s : Signers} (h : ∀ i, r.contains i = s.contains i) :
  r.toSigners = s
  := by
  apply Signers.eq_of_contains
  intro i
  rw [contains_toSigners, h]

theorem toSigners_empty :
  toSigners empty = .empty
  := rfl

/-- The members of a row after `i` was put in. -/
theorem contains_insert (r : BitRow) (i j : Nat) :
  (r.insert i).contains j = (decide (j = i) || r.contains j)
  := by
  rw [contains, insert, List.getElem?_set, List.length_append, List.length_replicate]
  by_cases hij : i = j
  · rw [if_pos hij, if_pos (by omega), decide_eq_true hij.symm]
    rfl
  · rw [if_neg hij, decide_eq_false (Ne.symm hij), Bool.false_or, contains, List.getElem?_append]
    split
    · rfl
    · next h =>
      rw [List.getElem?_eq_none (Nat.le_of_not_lt h), List.getElem?_replicate]
      split
      · rfl
      · rfl

theorem toSigners_insert (r : BitRow) (i : Nat) :
  (r.insert i).toSigners = r.toSigners.insert i
  := by
  apply toSigners_eq
  intro j
  rw [Bool.eq_iff_iff, contains_insert, Signers.contains_insert, contains_toSigners]
  simp

theorem toSigners_foldl_insert (l : List Nat) (r : BitRow) :
  (l.foldl insert r).toSigners = l.foldl Signers.insert r.toSigners
  := by
  induction l generalizing r with
  | nil => rfl
  | cons i l ih => rw [List.foldl_cons, List.foldl_cons, ih, toSigners_insert]

theorem toSigners_ofList (l : List Nat) :
  (ofList l).toSigners = .ofList l
  := by rw [ofList, toSigners_foldl_insert, toSigners_empty, Signers.ofList]

/-! ### What can be asked of rows -/

theorem mem_toList (r : BitRow) (i : Nat) :
  i ∈ r.toList ↔ r.contains i = true
  := by
  rw [toList, List.mem_filterMap, contains]
  constructor
  · rintro ⟨⟨bit, j⟩, hmem, h⟩
    have hj := List.mem_zipIdx_iff_getElem?.mp hmem
    cases bit with
    | false => cases h
    | true =>
        cases h
        rw [hj]
        rfl
  · intro h
    use (true, i)
    rw [List.mem_zipIdx_iff_getElem?]
    cases hi : r.bits[i]? with
    | none => simp [hi] at h
    | some bit =>
        rw [hi, Option.getD_some] at h
        rw [h]
        exact ⟨rfl, rfl⟩

theorem pairwise_toList (r : BitRow) :
  r.toList.Pairwise (· < ·)
  := by
  have hindices : (r.bits.zipIdx.map Prod.snd).Pairwise (· < ·) := by
    rw [List.zipIdx_map_snd]
    exact List.pairwise_lt_range'
  rw [toList, List.pairwise_filterMap]
  apply (List.pairwise_map.mp hindices).imp
  rintro ⟨bit, i⟩ ⟨bit', i'⟩ hlt j hj j' hj'
  cases bit with
  | false => cases hj
  | true =>
      cases bit' with
      | false => cases hj'
      | true =>
          cases hj
          cases hj'
          exact hlt

theorem toList_toSigners (r : BitRow) :
  r.toSigners.toList = r.toList
  := by
  apply r.toSigners.pairwise_toList.eq_of_mem_iff r.pairwise_toList
  intro i
  rw [Signers.mem_toList, mem_toList, contains_toSigners]

theorem size_toSigners (r : BitRow) :
  r.toSigners.size = r.size
  := by
  have hbits : r.bits.count true = r.bits.zipIdx.countP (·.1) := by
    conv => lhs; rw [← List.zipIdx_map_fst 0 r.bits, List.count, List.countP_map]
    apply List.countP_congr
    rintro ⟨bit, i⟩ -
    simp
  rw [Signers.size, toList_toSigners, toList, List.length_filterMap_eq_countP, size, hbits]
  apply List.countP_congr
  rintro ⟨bit, i⟩ -
  cases bit with
  | false => simp
  | true => simp

/-- The bound is the least number that is greater than all members. -/
theorem bound_le_iff (r : BitRow) (n : Nat) :
  r.bound ≤ n ↔ ∀ i, r.contains i = true → i < n
  := by
  rw [bound]
  split
  · next last hlast =>
    constructor
    · intro h i hi
      -- the last member is the greatest one
      have hle : i ≤ last := by
        obtain ⟨l, hl⟩ := List.getLast?_eq_some_iff.mp hlast
        have hmem := (r.mem_toList i).mpr hi
        have hpairwise := r.pairwise_toList
        rw [hl, List.pairwise_append] at hpairwise
        rw [hl, List.mem_append, List.mem_singleton] at hmem
        obtain hmem | rfl := hmem
        · exact Nat.le_of_lt (hpairwise.2.2 i hmem last (List.mem_singleton_self last))
        · exact Nat.le_refl i
      omega
    · intro h
      apply h last
      rw [← mem_toList]
      apply List.mem_of_getLast? hlast
  · next hnone =>
    have hempty := List.getLast?_eq_none_iff.mp hnone
    constructor
    · intro _ i hi
      rw [← mem_toList, hempty] at hi
      cases hi
    · intro _
      apply Nat.zero_le

theorem lt_bound {r : BitRow} {i : Nat} (h : r.contains i = true) :
  i < r.bound
  := (r.bound_le_iff _).mp (Nat.le_refl _) i h

theorem bound_toSigners (r : BitRow) :
  r.toSigners.bound = r.bound
  := by
  apply eq_of_forall_ge_iff
  intro n
  rw [Signers.bound_le_iff, bound_le_iff]
  simp only [contains_toSigners]

theorem isEmpty_iff (r : BitRow) :
  r.isEmpty = true ↔ ∀ i, r.contains i = false
  := by
  simp only [isEmpty, contains, Bool.not_eq_true', List.any_eq_false, id]
  constructor
  · intro h i
    cases hi : r.bits[i]? with
    | none => rfl
    | some bit => exact Bool.eq_false_of_not_eq_true (h bit (List.mem_of_getElem? hi))
  · intro h bit hmem
    obtain ⟨i, hi⟩ := List.mem_iff_getElem?.mp hmem
    have hbit := h i
    rw [hi, Option.getD_some] at hbit
    rw [hbit]
    decide

/-! ### Byte forms -/

/-- Setting a bit of a byte. -/
theorem testBit_setBit_byte (x : UInt8) (i j : Nat) :
  (x ||| 1 <<< UInt8.ofNat (i % 8)).toNat.testBit j = (decide (i % 8 = j) || x.toNat.testBit j)
  := by
  have hbit : (1 <<< UInt8.ofNat (i % 8) : UInt8).toNat = 2 ^ (i % 8) := by
    have hlt : i % 8 < 8 := Nat.mod_lt i (by decide)
    interval_cases i % 8 <;> rfl
  rw [UInt8.toNat_or, Nat.testBit_or, hbit, Nat.testBit_two_pow, Bool.or_comm]

/-- Setting a bit sets this bit of the number that the bytes denote. -/
theorem testBit_setBit {b : Array UInt8} {i : Nat} (hi : i < 8 * b.size) (j : Nat) :
  (Bytes.toNat (setBit b i).toList).testBit j
    = (decide (j = i) || (Bytes.toNat b.toList).testBit j)
  := by
  rw [Bytes.testBit_toNat, Bytes.testBit_toNat, setBit, Array.toList_modify]
  by_cases hj : j / 8 < b.size
  · rw [List.getElem?_reverse (by simpa using hj), List.getElem?_reverse (by simpa using hj),
      List.length_modify, Array.length_toList, List.getElem?_modify,
      List.getElem?_eq_getElem (by rw [Array.length_toList]; omega)]
    by_cases hij : i / 8 = j / 8
    · have hiff : i % 8 = j % 8 ↔ j = i := by omega
      simp only [hij, if_true, Option.map_eq_map, Option.map_some, Option.getD_some,
        testBit_setBit_byte, hiff]
    · have hbyte : ¬ b.size - 1 - i / 8 = b.size - 1 - j / 8 := by omega
      have hne : j ≠ i := by
        rintro rfl
        exact hij rfl
      simp [hbyte, hne]
  · have hne : j ≠ i := by omega
    rw [List.getElem?_eq_none (by simpa using hj), List.getElem?_eq_none (by simpa using hj)]
    simp [hne]

theorem size_setBit (b : Array UInt8) (i : Nat) :
  (setBit b i).size = b.size
  := Array.size_modify

/-- Setting the bits of a list one after another. -/
theorem foldl_setBit (l : List Nat) {b : Array UInt8} (h : ∀ i ∈ l, i < 8 * b.size) :
  (l.foldl setBit b).size = b.size ∧
  ∀ j, (Bytes.toNat (l.foldl setBit b).toList).testBit j
    = (decide (j ∈ l) || (Bytes.toNat b.toList).testBit j)
  := by
  induction l generalizing b with
  | nil => simp
  | cons i l ih =>
      obtain ⟨hi, hl⟩ := List.forall_mem_cons.mp h
      rw [← size_setBit b i] at hl
      obtain ⟨hsize, hbits⟩ := ih hl
      rw [List.foldl_cons]
      use hsize.trans (size_setBit b i)
      intro j
      rw [hbits, testBit_setBit hi]
      by_cases hij : j = i
      · simp [hij]
      · simp [hij]

theorem bytes_toSigners (r : BitRow) :
  r.toSigners.bytes = r.bytes
  := by
  have hmembers : ∀ i ∈ r.toList,
      i < 8 * (Array.replicate ((r.bound + 7) / 8) (0 : UInt8)).size := by
    intro i hi
    have hlt := lt_bound ((r.mem_toList i).mp hi)
    rw [Array.size_replicate]
    omega
  obtain ⟨hsize, hbits⟩ := foldl_setBit r.toList hmembers
  apply Bytes.eq_of_toNat_eq
  · rw [Signers.bytes_eq, bound_toSigners, Bytes.length_ofNat, bytes, Array.length_toList, hsize,
      Array.size_replicate]
  · apply Nat.eq_of_testBit_eq
    intro i
    rw [Signers.toNat_bytes, ← Signers.contains, contains_toSigners, bytes, hbits,
      Array.toList_replicate, Bytes.toNat_replicate_zero, Nat.zero_testBit, Bool.or_false,
      Bool.eq_iff_iff, decide_eq_true_iff, mem_toList]

/-- The bits of bytes one after another. -/
theorem getElem?_flatMap_bitsOf (b : Bytes) (i : Nat) :
  (b.flatMap bitsOf)[i]? = b[i / 8]?.map fun x => x.toNat.testBit (i % 8)
  := by
  induction b generalizing i with
  | nil => simp
  | cons x b ih =>
      have hlength : (bitsOf x).length = 8 := by simp [bitsOf]
      rw [List.flatMap_cons, List.getElem?_append, hlength]
      by_cases hi : i < 8
      · rw [if_pos hi, Nat.div_eq_of_lt hi, Nat.mod_eq_of_lt hi, bitsOf, List.getElem?_map,
          List.getElem?_range hi]
        rfl
      · obtain ⟨k, rfl⟩ := Nat.exists_eq_add_of_le (Nat.le_of_not_lt hi)
        rw [if_neg hi, Nat.add_sub_cancel_left, ih, Nat.add_mod_left, Nat.add_comm 8 k,
          Nat.add_div_right k (by decide), List.getElem?_cons_succ]

/-- What is cut off behind the last bit that is set does not matter. -/
theorem contains_take (r : BitRow) {n : Nat} (h : r.bound ≤ n) (i : Nat) :
  contains ⟨r.bits.take n⟩ i = r.contains i
  := by
  rw [contains, List.getElem?_take]
  split
  · rfl
  · next hi =>
    have hfalse : ¬ r.contains i = true := by
      intro htrue
      exact hi ((r.bound_le_iff n).mp h i htrue)
    exact (Bool.eq_false_of_not_eq_true hfalse).symm

/-- A row is read from a byte form as its set is. -/
theorem ofBytes_eq (b : Bytes) :
  toSigners <$> ofBytes b = Signers.ofBytes b
  := by
  rw [ofBytes, Signers.ofBytes]
  split
  · rfl
  · rw [Except.map_ok, Bytes.toNatByHalves_eq]
    congr 1
    apply toSigners_eq
    intro i
    dsimp only
    rw [contains_take _ (Nat.le_refl _), contains, getElem?_flatMap_bitsOf, Signers.contains,
      Bytes.testBit_toNat]

/-! ### Tight rows -/

/-- The row ends with its last bit that is set. -/
def IsTight (r : BitRow) : Prop := r.bits.length = r.bound

/-- No bit that is set is beyond the end. -/
theorem bound_le_length (r : BitRow) :
  r.bound ≤ r.bits.length
  := by
  rw [bound_le_iff]
  intro i hi
  by_contra hle
  rw [contains, List.getElem?_eq_none (Nat.le_of_not_lt hle)] at hi
  cases hi

theorem isTight_empty :
  IsTight empty
  := rfl

theorem IsTight.insert {r : BitRow} (h : r.IsTight) (i : Nat) :
  (r.insert i).IsTight
  := by
  apply Nat.le_antisymm _ (bound_le_length _)
  -- the last bit was set before, or it is the one that is set now
  have hi : i < (r.insert i).bound := by
    apply lt_bound
    simp [contains_insert]
  have hbound : r.bound ≤ (r.insert i).bound := by
    rw [bound_le_iff]
    intro j hj
    apply lt_bound
    simp [contains_insert, hj]
  have hlength : (r.insert i).bits.length = r.bits.length + (i + 1 - r.bits.length) := by
    rw [BitRow.insert, List.length_set, List.length_append, List.length_replicate]
  rw [hlength, h]
  omega

theorem isTight_ofList (l : List Nat) :
  (ofList l).IsTight
  := by
  induction l using List.reverseRecOn with
  | nil => apply isTight_empty
  | append_singleton l i ih =>
      rw [ofList, List.foldl_append]
      exact ih.insert i

theorem isTight_of_ofBytes {b : Bytes} {r : BitRow} (h : ofBytes b = .ok r) :
  r.IsTight
  := by
  rw [ofBytes] at h
  split at h
  · cases h
  · cases h
    have hbound : bound ⟨List.take (bound ⟨b.reverse.flatMap bitsOf⟩)
        (b.reverse.flatMap bitsOf)⟩ = bound ⟨b.reverse.flatMap bitsOf⟩ := by
      apply eq_of_forall_ge_iff
      intro n
      rw [bound_le_iff, bound_le_iff]
      simp only [contains_take ⟨b.reverse.flatMap bitsOf⟩ (Nat.le_refl _)]
    rw [IsTight, hbound, List.length_take]
    apply Nat.min_eq_left (bound_le_length _)

/-- Tight rows that stand for the same set are the same. -/
theorem eq_of_toSigners_eq {r r' : BitRow} (hr : r.IsTight) (hr' : r'.IsTight)
    (h : r.toSigners = r'.toSigners) :
  r = r'
  := by
  have hlength : r.bits.length = r'.bits.length := by
    rw [hr, hr', ← bound_toSigners, ← bound_toSigners, h]
  have hbits : r.bits = r'.bits := by
    apply List.ext_getElem hlength
    intro i hi hi'
    have hcontains : r.contains i = r'.contains i := by
      rw [← contains_toSigners, ← contains_toSigners, h]
    rw [contains, contains, List.getElem?_eq_getElem hi, List.getElem?_eq_getElem hi'] at hcontains
    exact hcontains
  cases r
  cases r'
  congr

end BitRow

end Interchain
