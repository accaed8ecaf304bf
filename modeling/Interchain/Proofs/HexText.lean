import Interchain.Proofs.Checks
import Interchain.Text.Hex
import Mathlib

/-!
# What hexadecimal text spells

`Hex.Spells` says which texts spell a byte string, two digits of either case for each byte, and
`Hex.Faults` what is wrong with a text that spells nothing.  Every text does one of the two, and
decoding tells which: `Hex.decode_eq_ok_iff` and `Hex.decode_eq_error_iff`.  What is written spells
what it was written from, as `Hex.spells_digits` and `Hex.ofText_encode` say.
-/

namespace Interchain

/-! ### The bytes of a text -/

namespace Bytes

/-- The bytes that were read are held in reverse until there are no others. -/
private theorem toList_loop (b : ByteArray) {read rest : Bytes}
    (h : b.data.toList = read ++ rest) :
  ByteArray.toList.loop b read.length read.reverse = b.data.toList
  := by
  have hsize : b.size = read.length + rest.length := by
    rw [← List.length_append, ← h]
    rfl
  induction rest generalizing read with
  | nil =>
      rw [ByteArray.toList.loop, if_neg (by rw [hsize]; exact Nat.lt_irrefl _),
        List.reverse_reverse, h, List.append_nil]
  | cons x rest ih =>
      have hget : b.get! read.length = x := by
        simp [ByteArray.get!, ← Array.getElem?_toList, h, getElem!_def]
      have hread : (read ++ [x]).length = read.length + 1 := List.length_append
      rw [ByteArray.toList.loop, if_pos (by rw [hsize, List.length_cons]; omega), hget, ← hread,
        ← List.reverse_concat]
      apply ih
      · rw [h, List.append_assoc, List.singleton_append]
      · rw [hsize, hread, List.length_cons]
        omega

/-- The bytes of a text are those of its characters. -/
theorem ofText_eq (s : String) :
  ofText s = s.toList.flatMap String.utf8EncodeChar
  := by
  rw [ofText, String.toUTF8_eq_toByteArray, ← String.utf8Encode_toList, List.utf8Encode,
    ByteArray.toList]
  apply (toList_loop _ (List.nil_append _).symm).trans
  rw [List.toList_data_toByteArray]

theorem ofText_append (s t : String) :
  ofText (s ++ t) = ofText s ++ ofText t
  := by simp only [ofText_eq, String.toList_append, List.flatMap_append]

/-- A character below `U+0080` is one byte. -/
theorem utf8EncodeChar_of_lt {c : Char} (h : c.toNat < 128) :
  String.utf8EncodeChar c = [UInt8.ofNat c.toNat]
  := if_pos (Nat.le_of_lt_succ h)

end Bytes

namespace Hex

/-! ### Digits -/

/-- A byte is the code of the digit for a value, a letter being in lower or in upper case. -/
def IsDigit (c : UInt8) (v : Nat) : Prop :=
  (v < 10 ∧ c.toNat = '0'.toNat + v) ∨
  (10 ≤ v ∧ v < 16 ∧ (c.toNat = 'a'.toNat + (v - 10) ∨ c.toNat = 'A'.toNat + (v - 10)))

theorem isDigit_iff (c : UInt8) (v : Nat) :
  IsDigit c v
    ↔ (v < 10 ∧ c.toNat = 48 + v) ∨
        (10 ≤ v ∧ v < 16 ∧ (c.toNat = 97 + (v - 10) ∨ c.toNat = 65 + (v - 10)))
  := Iff.rfl

private theorem sub_eq_iff {c k v : UInt8} (h : k ≤ c) :
  some (c - k) = some v ↔ c.toNat = k.toNat + v.toNat
  := by
  have hle := UInt8.le_iff_toNat_le.mp h
  rw [Option.some.injEq, ← UInt8.toNat_inj, UInt8.toNat_sub_of_le c k h]
  omega

/-- A digit has the value that it is for. -/
theorem digitValue?_eq_some_iff (c v : UInt8) :
  digitValue? c = some v ↔ IsDigit c v.toNat
  := by
  have hcode (n : UInt8) : n ≤ c ↔ n.toNat ≤ c.toNat := UInt8.le_iff_toNat_le
  have hcode' (n : UInt8) : c ≤ n ↔ c.toNat ≤ n.toNat := UInt8.le_iff_toNat_le
  rw [digitValue?, isDigit_iff]
  simp only [Bool.and_eq_true, decide_eq_true_eq, hcode, hcode', UInt8.reduceToNat]
  split
  · next h =>
    rw [sub_eq_iff ((hcode 48).mpr h.1)]
    simp only [UInt8.reduceToNat]
    omega
  · split
    · next h =>
      rw [sub_eq_iff ((hcode 87).mpr (by simp only [UInt8.reduceToNat]; omega))]
      simp only [UInt8.reduceToNat]
      omega
    · split
      · next h =>
        rw [sub_eq_iff ((hcode 55).mpr (by simp only [UInt8.reduceToNat]; omega))]
        simp only [UInt8.reduceToNat]
        omega
      · simp only [reduceCtorEq, false_iff]
        omega

theorem IsDigit.lt {c : UInt8} {v : Nat} (h : IsDigit c v) :
  v < 16
  := by
  obtain ⟨hv, -⟩ | ⟨-, hv, -⟩ := h
  · omega
  · exact hv

/-- Digits are characters below `U+0080`. -/
theorem IsDigit.toNat_lt {c : UInt8} {v : Nat} (h : IsDigit c v) :
  c.toNat < 128
  := by
  rw [isDigit_iff] at h
  omega

theorem IsDigit.digitValue?_eq {c : UInt8} {v : Nat} (h : IsDigit c v) :
  digitValue? c = some (UInt8.ofNat v)
  := by
  have hv : v < 256 := Nat.lt_trans h.lt (by decide)
  rw [digitValue?_eq_some_iff, UInt8.toNat_ofNat_of_lt' hv]
  exact h

theorem digitValue?_eq_none_iff (c : UInt8) :
  digitValue? c = none ↔ ∀ v, ¬ IsDigit c v
  := by
  constructor
  · intro h v hv
    rw [hv.digitValue?_eq] at h
    cases h
  · intro h
    cases hv : digitValue? c with
    | none => rfl
    | some v => exact absurd ((digitValue?_eq_some_iff c v).mp hv) (h v.toNat)

/-- Letters are written in lower case. -/
theorem toNat_digit {n : UInt8} (h : n.toNat < 16) :
  (digit n).toNat = if n.toNat < 10 then 48 + n.toNat else 97 + (n.toNat - 10)
  := by
  have hlt : n < 10 ↔ n.toNat < 10 := UInt8.lt_iff_toNat_lt
  simp only [digit, hlt]
  split
  · simp only [UInt8.toNat_add, UInt8.reduceToNat]
    omega
  · simp only [UInt8.toNat_add, UInt8.reduceToNat]
    omega

/-- The digit that is written for a value is a digit for it. -/
theorem isDigit_digit {n : UInt8} (h : n.toNat < 16) :
  IsDigit (digit n) n.toNat
  := by
  rw [isDigit_iff, toNat_digit h]
  split
  · omega
  · omega

theorem toNat_high_lt (x : UInt8) :
  (x / 16).toNat < 16
  := by
  have hx : x.toNat < 256 := x.toNat_lt
  have hhigh : (x / 16).toNat = x.toNat / 16 := UInt8.toNat_div x 16
  omega

theorem toNat_low_lt (x : UInt8) :
  (x % 16).toNat < 16
  := by
  have hlow : (x % 16).toNat = x.toNat % 16 := UInt8.toNat_mod x 16
  omega

theorem exists_digit_of_mem_digits {b : Bytes} {c : UInt8} (h : c ∈ digits b) :
  ∃ n : UInt8, n.toNat < 16 ∧ c = digit n
  := by
  simp only [digits, List.mem_flatMap, List.mem_cons, List.not_mem_nil, or_false] at h
  obtain ⟨x, -, rfl | rfl⟩ := h
  · exact ⟨x / 16, toNat_high_lt x, rfl⟩
  · exact ⟨x % 16, toNat_low_lt x, rfl⟩

/-! ### Spelling -/

/-- A text spells a byte string: there are two digits for each byte, that of the higher half
first. -/
inductive Spells : Bytes → Bytes → Prop where
  | nil : Spells [] []
  | cons {high low x : UInt8} {text b : Bytes} (hhigh : IsDigit high (x.toNat / 16))
      (hlow : IsDigit low (x.toNat % 16)) (h : Spells text b) :
    Spells (high :: low :: text) (x :: b)

/-- What is wrong with a text: it does not consist of pairs, or else its first byte that is no
digit is. -/
inductive Faults (text : Bytes) : Malformed → Prop where
  | oddLength (h : text.length % 2 = 1) : Faults text .oddLength
  | notADigit {i : Nat} {c : UInt8} (heven : text.length % 2 = 0) (hc : text[i]? = some c)
      (h : ∀ v, ¬ IsDigit c v) (hfirst : ∀ d ∈ text.take i, ∃ v, IsDigit d v) :
    Faults text (.notADigit c i)

theorem Spells.length_eq {text b : Bytes} (h : Spells text b) :
  text.length = 2 * b.length
  := by
  induction h with
  | nil => rfl
  | cons hhigh hlow h ih =>
      simp only [List.length_cons, ih]
      omega

theorem Spells.exists_isDigit {text b : Bytes} (h : Spells text b) :
  ∀ c ∈ text, ∃ v, IsDigit c v
  := by
  induction h with
  | nil => simp
  | cons hhigh hlow h ih =>
      rw [List.forall_mem_cons, List.forall_mem_cons]
      exact ⟨⟨_, hhigh⟩, ⟨_, hlow⟩, ih⟩

/-! ### Decoding -/

theorem digitAt_of_isDigit {c : UInt8} {v : Nat} (h : IsDigit c v) (position : Nat) :
  digitAt position c = .ok (UInt8.ofNat v)
  := by rw [digitAt, h.digitValue?_eq]

theorem digitAt_of_not_isDigit {c : UInt8} (h : ∀ v, ¬ IsDigit c v) (position : Nat) :
  digitAt position c = .error (.notADigit c position)
  := by rw [digitAt, (digitValue?_eq_none_iff c).mpr h]

/-- A byte is made of its halves. -/
theorem ofNat_halves (x : UInt8) :
  UInt8.ofNat (x.toNat / 16) * 16 + UInt8.ofNat (x.toNat % 16) = x
  := by
  have hx : x.toNat < 256 := x.toNat_lt
  apply UInt8.toNat_inj.mp
  simp only [UInt8.toNat_add, UInt8.toNat_mul, UInt8.toNat_ofNat', UInt8.reduceToNat]
  omega

/-- What a text spells is decoded. -/
theorem decodePairs_of_spells {text b : Bytes} (h : Spells text b) (position : Nat) :
  decodePairs position text = .ok b
  := by
  induction h generalizing position with
  | nil => rfl
  | @cons high low x text b hhigh hlow h ih =>
      rw [decodePairs, digitAt_of_isDigit hhigh, digitAt_of_isDigit hlow, ih]
      simp only [Bind.bind, Except.bind, Pure.pure, Except.pure, ofNat_halves]

/-- The first byte that is no digit is told with its position. -/
theorem decodePairs_of_not_isDigit {text : Bytes} {i : Nat} {c : UInt8}
    (heven : text.length % 2 = 0) (hc : text[i]? = some c) (h : ∀ v, ¬ IsDigit c v)
    (hfirst : ∀ d ∈ text.take i, ∃ v, IsDigit d v) (position : Nat) :
  decodePairs position text = .error (.notADigit c (position + i))
  := by
  induction text using List.twoStepInduction generalizing i position with
  | nil => cases hc
  | singleton _ => cases heven
  | cons_cons high low text ih _ =>
      match i with
      | 0 =>
          cases hc
          rw [decodePairs, digitAt_of_not_isDigit h]
          rfl
      | 1 =>
          cases hc
          obtain ⟨v, hv⟩ := hfirst high (by simp)
          rw [decodePairs, digitAt_of_isDigit hv, digitAt_of_not_isDigit h]
          rfl
      | i + 2 =>
          rw [List.take_succ_cons, List.take_succ_cons, List.forall_mem_cons,
            List.forall_mem_cons] at hfirst
          obtain ⟨⟨v, hv⟩, ⟨w, hw⟩, hfirst⟩ := hfirst
          rw [List.length_cons, List.length_cons] at heven
          rw [decodePairs, digitAt_of_isDigit hv, digitAt_of_isDigit hw,
            ih (by omega) hc hfirst, Nat.add_assoc, Nat.add_comm 2 i]
          rfl

/-- Pairs of digits spell something. -/
theorem exists_spells {text : Bytes} (heven : text.length % 2 = 0)
    (h : ∀ c ∈ text, ∃ v, IsDigit c v) :
  ∃ b, Spells text b
  := by
  induction text using List.twoStepInduction with
  | nil => exact ⟨[], .nil⟩
  | singleton _ => cases heven
  | cons_cons high low text ih _ =>
      rw [List.forall_mem_cons, List.forall_mem_cons] at h
      obtain ⟨⟨v, hv⟩, ⟨w, hw⟩, h⟩ := h
      rw [List.length_cons, List.length_cons] at heven
      obtain ⟨b, hb⟩ := ih (by omega) h
      have hvalue : (UInt8.ofNat (v * 16 + w)).toNat = v * 16 + w := by
        have hv := hv.lt
        have hw := hw.lt
        have hlt : v * 16 + w < 256 := by omega
        exact UInt8.toNat_ofNat_of_lt' hlt
      use UInt8.ofNat (v * 16 + w) :: b
      have hlt := hw.lt
      apply Spells.cons _ _ hb
      · rwa [hvalue, Nat.mul_comm, Nat.mul_add_div (by decide), Nat.div_eq_of_lt hlt]
      · rwa [hvalue, Nat.mul_comm, Nat.mul_add_mod, Nat.mod_eq_of_lt hlt]

/-- Where not all bytes are digits there is a first one that is none. -/
theorem exists_first_not_isDigit {text : Bytes} (h : ¬ ∀ c ∈ text, ∃ v, IsDigit c v) :
  ∃ i c, text[i]? = some c ∧ (∀ v, ¬ IsDigit c v) ∧ ∀ d ∈ text.take i, ∃ v, IsDigit d v
  := by
  induction text with
  | nil => simp at h
  | cons c text ih =>
      by_cases hc : ∃ v, IsDigit c v
      · rw [List.forall_mem_cons, not_and] at h
        obtain ⟨i, d, hd, hstray, hfirst⟩ := ih (h hc)
        refine ⟨i + 1, d, hd, hstray, ?_⟩
        rw [List.take_succ_cons, List.forall_mem_cons]
        exact ⟨hc, hfirst⟩
      · exact ⟨0, c, rfl, not_exists.mp hc, by simp⟩

/-- A text spells something, or else there is something wrong with it. -/
theorem spells_or_faults (text : Bytes) :
  (∃ b, Spells text b) ∨ ∃ e, Faults text e
  := by
  obtain heven | hodd := Nat.mod_two_eq_zero_or_one text.length
  · by_cases h : ∀ c ∈ text, ∃ v, IsDigit c v
    · exact .inl (exists_spells heven h)
    · obtain ⟨i, c, hc, hstray, hfirst⟩ := exists_first_not_isDigit h
      exact .inr ⟨_, .notADigit heven hc hstray hfirst⟩
  · exact .inr ⟨_, .oddLength hodd⟩

theorem decode_of_spells {text b : Bytes} (h : Spells text b) :
  decode text = .ok b
  := by
  rw [decode, if_neg (by rw [h.length_eq]; omega), decodePairs_of_spells h]

theorem decode_of_faults {text : Bytes} {e : Malformed} (h : Faults text e) :
  decode text = .error e
  := by
  cases h with
  | oddLength hodd => rw [decode, if_pos hodd]
  | notADigit heven hc h hfirst =>
      rw [decode, if_neg (by omega), decodePairs_of_not_isDigit heven hc h hfirst, Nat.zero_add]

/-- A text is decoded to what it spells. -/
theorem decode_eq_ok_iff (text b : Bytes) :
  decode text = .ok b ↔ Spells text b
  := by
  constructor
  · intro h
    obtain ⟨b', hb⟩ | ⟨e, he⟩ := spells_or_faults text
    · rw [decode_of_spells hb] at h
      cases h
      exact hb
    · rw [decode_of_faults he] at h
      cases h
  · exact decode_of_spells

/-- A text is refused because of what is wrong with it. -/
theorem decode_eq_error_iff (text : Bytes) (e : Malformed) :
  decode text = .error e ↔ Faults text e
  := by
  constructor
  · intro h
    obtain ⟨b, hb⟩ | ⟨e', he⟩ := spells_or_faults text
    · rw [decode_of_spells hb] at h
      cases h
    · rw [decode_of_faults he] at h
      cases h
      exact he
  · exact decode_of_faults

/-- There is something wrong with a text if its length is odd or not all of its bytes are digits. -/
theorem exists_faults_iff (text : Bytes) :
  (∃ e, Faults text e) ↔ text.length % 2 = 1 ∨ ∃ c ∈ text, ∀ v, ¬ IsDigit c v
  := by
  constructor
  · rintro ⟨e, ⟨hodd⟩ | ⟨heven, hc, h, hfirst⟩⟩
    · exact .inl hodd
    · exact .inr ⟨_, List.mem_of_getElem? hc, h⟩
  · intro h
    apply (spells_or_faults text).resolve_left
    rintro ⟨b, hb⟩
    obtain hodd | ⟨c, hc, hstray⟩ := h
    · have hlength := hb.length_eq
      omega
    · obtain ⟨v, hv⟩ := hb.exists_isDigit c hc
      exact hstray v hv

/-! ### Writing -/

/-- The digits of a byte string spell it. -/
theorem spells_digits (b : Bytes) :
  Spells (digits b) b
  := by
  induction b with
  | nil => exact .nil
  | cons x b ih =>
      rw [digits, List.flatMap_cons]
      exact .cons (isDigit_digit (toNat_high_lt x)) (isDigit_digit (toNat_low_lt x)) ih

/-- Digits are written as the bytes that they are. -/
theorem ofText_encode (b : Bytes) :
  Bytes.ofText (encode b) = digits b
  := by
  have hcode : ∀ c ∈ digits b, String.utf8EncodeChar (Char.ofNat c.toNat) = [c] := by
    intro c hc
    obtain ⟨v, hv⟩ := (spells_digits b).exists_isDigit c hc
    have hlt := hv.toNat_lt
    have hchar : (Char.ofNat c.toNat).toNat = c.toNat := by
      rw [Char.toNat_ofNat, if_pos (.inl (by omega))]
    rw [Bytes.utf8EncodeChar_of_lt (by rwa [hchar]), hchar, UInt8.ofNat_toNat]
  rw [encode, Bytes.ofText_eq, String.toList_ofList, List.flatMap_map, List.flatMap_congr hcode,
    List.flatMap_singleton']

end Hex

end Interchain
