import Interchain.Bytes
import Mathlib

/-!
# Numbers and byte strings

`Bytes.ofNat` and `Bytes.toNat` undo each other, as `Bytes.toNat_ofNat` and
`Bytes.ofNat_toNat` say, and finding them by halves changes nothing.
-/

namespace Interchain.Bytes

private theorem foldl_toNat (b : Bytes) (acc : Nat) :
  b.foldl (fun acc x => acc * 256 + x.toNat) acc = acc * 256 ^ b.length + toNat b
  := by
  induction b generalizing acc with
  | nil => simp [toNat]
  | cons x b ih =>
    simp only [toNat, List.foldl_cons, List.length_cons]
    rw [ih, ih (0 * 256 + x.toNat)]
    simp only [Nat.pow_succ, Nat.zero_mul, Nat.zero_add, Nat.add_mul]
    rw [Nat.mul_assoc acc 256, Nat.mul_comm 256 (256 ^ b.length)]
    omega

theorem toNat_append (a b : Bytes) :
  toNat (a ++ b) = toNat a * 256 ^ b.length + toNat b
  := by
  rw [toNat, List.foldl_append, foldl_toNat]
  rfl

theorem toNat_cons (x : UInt8) (b : Bytes) :
  toNat (x :: b) = x.toNat * 256 ^ b.length + toNat b
  := by
  rw [← List.singleton_append, toNat_append]
  simp [toNat]

theorem toNat_ofNat (width n : Nat) :
  toNat (ofNat width n) = n % 256 ^ width
  := by
  induction width generalizing n with
  | zero => simp [ofNat, toNat, Nat.mod_one]
  | succ width ih =>
    rw [ofNat, toNat_append, ih]
    simp only [toNat, List.foldl_cons, List.foldl_nil, List.length_singleton, Nat.zero_mul,
      Nat.zero_add, Nat.pow_one, UInt8.toNat_ofNat']
    have h : n % 256 ^ (width + 1) = n % 256 + 256 * (n / 256 % 256 ^ width) := by
      rw [Nat.pow_succ, Nat.mul_comm (256 ^ width) 256, Nat.mod_mul]
    omega

theorem toNat_lt (b : Bytes) :
  toNat b < 256 ^ b.length
  := by
  induction b with
  | nil => simp [toNat]
  | cons x b ih =>
    rw [toNat_cons, List.length_cons, Nat.pow_succ]
    have hx : x.toNat + 1 ≤ 256 := x.toNat_lt
    have := Nat.mul_le_mul_right (256 ^ b.length) hx
    rw [Nat.add_mul, Nat.mul_comm 256] at this
    omega

theorem ofNat_toNat (b : Bytes) :
  ofNat b.length (toNat b) = b
  := by
  induction h : b.length generalizing b with
  | zero => rw [List.length_eq_zero_iff.1 h]; rfl
  | succ width ih =>
    have hb : b ≠ [] := by
      rintro rfl
      simp at h
    have hd : b.dropLast.length = width := by simp [h]
    conv => lhs; rw [← List.dropLast_concat_getLast hb]
    conv => rhs; rw [← List.dropLast_concat_getLast hb]
    rw [ofNat, toNat_append]
    have hx : (b.getLast hb).toNat < 256 := (b.getLast hb).toNat_lt
    simp only [toNat, List.foldl_cons, List.foldl_nil, List.length_singleton, Nat.zero_mul,
      Nat.zero_add, Nat.pow_one]
    rw [show (List.foldl (fun acc (x : UInt8) => acc * 256 + x.toNat) 0 b.dropLast * 256
      + (b.getLast hb).toNat) / 256 = toNat b.dropLast by rw [toNat]; omega, ih _ hd]
    congr 2
    apply UInt8.toNat_inj.1
    rw [UInt8.toNat_ofNat']
    omega

/-- A number of 64 bits is determined by its bytes. -/
theorem ofUInt64_injective :
  Function.Injective ofUInt64
  := by
  intro x y h
  have hnat (z : UInt64) : toNat (ofUInt64 z) = z.toNat := by
    rw [ofUInt64, toNat_ofNat]
    exact Nat.mod_eq_of_lt z.toNat_lt
  apply UInt64.toNat_inj.mp
  rw [← hnat x, ← hnat y, h]

theorem ofNat_add (high low n : Nat) :
  ofNat (high + low) n = ofNat high (n / 256 ^ low) ++ ofNat low n
  := by
  induction low generalizing n with
  | zero => simp [ofNat]
  | succ low ih =>
    rw [← Nat.add_assoc, ofNat, ih, ofNat, List.append_assoc, Nat.div_div_eq_div_mul,
      Nat.pow_succ, Nat.mul_comm 256]

theorem ofNat_mod (width n : Nat) :
  ofNat width (n % 256 ^ width) = ofNat width n
  := by
  rw [← toNat_ofNat]
  conv => lhs; rw [← length_ofNat width n]
  simpa using ofNat_toNat (ofNat width n)

theorem toNatByHalves_eq (cuts : Nat) (b : Bytes) :
  toNatByHalves cuts b = toNat b
  := by
  induction cuts generalizing b with
  | zero => rfl
  | succ cuts ih =>
    have hlow : (b.drop (b.length - b.length / 2)).length = b.length / 2 := by
      rw [List.length_drop]
      omega
    simp only [toNatByHalves]
    rw [ih, ih, Nat.shiftLeft_eq, Nat.pow_mul 2 8]
    conv => rhs; rw [← List.take_append_drop (b.length - b.length / 2) b, toNat_append, hlow]

theorem ofNatByHalves_eq (cuts width n : Nat) :
  ofNatByHalves cuts width n = ofNat width n
  := by
  induction cuts generalizing width n with
  | zero => rfl
  | succ cuts ih =>
    simp only [ofNatByHalves]
    rw [ih, ih, Nat.shiftRight_eq_div_pow, Nat.one_shiftLeft, Nat.pow_mul 2 8,
      show 2 ^ 8 = 256 from rfl, ofNat_mod, ← ofNat_add,
      Nat.sub_add_cancel (Nat.div_le_self width 2)]

end Interchain.Bytes
