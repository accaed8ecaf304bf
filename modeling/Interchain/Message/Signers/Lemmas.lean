import Interchain.Bytes.Lemmas
import Interchain.Message.Signers

/-!
# The members of a set of signers

`Signers.mem_toList` and `Signers.pairwise_toList` say that `Signers.toList` holds the
members and nothing else, in ascending order.
-/

namespace Interchain.Signers

theorem mem_places (cuts start mask i : Nat) :
  i ∈ places cuts start mask ↔
    start ≤ i ∧ i < start + 2 ^ cuts ∧ mask.testBit (i - start) = true
  := by
  induction cuts generalizing start mask with
  | zero =>
    rw [places]
    split
    case isTrue h =>
      simp only [List.mem_singleton, Nat.pow_zero]
      constructor
      · rintro rfl
        simp [h]
      · rintro ⟨_, _, _⟩
        omega
    case isFalse h =>
      simp only [List.not_mem_nil, Nat.pow_zero, false_iff]
      rintro ⟨_, _, hi⟩
      rw [show i - start = 0 by omega] at hi
      exact h hi
  | succ cuts ih =>
    simp only [places, Nat.one_shiftLeft]
    split
    case isTrue h => simp [h]
    case isFalse =>
      rw [List.mem_append, ih, ih, Nat.testBit_mod_two_pow, Nat.testBit_shiftRight, Nat.pow_succ]
      by_cases hi : i < start + 2 ^ cuts
      · have : ¬ start + 2 ^ cuts ≤ i := by omega
        simp only [this, false_and, or_false, Bool.and_eq_true, decide_eq_true_eq]
        constructor
        · rintro ⟨h, _, _, ht⟩
          exact ⟨h, by omega, ht⟩
        · rintro ⟨h, _, ht⟩
          exact ⟨h, hi, by omega, ht⟩
      · simp only [hi, false_and, and_false, false_or]
        constructor
        · rintro ⟨h, h', ht⟩
          rw [show 2 ^ cuts + (i - (start + 2 ^ cuts)) = i - start by omega] at ht
          exact ⟨by omega, by omega, ht⟩
        · rintro ⟨h, h', ht⟩
          rw [show i - start = 2 ^ cuts + (i - (start + 2 ^ cuts)) by omega] at ht
          exact ⟨by omega, by omega, ht⟩

theorem pairwise_places (cuts start mask : Nat) :
  (places cuts start mask).Pairwise (· < ·)
  := by
  induction cuts generalizing start mask with
  | zero =>
    rw [places]
    split <;> simp
  | succ cuts ih =>
    rw [places]
    split
    · exact .nil
    · refine List.pairwise_append.2 ⟨ih _ _, ih _ _, fun i hi j hj => ?_⟩
      have := ((mem_places _ _ _ _).1 hi).2.1
      have := ((mem_places _ _ _ _).1 hj).1
      omega

theorem lt_bound (s : Signers) (i : Nat) (h : s.contains i = true) :
  i < s.bound
  := by
  rw [contains] at h
  rw [bound]
  split
  case isTrue hz => simp [hz] at h
  case isFalse hz =>
    have := (Nat.le_log2 hz).2 (Nat.ge_two_pow_of_testBit h)
    omega

@[simp]
theorem mem_toList (s : Signers) (i : Nat) :
  i ∈ s.toList ↔ s.contains i = true
  := by
  rw [toList, mem_places]
  simp only [Nat.zero_le, Nat.zero_add, Nat.sub_zero, true_and, contains, and_iff_right_iff_imp]
  exact fun h => Nat.lt_trans (s.lt_bound i h) Nat.lt_log2_self

theorem pairwise_toList (s : Signers) :
  s.toList.Pairwise (· < ·)
  := pairwise_places _ _ _

end Interchain.Signers
