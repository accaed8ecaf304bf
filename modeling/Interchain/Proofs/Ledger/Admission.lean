import Interchain.Ledger.Chain
import Interchain.Proofs.Checks
import Mathlib

/-!
# Admission and execution

A transaction is admitted if it names the chain, carries the number of its sender's
transactions so far, and its gas covers `Transaction.price`, an exact sum of natural
numbers.  Its execution is successful and announces at most the one message that it sends,
or it fails and announces nothing.
-/

namespace Interchain

/-! ### The price -/

/-- The price of checking a packed predicate. -/
def Predicate.price (packed : Bytes) : Nat :=
  200000 + 100 * packed.length + 500 * signerCount packed

/-- The price of a transaction before execution. -/
def Transaction.price (t : Transaction) : Nat :=
  Gas.transaction + ((t.predicatesFor messengerAddress).map Predicate.price).sum

/-- A price is checked to fit in 64 bits. -/
theorem Gas.checked_eq_ok_iff (price gas : Nat) :
  checked price = .ok gas ↔ gas = price ∧ price < UInt64.size
  := by
  rw [checked]
  split
  · next h => simp [h, eq_comm]
  · next h => simp [h]

theorem Gas.checked_of_lt {price : Nat} (h : price < UInt64.size) :
  checked price = .ok price
  := if_pos h

theorem Gas.checked_of_le {price : Nat} (h : UInt64.size ≤ price) :
  checked price = .error .gasOverflow
  := if_neg (Nat.not_lt_of_le h)

namespace Chain

/-- Prices that are added up one after another come to their sum, checked to fit in 64 bits. -/
theorem foldlM_gas_eq (predicates : List Bytes) {acc : Nat} (hacc : acc < UInt64.size) :
  predicates.foldlM (fun acc p => do Gas.checked (acc + (← Predicate.gas p))) acc
    = Gas.checked (acc + (predicates.map Predicate.price).sum)
  := by
  induction predicates generalizing acc with
  | nil => exact (Gas.checked_of_lt hacc).symm
  | cons p predicates ih =>
      have hgas : Predicate.gas p = Gas.checked (Predicate.price p) := rfl
      rw [List.foldlM_cons, List.map_cons, List.sum_cons, ← Nat.add_assoc, hgas]
      obtain hlt | hle := Nat.lt_or_ge (acc + Predicate.price p) UInt64.size
      · have hp : Predicate.price p < UInt64.size := Nat.lt_of_add_left_lt hlt
        rw [Gas.checked_of_lt hp, ← ih hlt]
        simp only [Bind.bind, Except.bind, Gas.checked_of_lt hlt]
      · -- the first price that is too great ends the addition
        have hsum : UInt64.size
            ≤ acc + Predicate.price p + (predicates.map Predicate.price).sum :=
          Nat.le_add_right_of_le hle
        rw [Gas.checked_of_le hsum]
        obtain hp | hp := Nat.lt_or_ge (Predicate.price p) UInt64.size
        · simp only [Gas.checked_of_lt hp, Bind.bind, Except.bind, Gas.checked_of_le hle]
        · simp only [Gas.checked_of_le hp, Bind.bind, Except.bind]

/-- The price of a transaction is an error if it does not fit in 64 bits or the gas does not cover
it, and otherwise is what it is. -/
theorem intrinsicGas_eq (t : Transaction) :
  intrinsicGas t (t.predicatesFor messengerAddress)
    = if UInt64.size ≤ t.price then .error .gasOverflow
      else if t.gas.toNat < t.price then .error (.intrinsicGasTooLow t.price t.gas.toNat)
      else .ok t.price
  := by
  have hbase : Gas.transaction < UInt64.size := by
    rw [Gas.transaction, UInt64.size]
    omega
  have hprice : Gas.transaction
      + ((t.predicatesFor messengerAddress).map Predicate.price).sum = t.price := rfl
  rw [intrinsicGas, foldlM_gas_eq _ hbase, hprice]
  by_cases hfits : UInt64.size ≤ t.price
  · rw [if_pos hfits, Gas.checked_of_le hfits]
    rfl
  · rw [if_neg hfits, Gas.checked_of_lt (Nat.lt_of_not_le hfits)]
    by_cases hlow : t.gas.toNat < t.price
    · simp only [Bind.bind, Except.bind, if_pos hlow]
      rfl
    · simp only [Bind.bind, Except.bind, if_neg hlow]
      rfl

/-- The gas of a transaction covers its price exactly if it is at least this sum. -/
theorem intrinsicGas_eq_ok_iff (t : Transaction) (gas : Nat) :
  intrinsicGas t (t.predicatesFor messengerAddress) = .ok gas
    ↔ gas = t.price ∧ t.price ≤ t.gas.toNat
  := by
  have hlimit : t.gas.toNat < UInt64.size := t.gas.toNat_lt
  rw [intrinsicGas_eq]
  split
  · simp only [reduceCtorEq, false_iff]
    omega
  · split
    · simp only [reduceCtorEq, false_iff]
      omega
    · next hle =>
      rw [Except.ok.injEq]
      omega

/-! ### Admission -/

/-- A transaction is admitted, at its price, if it names the chain, is next in turn for its
sender and has gas for the price. -/
theorem admission_eq_ok_iff (c : Chain) (t : Transaction) (gas : Nat) :
  c.admission t = .ok gas
    ↔ t.chain = c.config.number ∧ t.nonce = c.nonceOf t.sender ∧
        gas = t.price ∧ t.price ≤ t.gas.toNat
  := by
  rw [admission, bind_eq_ok_iff]
  simp only [intrinsicGas_eq_ok_iff]
  constructor
  · rintro ⟨⟨⟩, hturn, hgas⟩
    by_cases hchain : t.chain = c.config.number
    · by_cases hnonce : t.nonce = c.nonceOf t.sender
      · exact ⟨hchain, hnonce, hgas⟩
      · rw [checkTurn, if_neg (not_not.mpr hchain), if_pos hnonce] at hturn
        cases hturn
    · rw [checkTurn, if_pos hchain] at hturn
      cases hturn
  · rintro ⟨hchain, hnonce, hgas⟩
    refine ⟨(), ?_, hgas⟩
    rw [checkTurn, if_neg (not_not.mpr hchain), if_neg (not_not.mpr hnonce)]
    rfl

/-! ### Execution -/

/-- The transaction is for the messenger, which comes to an error within the gas that is left of
it after the price `intrinsic`. -/
def Fails (c : Chain) (t : Transaction) (intrinsic : Nat) (results : PredicateResults)
    (e : ChainError) : Prop :=
  t.recipient = messengerAddress ∧
  c.messenger.execute ⟨t.sender, false, results⟩ t.data (t.gas.toNat - intrinsic) = .error e

/-- Execution that fails uses all gas, announces nothing and says why. -/
theorem Fails.execute_eq {c : Chain} {t : Transaction} {intrinsic : Nat}
    {results : PredicateResults} {e : ChainError} (h : c.Fails t intrinsic results e) :
  c.execute t intrinsic results
    = { successful := false, gasUsed := t.gas.toNat, revertReason := some e.text }
  := by
  obtain ⟨hr, he⟩ := h
  rw [execute, if_neg (not_not.mpr hr)]
  simp only [he]

/-- Execution is unsuccessful exactly if it fails with some error. -/
theorem successful_execute_eq_false_iff {c : Chain} {t : Transaction} {intrinsic : Nat}
    {results : PredicateResults} :
  (c.execute t intrinsic results).successful = false ↔ ∃ e, c.Fails t intrinsic results e
  := by
  constructor
  · intro h
    rw [execute] at h
    by_cases hr : t.recipient = messengerAddress
    · rw [if_neg (not_not.mpr hr)] at h
      dsimp only at h
      split at h
      · cases h
      · next e he => exact ⟨e, hr, he⟩
    · rw [if_pos hr] at h
      cases h
  · rintro ⟨e, h⟩
    rw [h.execute_eq]

/-- Execution by the messenger that succeeds comes to what the call came to. -/
theorem execute_of_successful {c : Chain} {t : Transaction} {intrinsic : Nat}
    {results : PredicateResults} (hr : t.recipient = messengerAddress)
    (h : (c.execute t intrinsic results).successful = true) :
  ∃ r, c.messenger.execute ⟨t.sender, false, results⟩ t.data (t.gas.toNat - intrinsic) = .ok r ∧
    (c.execute t intrinsic results).announcements = r.announcements
  := by
  rw [execute, if_neg (not_not.mpr hr)] at h ⊢
  dsimp only at h ⊢
  split at h
  · next r hexecute => exact ⟨r, hexecute, rfl⟩
  · cases h

end Chain

end Interchain
