import Interchain.Message.Error

/-!
# Quorums

A quorum is the fraction of the total weight of a validator set that has to sign.
Weights are compared as natural numbers, so no product of them overflows.
-/

namespace Interchain

/-- A fraction that is positive and at most one. -/
structure Quorum where
  numerator : UInt64
  denominator : UInt64
  pos : 0 < numerator
  le : numerator ≤ denominator
deriving DecidableEq

namespace Quorum

/-- The fraction of two numbers, if it is positive and at most one. -/
def make (numerator denominator : UInt64) : Except MessageError Quorum :=
  if h : 0 < numerator ∧ numerator ≤ denominator then
    .ok ⟨numerator, denominator, h.1, h.2⟩
  else .error (.invalidQuorum numerator.toNat denominator.toNat)

/-- A whole number of hundredths. -/
def percent (numerator : UInt64) : Except MessageError Quorum := make numerator 100

/-- Sixty-seven hundredths. -/
def standard : Quorum := ⟨67, 100, by decide, by decide⟩

/-- The smallest percentage that may be asked of others. -/
def minPercent : UInt64 := 33

/-- The least whole percentage that is no smaller, if it may be asked of others. -/
def ceilPercent (q : Quorum) : Except MessageError UInt64 :=
  let d := q.denominator.toNat
  let percent := min 100 ((q.numerator.toNat * 100 + d - 1) / d)
  if percent < minPercent.toNat then .error (.invalidQuorum q.numerator.toNat d)
  else .ok (.ofNat percent)

/-- Whether the signed weight is at least the fraction of the total. -/
def isMet (q : Quorum) (signed total : Nat) : Bool :=
  total * q.numerator.toNat ≤ signed * q.denominator.toNat

/-- Whether the signed weight is at most the total. -/
def checkBounded (signed total : Nat) : Except MessageError Unit :=
  if total < signed then .error (.weightExceedsTotal signed total) else .ok ()

/-- Whether the signed weight is at most the total and at least the fraction of it. -/
def checkWeight (q : Quorum) (signed total : Nat) : Except MessageError Unit := do
  checkBounded signed total
  if !q.isMet signed total then
    throw (.insufficientWeight signed total q.numerator.toNat q.denominator.toNat)

/-- Whether a round may end with the given number of signers: never without any. -/
def isReached (q : Quorum) (signers signed total : Nat) : Bool :=
  0 < signers && signed ≤ total && q.isMet signed total

end Quorum

end Interchain
