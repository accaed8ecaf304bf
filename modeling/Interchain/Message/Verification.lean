import Interchain.Message.Basic
import Interchain.Validator.Directory
import Interchain.Validator.Quorum

/-!
# Verification

A signed message is accepted when it belongs to the right network, its signers are
validators and carry a quorum of the weight, and the sum of signatures is that of the
sum of their keys.
-/

namespace Interchain

/-- The weights behind an accepted message. -/
structure VerifiedWeight where
  /-- The weight of the signers. -/
  signed : Nat
  /-- The weight of the whole set. -/
  total : Nat
deriving DecidableEq

namespace SignedMessage

variable {Key Sig : Type} [AggregateScheme Key Sig]

/-- The first reason not to accept a message on a network, measured against a validator set
and a quorum. -/
def verify (m : SignedMessage) (network : UInt32) (set : ValidatorSet Key) (quorum : Quorum) :
    Except MessageError Unit := do
  if m.message.network ≠ network then
    throw (.networkMismatch network.toNat m.message.network.toNat)
  let signers ← set.select m.signers
  if signers.isEmpty then throw .noSigners
  let signed ← sumWeights (signers.map (·.weight))
  quorum.checkWeight signed set.total.toNat
  let key ← ValidatorSet.aggregateKey signers
  match AggregateScheme.decodeSig? Key m.signature with
  | none => throw .invalidAggregate
  | some sig =>
    if !AggregateScheme.verify key m.id.bytes sig then throw .invalidAggregate

/-- The weights behind a message, measured against the validators of its source at a
height. -/
def verifyAt (m : SignedMessage) (d : Directory Key) (network : UInt32) (own : Id)
    (height : UInt64) (quorum : Quorum) : Except MessageError VerifiedWeight := do
  let set ← d.sourceSet height m.message.chain own
  m.verify network set quorum
  let signers ← set.select m.signers
  return ⟨← sumWeights (signers.map (·.weight)), set.total.toNat⟩

end SignedMessage

end Interchain
