import Interchain.Simulation.World

/-!
# Calls of a service

What can be asked of a service from outside; every answer is a byte string.
-/

namespace Interchain

/-- Something that a service can be asked for. -/
inductive ServiceCall where
  /-- The encoding of a message. -/
  | message (name : Id)
  /-- The signature of the node. -/
  | signature (request : SignatureRequest)
  /-- The encoding of a message with the signatures of a percentage of the weight. -/
  | attestation (request : SignatureRequest) (percent : UInt64)

namespace World

variable {Key Sig : Type} [AggregateScheme Key Sig]

/-- The answer of the service at a place, if there is one. -/
def call (i : Nat) (c : ServiceCall) (w : World Key Sig) :
    Option (Except MessageError Bytes × World Key Sig) :=
  match c with
  | .message name => do
    let (s, _) ← w.service? i
    return ((s.message name).map (·.bytes), w)
  | .signature request => do
    let (answer, w) ← w.ask (.service i) request
    return (answer.map (·.bytes), w)
  | .attestation request percent => w.serviceAttest i request percent

end World

end Interchain
