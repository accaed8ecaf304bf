import Interchain.Node.Attestor
import Interchain.Round.Aggregation

/-!
# Collecting signatures through others

`requestFor` names what nodes are asked to sign for a message.  `delegateIn` has another
node conduct the round and believes nothing that it cannot check itself, against the
validators at the height that was known before the node was asked.
-/

namespace Interchain

/-- What nodes are asked to sign for a message. -/
def requestFor (m : Message) : Except MessageError SignatureRequest := do
  match ← m.content with
  | .call _ => return .message m.id
  | .blockHash block => return .block block

/-- Who verifies what another node answers. -/
structure Verifier where
  network : UInt32
  /-- The subnet of the verifier. -/
  own : Id
  quorum : Quorum

namespace Verifier

variable {Key Sig : Type} [AggregateScheme Key Sig]

/-- What an answer of another node is worth for a message. -/
def checkAnswer (v : Verifier) (d : Directory Key) (height : UInt64) (message : Message)
    (answer : Bytes) : Except MessageError Attested := do
  let signed ← SignedMessage.parse answer
  if signed.message ≠ message then throw .invalidAggregate
  let weight ← signed.verifyAt d v.network v.own height v.quorum
  return ⟨signed, weight.signed, weight.total⟩

/-- The message with the signatures of a quorum, from another node that is asked for a
percentage of the weight and may change the state of the world, the validators included. -/
def delegateIn {σ : Type} (v : Verifier) (view : σ → Directory Key)
    (ask : SignatureRequest → UInt64 → σ → Except MessageError Bytes × σ)
    (message : Message) (s : σ) : Except MessageError Attested × σ :=
  let question : Except MessageError (UInt64 × UInt64 × SignatureRequest) := do
    return (← (view s).height, ← v.quorum.ceilPercent, ← requestFor message)
  match question with
  | .error e => (.error e, s)
  | .ok (height, percent, request) =>
    let (answer, s) := ask request percent s
    (do v.checkAnswer (view s) height message (← answer), s)

/-- The same where nobody changes the validators. -/
def delegate {σ : Type} (v : Verifier) (d : Directory Key)
    (ask : SignatureRequest → UInt64 → σ → Except MessageError Bytes × σ)
    (message : Message) (s : σ) : Except MessageError Attested × σ :=
  v.delegateIn (fun _ => d) ask message s

end Verifier

end Interchain
