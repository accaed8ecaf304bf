import Interchain.Node.Delegation
import Interchain.Round.Aggregation

/-!
# Peers

Where a node is reached under an address, it is asked for its signature at once: by the
name of the message or, for the attestation of a block, by the name of the block.
-/

namespace Interchain

/-- A node that can be asked to sign, in a world of states `σ`. -/
abbrev Peer (σ : Type) := SignatureRequest → σ → Except MessageError (FixedBytes 96) × σ

/-- The nodes that can be reached, in a world of states `σ`. -/
structure Peers (σ : Type) where
  find : NodeId → σ → Option (Peer σ)

namespace Peers

variable {σ Key Sig : Type} [AggregateScheme Key Sig]

/-- The signature that a byte form, told by a node, stands for. -/
def decodeAnswer (Key : Type) {Sig : Type} [AggregateScheme Key Sig] (node : NodeId)
    (b : FixedBytes 96) : Except MessageError Sig :=
  match AggregateScheme.decodeSig? Key b with
  | some signature => .ok signature
  | none => .error (.forgedSignature node)

/-- A node's signature over a message. -/
def fetch (Key : Type) {Sig : Type} [AggregateScheme Key Sig] (peers : Peers σ) (node : NodeId)
    (message : Message) (s : σ) : Except MessageError Sig × σ :=
  match peers.find node s with
  | none => (.error (.unreachable node "no endpoint"), s)
  | some peer =>
    match requestFor message with
    | .error e => (.error e, s)
    | .ok request =>
      let (answer, s) := peer request s
      (answer.bind (decodeAnswer Key node), s)

/-- The network of the nodes, all of which answer at once. -/
def network (Key : Type) {Sig : Type} [AggregateScheme Key Sig] (peers : Peers σ) :
    Network σ Sig where
  ask _ node message s :=
    let (answer, s) := peers.fetch Key node message s
    (⟨some 0, answer⟩, s)

end Peers

end Interchain
