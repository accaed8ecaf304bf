import Interchain.Round.FanOut

/-!
# Scripted nodes

A script says how nodes answer one request after another, whatever is asked.  The last
reply of a node repeats.
-/

namespace Interchain

/-- A reply that a script holds ready. -/
structure ScriptedReply (Sig : Type) where
  /-- The time until the answer. -/
  delay : Nat
  /-- The answer when a signature over a message is asked for. -/
  answer : Message → Except MessageError Sig

/-- The replies of nodes that are still to come. -/
structure Script (Sig : Type) where
  replies : List (NodeId × List (ScriptedReply Sig)) := []

namespace Script

variable {Sig : Type}

/-- The script of some nodes, later replies replacing earlier ones of the same node. -/
def ofList (nodes : List (NodeId × List (ScriptedReply Sig))) : Script Sig := ⟨nodes.reverse⟩

/-- What is left of replies when the first of them was given. -/
def advance : List (ScriptedReply Sig) → List (ScriptedReply Sig)
  | _ :: r :: rest => r :: rest
  | rs => rs

/-- The reply of a node to a request. -/
def ask (node : NodeId) (message : Message) (s : Script Sig) : Reply Sig × Script Sig :=
  match s.replies.lookup node with
  | some (r :: rest) =>
    (⟨some r.delay, r.answer message⟩,
      ⟨(node, advance (r :: rest)) :: s.replies.filter (·.1 ≠ node)⟩)
  | _ => (⟨some 0, .error (.unreachable node "no script")⟩, s)

/-- The network of the scripted nodes. -/
def network : Network (Script Sig) Sig where
  ask _ node message s := s.ask node message

end Script

end Interchain
