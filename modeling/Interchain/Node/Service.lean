import Interchain.Node.Attestor
import Interchain.Round.Aggregation
import Interchain.Settings.Node

/-!
# A node that serves others

A service hands out the messages and signatures of its node, and conducts rounds for
others, unless its settings keep it from serving.  A round is measured against the
validators of the message's source at the height at which it starts.
-/

namespace Interchain

/-- A node with its settings. -/
structure Service (Key Sig : Type) where
  attestor : Attestor Key Sig
  settings : NodeSettings

namespace Service

variable {σ Key Sig : Type}

/-- Whether others are served. -/
def checkEnabled (s : Service Key Sig) : Except MessageError Unit :=
  if s.settings.enabled then .ok () else .error .disabled

/-- The message with a name. -/
def message (s : Service Key Sig) (name : Id) : Except MessageError Message := do
  s.checkEnabled
  s.attestor.message name

/-- What is to be attested when a request is made to conduct a round. -/
def subject (s : Service Key Sig) : SignatureRequest → Except MessageError Message
  | .message name => s.message name
  | .block name => do
    s.checkEnabled
    s.attestor.blockMessage name

variable [AggregateScheme Key Sig]

/-- The answer of the node to a request, where `accepted` tells the blocks of its chain. -/
def answer (s : Service Key Sig) (accepted : Id → Bool) (request : SignatureRequest) :
    Except MessageError (FixedBytes 96) × Attestor Key Sig :=
  match s.checkEnabled with
  | .ok _ => s.attestor.answer accepted request
  | .error e => (.error e, s.attestor)

/-- How a round for a percentage is conducted, and its validators. -/
def plan (s : Service Key Sig) (d : Directory Key) (message : Message) (percent : UInt64) :
    Except MessageError (RoundConfig × ValidatorSet Key) := do
  let config ← s.settings.roundConfig percent
  let height ← d.height
  let own ← d.subnetOf s.attestor.chain
  return (config, ← d.sourceSet height message.chain own)

/-- The outcome of a round for a message, with the moment and the state of the network at its
end.  The earliest answers are the next ones unless schedules say otherwise. -/
def conduct (s : Service Key Sig) (d : Directory Key) (net : Network σ Sig)
    (message : Message) (percent : UInt64) (start : Moment) (network : σ)
    (schedules : FanOut.Schedules Key net := .earliestFirst net) :
    Except MessageError Attested × Moment × σ :=
  match s.plan d message percent with
  | .error e => (.error e, start, network)
  | .ok (config, set) =>
    let (result, round) :=
      aggregate net set config message config.maxAttempts start network (schedules set message _ _)
    (result, round.toMoment, round.network)

/-- The encoding of what a round for a request yields, with the moment and the state of the
network at its end. -/
def attest (s : Service Key Sig) (d : Directory Key) (net : Network σ Sig)
    (request : SignatureRequest) (percent : UInt64) (start : Moment) (network : σ)
    (schedules : FanOut.Schedules Key net := .earliestFirst net) :
    Except MessageError Bytes × Moment × σ :=
  match s.subject request with
  | .error e => (.error e, start, network)
  | .ok message =>
    let (result, end_) := s.conduct d net message percent start network schedules
    (result.map (·.message.bytes), end_)

end Service

end Interchain
