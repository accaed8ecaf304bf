import Interchain.Message.Basic
import Interchain.Moment
import Interchain.Validator.Set

/-!
# Asking many nodes at once

Requests for signatures are sent out in order, the next one not before those that are
answered at once, and a limited number of them under way at a time.  Each answer is checked
against the key of the validator it is claimed for.  `FanOut.next` moves on to the next
answer; what was asked and answered is kept in a trace.
-/

namespace Interchain

/-- What a node does with a request. -/
structure Reply (Sig : Type) where
  /-- The time until the answer, unless there never is one. -/
  delay : Option Nat
  answer : Except MessageError Sig

/-- How nodes answer requests, for a state of the network that requests may change. -/
structure Network (σ Sig : Type) where
  /-- The reply of a node that is asked at a time for its signature over a message. -/
  ask : (now : Nat) → NodeId → Message → σ → Reply Sig × σ

/-- A node to ask, for the validator with the given index. -/
structure Request where
  index : Nat
  node : NodeId
deriving DecidableEq

/-- What became of a request. -/
inductive Outcome (Sig : Type) where
  /-- The answer was the validator's signature. -/
  | signed (index : Nat) (signature : Sig)
  /-- The request may be tried again. -/
  | transient (index : Nat) (error : MessageError)
  /-- The answer is of no use, nor would another be. -/
  | rejected (index : Nat) (error : MessageError)

/-- The index of the validator that was to sign. -/
def Outcome.index {Sig : Type} : Outcome Sig → Nat
  | signed i _ | transient i _ | rejected i _ => i

/-- What happened in the course of a round. -/
inductive Event (Sig : Type) where
  | asked (time : Nat) (request : Request)
  /-- The answer to a request, whatever it is worth. -/
  | replied (time : Nat) (request : Request) (answer : Except MessageError Sig)
  /-- What the answer before it amounts to. -/
  | answered (time : Nat) (outcome : Outcome Sig)

/-- A request under way. -/
structure Flight (Sig : Type) where
  request : Request
  /-- When the answer comes, unless it never does. -/
  due : Option Nat
  answer : Except MessageError Sig

/-- Requests to send and under way, with the moment, the state of the network and what has
happened, latest first. -/
structure FanOut (σ Sig : Type) extends Moment where
  network : σ
  trace : List (Event Sig) := []
  waiting : List Request := []
  /-- The requests under way in the order in which they were sent. -/
  flying : List (Flight Sig) := []

namespace FanOut

variable {σ Key Sig : Type}

/-- What an answer amounts to for a validator set. -/
def judge [AggregateScheme Key Sig] (set : ValidatorSet Key) (message : Message)
    (f : Flight Sig) : Outcome Sig :=
  let i := f.request.index
  match f.answer, set.validators[i]? with
  | .ok sig, some v =>
    if AggregateScheme.verify v.key message.id.bytes sig then .signed i sig
    else .rejected i (.forgedSignature f.request.node)
  | .ok _, none => .rejected i (.unknownValidator i set.validators.length)
  | .error e, _ => if e.isTransient then .transient i e else .rejected i e

/-- The state in which an answer and what it amounts to are part of what has happened. -/
def note [AggregateScheme Key Sig] (set : ValidatorSet Key) (message : Message)
    (flight : Flight Sig) (f : FanOut σ Sig) : FanOut σ Sig :=
  { f with
    trace := .answered f.now (judge set message flight) ::
      .replied f.now flight.request flight.answer :: f.trace }

/-- The request as it goes under way.  A validator that is not in the set is not asked. -/
def launch (net : Network σ Sig) (set : ValidatorSet Key) (message : Message)
    (r : Request) (f : FanOut σ Sig) : Flight Sig × FanOut σ Sig :=
  if r.index < set.validators.length then
    let (reply, network) := net.ask f.now r.node message f.network
    (⟨r, reply.delay.map f.after, reply.answer⟩,
      { f with network, trace := .asked f.now r :: f.trace })
  else
    (⟨r, some f.now, .error (.unknownValidator r.index set.validators.length)⟩, f)

/-- Sends requests until one is answered at once or as many are under way as may be. -/
def send (net : Network σ Sig) (set : ValidatorSet Key) (message : Message) (limit : Nat) :
    (waiting : List Request) → FanOut σ Sig → Option (Flight Sig) × FanOut σ Sig
  | [], f => (none, { f with waiting := [] })
  | r :: rest, f =>
    if limit ≤ f.flying.length then (none, { f with waiting := r :: rest })
    else
      let (flight, f) := launch net set message r f
      if flight.due = some f.now then (some flight, { f with waiting := rest })
      else send net set message limit rest { f with flying := f.flying ++ [flight] }

/-- The earliest time at which an answer comes. -/
def earliest? (flying : List (Flight Sig)) : Option Nat := (flying.filterMap (·.due)).min?

/-- Whether a time is past a deadline. -/
def isLate (deadline : Option Nat) (time : Nat) : Bool := deadline.any (· < time)

/-- The next answer, at the time when it comes; none if no answer comes by the deadline. -/
def next (net : Network σ Sig) (set : ValidatorSet Key) (message : Message) (limit : Nat)
    (deadline : Option Nat) (f : FanOut σ Sig) : Option (Flight Sig) × FanOut σ Sig :=
  match send net set message limit f.waiting f with
  | (some flight, f) => (some flight, f)
  | (none, f) =>
    match earliest? f.flying with
    | none => (none, f)
    | some time =>
      if isLate deadline time then (none, f)
      else
        (f.flying.find? (·.due = some time),
          { f with
            toMoment := f.waitUntil time
            flying := f.flying.eraseP (·.due = some time) })

/-- All outcomes of at most `n` requests, with the state after the last. -/
def drain [AggregateScheme Key Sig] (net : Network σ Sig) (set : ValidatorSet Key)
    (message : Message) (limit : Nat) : (n : Nat) → FanOut σ Sig → FanOut σ Sig
  | 0, f => f
  | n + 1, f =>
    match next net set message limit none f with
    | (none, f) => f
    | (some flight, f) => drain net set message limit n (f.note set message flight)

/-- What happens when some requests are sent, in the order in which it happens. -/
def run [AggregateScheme Key Sig] (net : Network σ Sig) (set : ValidatorSet Key)
    (message : Message) (maxConcurrency : Nat) (requests : List Request) (start : Moment)
    (network : σ) : FanOut σ Sig :=
  let f : FanOut σ Sig := { toMoment := start, network, waiting := requests }
  drain net set message (max 1 maxConcurrency) requests.length f

end FanOut

end Interchain
