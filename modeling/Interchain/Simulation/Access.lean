import Interchain.Relay.Relayer
import Interchain.Simulation.World

/-!
# Access to the chains of a world

How a relayer sees the chains of a world through its clients, and how a reader of headers
waits: time passes until the next announcement, but no longer than the reader is willing
to wait.
-/

namespace Interchain

namespace World

variable {Key Sig : Type}

/-! ### Headers -/

/-- The front of a client. -/
def front? (w : World Key Sig) (client : Nat) : Option Front := do (← w.clients[client]?).front

/-- The world with another front for a client. -/
def withFront (w : World Key Sig) (client : Nat) (f : Front) : World Key Sig :=
  { w with clients := w.clients.modify client fun c => { c with front := some f } }

/-- The headers that a client sees at present. -/
def feed (w : World Key Sig) (client : Nat) : Feed :=
  match w.front? client with
  | some f => (f.flush w.othersUpTo).visible
  | none => ((w.clients[client]?).bind fun c => (w.sites[c.site]?).map (·.feed)).getD {}

/-- A new reader of the headers that a client will see. -/
def subscribe (client : Nat) : StateM (World Key Sig) Nat := do
  let w ← get
  let late := (w.front? client).any (·.feed.closed)
  let r : Reader := { client, position := (w.feed client).sent.length, late }
  set { w with readers := w.readers ++ [r] }
  return w.readers.length

/-- What a reader is told who does not wait. -/
def poll (reader : Nat) : StateM (World Key Sig) HeadEvent := do
  let w ← get
  match w.readers[reader]? with
  | none => return .closed
  | some r =>
    if r.late then return .closed
    let (event, position) := (w.feed r.client).receive r.position
    set { w with readers := w.readers.set reader { r with position } }
    return event

/-- When a reader has to be told something next. -/
def nextDue? (w : World Key Sig) (reader : Nat) : Option Nat := do
  let f ← w.front? (← w.readers[reader]?).client
  (f.flush w.othersUpTo).nextDue?

/-- What a reader is told next who waits until a deadline that is still to come, or until
something is announced before that. -/
def await (reader deadline : Nat) : StateM (World Key Sig) HeadEvent := do
  match (← get).nextDue? reader with
  | some due =>
    if due < deadline then
      modify (onMoment fun _ => (Moment.wakeAt due).giveTurn.step)
      poll reader
    else
      modify (onMoment fun _ => .wakeAt deadline)
      return .silent
  | none =>
    modify (onMoment fun _ => .wakeAt deadline)
    return .silent

/-- What a reader is told who waits no longer than to a deadline.  Others have their turn
before time passes. -/
def receive (reader deadline : Nat) : StateM (World Key Sig) HeadEvent := do
  modify (onMoment Moment.ready)
  match ← poll reader with
  | .silent =>
    if deadline ≤ (← get).now then
      modify (onMoment Moment.step)
      return .silent
    modify (onMoment Moment.giveTurn)
    match ← poll reader with
    | .silent => await reader deadline
    | event =>
      modify (onMoment Moment.step)
      return event
  | event =>
    modify (onMoment Moment.step)
    return event

/-- A bound on how often a reader can be told something. -/
def backlog (reader : Nat) (w : World Key Sig) : Nat :=
  match w.readers[reader]? with
  | none => 1
  | some r =>
    let scheduled := ((w.front? r.client).map (·.scheduled.length)).getD 0
    (w.feed r.client).sent.length - r.position + scheduled + 1

/-- What a reader can be told without waiting, at most `n` times something. -/
def pollMany (reader : Nat) : (n : Nat) → StateM (World Key Sig) (List HeadEvent)
  | 0 => return []
  | n + 1 => do
    match ← poll reader with
    | .silent | .closed => return []
    | event => return event :: (← pollMany reader n)

/-- All that a reader can be told without waiting. -/
def drain (reader : Nat) : StateM (World Key Sig) (List HeadEvent) := do
  pollMany reader ((← get).backlog reader + 1)

/-! ### Calls -/

/-- A client's front and site. -/
def behind (client : Nat) : Action (World Key Sig) (Option Front × Nat × Chain) := do
  let w ← get
  let found : Option (Option Front × Nat × Chain) := do
    let c ← w.clients[client]?
    return (c.front, c.site, (← w.sites[c.site]?).chain)
  match found with
  | some x => return x
  | none => throw .subscriptionClosed

/-- The failure of a call, if there is a front that lets it fail. -/
def checkFront (f : Option Front) (call : ChainCall) : Except ChainError Unit :=
  match f with
  | some f => f.check call
  | none => .ok ()

/-- The number of transactions that an account sent. -/
def nonceOf (client : Nat) (a : Address) : Action (World Key Sig) UInt64 := do
  let (f, _, chain) ← behind client
  checkFront f .nonce
  return chain.nonceOf a

/-- The receipt of a transaction. -/
def receipt (client : Nat) (transaction : Id) : Action (World Key Sig) Receipt := do
  let (f, _, chain) ← behind client
  match f with
  | some f =>
    if f.lostReceipts = 0 then chain.receipt transaction
    else
      modify (·.withFront client { f with lostReceipts := f.lostReceipts - 1 })
      throw (.receiptNotFound transaction)
  | none => chain.receipt transaction

/-- The logs of an account in a block. -/
def logs (client : Nat) (block : Id) (a : Address) : Action (World Key Sig) (List Log) := do
  let (f, _, chain) ← behind client
  checkFront f .logs
  return (f.bind (·.scriptedLogs block a)).getD (chain.logs block a)

/-- The number of the last block. -/
def height (client : Nat) : Action (World Key Sig) UInt64 := do
  let (f, _, chain) ← behind client
  match f with
  | none => return chain.head.number
  | some f =>
    let (told, rest) := f.tellHeight
    let polls := f.polls + 1
    if f.failing = some .height then
      modify (·.withFront client { f with polls })
    else
      modify (·.withFront client { rest with polls })
    checkFront f .height
    return told.getD chain.head.number

/-- The time of a world. -/
def clock : Clock (World Key Sig) where
  now w := w.now
  sleep d := onMoment (·.sleep d)

variable [AggregateScheme Key Sig]

/-- Sends a transaction through a client and tells its name. -/
def send (client : Nat) (t : Transaction) : Action (World Key Sig) Id := do
  let (f, site, _) ← behind client
  checkFront f .send
  let _ ← submit site t
  if let some f := f then
    let (_, _, chain) ← behind client
    modify fun w => w.withFront client (f.announce w.toMoment chain.head)
  return t.hash

/-- A client as a relayer sees it, if there is a chain behind it. -/
def access? (w : World Key Sig) (client : Nat) : Option (ChainAccess (World Key Sig)) := do
  let c ← w.clients[client]?
  let s ← w.sites[c.site]?
  return {
    name := s.chain.config.name
    number := s.chain.config.number
    subscribe := subscribe client
    nonceOf := nonceOf client
    submit := send client
    receive
    backlog
    receipt := receipt client
    logs := logs client
    height := height client
    heightChanges w := ((w.front? client).map (·.heights.length)).getD 0 }

end World

end Interchain
