import Interchain.Bls.Keys
import Interchain.Ledger.Chain
import Interchain.Node.Peers
import Interchain.Node.Service
import Interchain.Simulation.Front

/-!
# A world of chains and nodes

A world holds everything that takes part in an exchange of messages: what is recorded
about validators, chains, nodes and what stands in front of them.  Things refer to one
another by their place among those of their kind, and nothing is ever taken away.  Time
passes only where something waits.
-/

namespace Interchain

/-- A chain, with those who follow it. -/
structure Site where
  chain : Chain
  /-- The nodes that are handed the messages that the chain sends. -/
  followers : List Nat := []
  feed : Feed := {}
  /-- Why the chain cannot learn at which height to look up validators, if it cannot. -/
  heightFault : Option MessageError := none

/-- Who tells a node which blocks were accepted. -/
inductive BlockSource where
  /-- The chain at a site. -/
  | site (index : Nat)
  /-- A list that is complete. -/
  | listed (blocks : List Id)

/-- A node with the source that it asks about blocks. -/
structure Station (Key Sig : Type) where
  attestor : Attestor Key Sig
  blocks : BlockSource

/-- Something that always gives the same answer. -/
structure Endpoint where
  answer : Except MessageError (FixedBytes 96)
  /-- What it was asked. -/
  asked : List SignatureRequest := []

/-- A service: its station, the address book that it reaches others by, and its settings. -/
structure ServicePlace where
  station : Nat
  book : Nat
  settings : NodeSettings

/-- Who is behind an address. -/
inductive Contact where
  | station (index : Nat)
  | service (index : Nat)
  | endpoint (index : Nat)

/-- A way to use the chain at a site, possibly through a front. -/
structure Client where
  site : Nat
  front : Option Front := none

/-- A reader of the headers that a client sees. -/
structure Reader where
  client : Nat
  /-- The number of headers that the reader has been told of. -/
  position : Nat
  /-- Whether there were no more headers to come when the reader began. -/
  late : Bool

/-- Everything that takes part, at a moment. -/
structure World (Key Sig : Type) extends Moment where
  history : History Key := {}
  sites : List Site := []
  stations : List (Station Key Sig) := []
  endpoints : List Endpoint := []
  services : List ServicePlace := []
  /-- Address books. -/
  books : List (List (NodeId × Contact)) := []
  clients : List Client := []
  readers : List Reader := []

namespace World

variable {Key Sig : Type}

/-- The validators as everybody sees them. -/
def directory (w : World Key Sig) : Directory Key := w.history.directory

/-- The validators as a chain sees them. -/
def directoryOf (w : World Key Sig) (s : Site) : Directory Key :=
  match s.heightFault with
  | some e => { w.directory with height := .error e }
  | none => w.directory

/-- The world at another moment. -/
def onMoment (f : Moment → Moment) (w : World Key Sig) : World Key Sig :=
  { w with toMoment := f w.toMoment }

/-! ### Taking part -/

/-- A new chain, with a client that uses it directly. -/
def addChain (config : ChainConfig) (heightFault : Option MessageError) :
    StateM (World Key Sig) Nat :=
  modifyGet fun w =>
    (w.clients.length,
      { w with
        sites := w.sites ++ [{ chain := { config }, heightFault }]
        clients := w.clients ++ [{ site := w.sites.length }] })

/-- The site of the chain that a client uses. -/
def siteOf? (w : World Key Sig) (client : Nat) : Option Nat := (w.clients[client]?).map (·.site)

/-- The chain that a client uses. -/
def chain? (w : World Key Sig) (client : Nat) : Option Chain :=
  ((w.siteOf? client).bind (w.sites[·]?)).map (·.chain)

/-- A new client that uses the chain of another one through a front. -/
def addFront (client : Nat) (f : Front) : StateM (World Key Sig) Nat :=
  modifyGet fun w =>
    (w.clients.length,
      { w with
        clients := w.clients ++ [{ site := (w.siteOf? client).getD 0, front := some f }] })

/-- A new node. -/
def addStation (s : Station Key Sig) : StateM (World Key Sig) Nat :=
  modifyGet fun w => (w.stations.length, { w with stations := w.stations ++ [s] })

/-- The world in which a node follows the chain at a site. -/
def addFollower (station i : Nat) (w : World Key Sig) : World Key Sig :=
  { w with sites := w.sites.modify i fun s => { s with followers := s.followers ++ [station] } }

/-- The world in which a node follows the chain that a client uses. -/
def follow (station client : Nat) (w : World Key Sig) : World Key Sig :=
  match w.siteOf? client with
  | some i => w.addFollower station i
  | none => w

/-- A new endpoint. -/
def addEndpoint (e : Endpoint) : StateM (World Key Sig) Nat :=
  modifyGet fun w => (w.endpoints.length, { w with endpoints := w.endpoints ++ [e] })

/-- A new service. -/
def addService (p : ServicePlace) : StateM (World Key Sig) Nat :=
  modifyGet fun w => (w.services.length, { w with services := w.services ++ [p] })

/-- A new address book, which is empty. -/
def addBook : StateM (World Key Sig) Nat :=
  modifyGet fun w => (w.books.length, { w with books := w.books ++ [[]] })

/-- The world in which a node is no longer in an address book. -/
def removeContact (book : Nat) (node : NodeId) (w : World Key Sig) : World Key Sig :=
  { w with books := w.books.modify book fun b => b.filter (·.1 ≠ node) }

/-- The world in which an address book says who is behind the address of a node. -/
def putContact (book : Nat) (node : NodeId) (c : Contact) (w : World Key Sig) : World Key Sig :=
  { w with books := w.books.modify book fun b => (node, c) :: b.filter (·.1 ≠ node) }

/-! ### Nodes -/

/-- Whether a block was accepted as far as a source knows. -/
def isAccepted (w : World Key Sig) : BlockSource → Id → Bool
  | .site i, block => (w.sites[i]?).any (·.chain.isAccepted block)
  | .listed blocks, block => blocks.contains block

/-- What a node does and how it changes, if there is one at the place. -/
def atStation {α : Type} (i : Nat)
    (f : Attestor Key Sig → (Id → Bool) → α × Attestor Key Sig) (w : World Key Sig) :
    Option (α × World Key Sig) := do
  let s ← w.stations[i]?
  let (a, attestor) := f s.attestor (w.isAccepted s.blocks)
  return (a, { w with stations := w.stations.set i { s with attestor } })

/-- The service at a place with its address book. -/
def service? (w : World Key Sig) (i : Nat) : Option (Service Key Sig × ServicePlace) := do
  let p ← w.services[i]?
  let s ← w.stations[p.station]?
  return (⟨s.attestor, p.settings⟩, p)

variable [AggregateScheme Key Sig]

/-- The answer of whoever is behind an address, if there is anybody. -/
def ask (c : Contact) (request : SignatureRequest) (w : World Key Sig) :
    Option (Except MessageError (FixedBytes 96) × World Key Sig) :=
  match c with
  | .station i => w.atStation i fun a accepted => a.answer accepted request
  | .service i => do
    let (s, p) ← w.service? i
    w.atStation p.station fun a accepted => { s with attestor := a }.answer accepted request
  | .endpoint i => do
    let e ← w.endpoints[i]?
    let e' : Endpoint := { e with asked := e.asked ++ [request] }
    return (e.answer, { w with endpoints := w.endpoints.set i e' })

/-- The nodes in an address book. -/
def peers (book : Nat) : Peers (World Key Sig) where
  find node w := do
    let contact ← (← w.books[book]?).lookup node
    return fun request w =>
      (w.ask contact request).getD (.error (.unreachable node "no endpoint"), w)

/-- The signature over a message of a node in an address book. -/
def fetch (book : Nat) (node : NodeId) (message : Message) (w : World Key Sig) :
    Except MessageError Sig × World Key Sig :=
  (peers book).fetch Key node message w

/-! ### Rounds -/

/-- The outcome of a round among the nodes of an address book. -/
def conduct (book : Nat) (set : ValidatorSet Key) (config : RoundConfig) (message : Message)
    (w : World Key Sig) : Except MessageError Attested × World Key Sig :=
  let net := (peers book).network Key
  let (result, r) := aggregate net set config message config.maxAttempts w.toMoment w
  (result, { r.network with toMoment := r.toMoment })

/-- The outcome of a round that a service conducts for a message, if there is one at the
place. -/
def serviceConduct (i : Nat) (message : Message) (percent : UInt64) (w : World Key Sig) :
    Option (Except MessageError Attested × World Key Sig) := do
  let (s, p) ← w.service? i
  let net := (peers p.book).network Key
  let (result, moment, w) := s.conduct w.directory net message percent w.toMoment w
  return (result, { w with toMoment := moment })

/-- What a service answers to a request for the signatures of a quorum. -/
def serviceAttest (i : Nat) (request : SignatureRequest) (percent : UInt64)
    (w : World Key Sig) : Option (Except MessageError Bytes × World Key Sig) := do
  let (s, p) ← w.service? i
  let net := (peers p.book).network Key
  let (result, moment, w) := s.attest w.directory net request percent w.toMoment w
  return (result, { w with toMoment := moment })

/-- Collecting signatures over a message, in a world. -/
abbrev Collector (Key Sig : Type) :=
  Message → StateM (World Key Sig) (Except MessageError Attested)

/-- Rounds among the nodes of an address book, measured against the validators that attest
for a chain at present. -/
def direct (w : World Key Sig) (book : Nat) (config : RoundConfig) (chain own : Id) :
    Except MessageError (Collector Key Sig) := do
  let set ← w.directory.sourceSet w.history.height chain own
  return conduct book set config

/-- Rounds that a service conducts and whose results are verified. -/
def delegated (v : Verifier) (service : Nat) : Collector Key Sig := fun m w =>
  let ask (r : SignatureRequest) (percent : UInt64) (w : World Key Sig) :=
    (w.serviceAttest service r percent).getD (.error .disabled, w)
  v.delegateIn directory ask m w

/-- A fixed answer that is verified. -/
def verified (v : Verifier) (answer : Except MessageError Bytes) : Collector Key Sig :=
  fun m w => v.delegateIn directory (fun _ _ w => (answer, w)) m w

/-! ### Chains -/

/-- The world in which a node was handed a message. -/
def hand (w : World Key Sig) (m : Message) (station : Nat) : World Key Sig :=
  match w.atStation station fun a _ => a.addMessage m with
  | some (_, w) => w
  | none => w

/-- The world in which all who follow a site were handed the messages that a transaction
sent. -/
def handAll (w : World Key Sig) (r : Receipt) (followers : List Nat) : World Key Sig :=
  r.sent.foldl (fun w m => followers.foldl (·.hand m ·) w) w

/-- The world in which the chain at a site sealed a transaction, which all who follow it or
read its headers were told. -/
def sealed (i : Nat) (t : Transaction) (x : Execution) (w : World Key Sig) : World Key Sig :=
  match w.sites[i]? with
  | none => w
  | some s =>
    let chain := s.chain.withBlock t x
    let s' : Site := { s with chain, feed := s.feed.send chain.head }
    { w with sites := w.sites.set i s' }.handAll (s.chain.receiptFor t x) s.followers

/-- Sends a transaction to the chain at a site when it is its turn, and tells what came of
it. -/
def submit (i : Nat) (t : Transaction) : Action (World Key Sig) (Option Receipt) := do
  modify (onMoment Moment.step)
  let w ← get
  match w.sites[i]? with
  | none => return none
  | some s =>
    let x ← s.chain.perform (w.directoryOf s) t
    set (w.sealed i t x)
    return some (s.chain.receiptFor t x)

end World

end Interchain
