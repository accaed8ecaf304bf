import Interchain.Ledger.Inquiry
import Interchain.Simulation.World

/-!
# Calls in progress at a chain

Several calls may be sending transactions to the chain at a site at once.  A call waits
until no other one is being served; it is then admitted or turned away, and asks about
validators as long as its predicates require.  With the last answer its transaction is
executed and sealed, and the next call may be served.  A `Turn` is what happens between two
waits: something that a call does, or something that others do in the meantime.
`Sequencer.run` takes one turn after another, in whatever order they come.
-/

namespace Interchain

/-- How far a call that sends a transaction has come. -/
inductive Progress (Key : Type) where
  /-- It waits to be served. -/
  | waiting
  /-- Its transaction was admitted at a price, and it waits for an answer about validators. -/
  | asking (intrinsic : Nat) (inquiry : Inquiry Key PredicateResults)
  /-- It returned the name of the transaction, or why that was not admitted. -/
  | returned (result : Except ChainError Id)

/-- A call that sends a transaction. -/
structure Submission (Key : Type) where
  transaction : Transaction
  progress : Progress Key := .waiting

/-- A transaction that was sealed, with what its execution came to and its block. -/
structure Sealing where
  transaction : Transaction
  execution : Execution
  block : Header

/-- A world with the calls that send transactions to the chain at one of its sites. -/
structure Sequencer (Key Sig : Type) where
  world : World Key Sig
  /-- The calls, in the order in which they were made. -/
  calls : List (Submission Key) := []
  /-- The call that is served, if there is one. -/
  served : Option Nat := none

/-- What happens between two waits. -/
inductive Turn (Key : Type) where
  /-- Somebody calls to send a transaction. -/
  | send (t : Transaction)
  /-- A call begins to be served. -/
  | enter (call : Nat)
  /-- A call is answered by a directory what it asked about validators. -/
  | answer (call : Nat) (d : Directory Key)
  /-- A node begins to follow the chain. -/
  | follow (station : Nat)
  /-- A node is asked for a signature. -/
  | request (station : Nat) (r : SignatureRequest)

namespace Turn

/-- Whether somebody calls to send a transaction. -/
def isSend {Key : Type} : Turn Key → Bool
  | send _ => true
  | _ => false

end Turn

namespace Sequencer

variable {Key Sig : Type} [AggregateScheme Key Sig]

omit [AggregateScheme Key Sig] in
/-- The world with a new chain, which nobody has called yet. -/
def start (w : World Key Sig) (config : ChainConfig) (heightFault : Option MessageError) :
    Sequencer Key Sig :=
  { world := (World.addChain config heightFault w).2 }

/-- Goes on with a call that was admitted at a price: if there is something to ask, it waits
for an answer, and otherwise its transaction is executed and sealed. -/
def proceed (s : Sequencer Key Sig) (i call : Nat) (t : Transaction) (intrinsic : Nat) :
    Inquiry Key PredicateResults → Sequencer Key Sig × Option Sealing
  | .done results =>
    match s.world.sites[i]? with
    | none => (s, none)
    | some site =>
      let x := site.chain.execute t intrinsic results
      ({ world := s.world.sealed i t x
         calls := s.calls.set call ⟨t, .returned (.ok t.hash)⟩ },
        some ⟨t, x, (site.chain.withBlock t x).head⟩)
  | inquiry =>
    ({ s with calls := s.calls.set call ⟨t, .asking intrinsic inquiry⟩, served := some call }, none)

/-- Takes a turn, and tells what was sealed in it.  A turn that is not possible changes
nothing. -/
def step (s : Sequencer Key Sig) (i : Nat) : Turn Key → Sequencer Key Sig × Option Sealing
  | .send t => ({ s with calls := s.calls ++ [{ transaction := t }] }, none)
  | .enter call =>
    match s.served, s.calls[call]?, s.world.sites[i]? with
    | none, some ⟨t, .waiting⟩, some site =>
      match site.chain.admission t with
      | .error e => ({ s with calls := s.calls.set call ⟨t, .returned (.error e)⟩ }, none)
      | .ok intrinsic =>
        s.proceed i call t intrinsic (site.chain.inquire (t.predicatesFor messengerAddress))
    | _, _, _ => (s, none)
  | .answer call d =>
    match s.calls[call]? with
    | some ⟨t, .asking intrinsic inquiry⟩ => s.proceed i call t intrinsic (inquiry.answer d)
    | _ => (s, none)
  | .follow station => ({ s with world := s.world.addFollower station i }, none)
  | .request station r =>
    match s.world.ask (.station station) r with
    | some (_, world) => ({ s with world }, none)
    | none => (s, none)

/-- Takes one turn after another, and tells what was sealed. -/
def run (s : Sequencer Key Sig) (i : Nat) : List (Turn Key) → Sequencer Key Sig × List Sealing
  | [] => (s, [])
  | turn :: turns =>
    let (s, sealing) := s.step i turn
    let (s, sealings) := s.run i turns
    (s, sealing.toList ++ sealings)

end Sequencer

namespace World

variable {Key Sig : Type} [AggregateScheme Key Sig]

/-- Sends a transaction to the chain at a site while nobody else does, where the questions
about validators are answered by some directories in turn, and tells the name of the
transaction. -/
def submitUnder (i : Nat) (t : Transaction) (answers : Nat → Directory Key)
    (w : World Key Sig) : Option (Except ChainError Id × World Key Sig) := do
  let s ← w.sites[i]?
  match s.chain.performUnder answers t with
  | .error e => return (.error e, w)
  | .ok x => return (.ok t.hash, w.sealed i t x)

end World

end Interchain
