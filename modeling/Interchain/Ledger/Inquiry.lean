import Interchain.Ledger.Chain

/-!
# Asking about validators

To check the predicates of a transaction a chain asks about validators, one question after
another, and waits for each answer; what was recorded may change in between.  An `Inquiry`
is what such a computation has still to ask.  `Inquiry.resolve` has the questions answered
one after another, each by a directory of its own.
-/

namespace Interchain

/-- A computation that asks about validators and waits for the answers. -/
inductive Inquiry (Key α : Type) where
  /-- There is nothing left to ask. -/
  | done (result : α)
  /-- Asks for the present height. -/
  | height (next : Except MessageError UInt64 → Inquiry Key α)
  /-- Asks which subnet validates a chain. -/
  | subnetOf (chain : Id) (next : Except MessageError Id → Inquiry Key α)
  /-- Asks for the validators of a subnet at a height. -/
  | snapshot (height : UInt64) (subnet : Id)
      (next : Except MessageError (Snapshot Key) → Inquiry Key α)

namespace Inquiry

variable {Key α β : Type}

/-- Goes on asking with the result. -/
def bind : Inquiry Key α → (α → Inquiry Key β) → Inquiry Key β
  | done result, f => f result
  | height next, f => height fun x => (next x).bind f
  | subnetOf chain next, f => subnetOf chain fun x => (next x).bind f
  | snapshot h subnet next, f => snapshot h subnet fun x => (next x).bind f

instance : Monad (Inquiry Key) where
  pure := done
  bind := bind

/-- What is left to ask once a directory has answered the next question. -/
def answer (d : Directory Key) : Inquiry Key α → Inquiry Key α
  | done result => done result
  | height next => next d.height
  | subnetOf chain next => next (d.subnetOf chain)
  | snapshot h subnet next => next (d.snapshot h subnet)

/-- The result if each question is answered by the next of some directories. -/
def resolve : Inquiry Key α → (Nat → Directory Key) → α
  | done result, _ => result
  | height next, ds => (next (ds 0).height).resolve fun k => ds (k + 1)
  | subnetOf chain next, ds => (next ((ds 0).subnetOf chain)).resolve fun k => ds (k + 1)
  | snapshot h subnet next, ds => (next ((ds 0).snapshot h subnet)).resolve fun k => ds (k + 1)

end Inquiry

variable {Key Sig : Type} [AggregateScheme Key Sig]

/-- Asks for the canonical set that attests for a chain at a height. -/
def Directory.inquireSet (height : UInt64) (chain own : Id) :
    Inquiry Key (Except MessageError (ValidatorSet Key)) :=
  .subnetOf chain fun
    | .error e => .done (.error e)
    | .ok source =>
      .snapshot height (attestingSubnet source own) fun records =>
        .done (records >>= ValidatorSet.ofRecords)

namespace PredicateView

/-- Asks for what a view lacks to judge a packed predicate. -/
def inquireFor (own : Id) (v : PredicateView Key) (packed : Bytes) :
    Inquiry Key (PredicateView Key) :=
  match Predicate.decode packed with
  | .error _ => pure v
  | .ok m =>
    let chain := m.message.chain
    if v.sets.any (·.1 = chain) then pure v
    else v.insert chain <$> Directory.inquireSet v.height chain own

/-- Asks for a view of the validators of all sources of some packed predicates. -/
def inquire (network : UInt32) (own : Id) (quorum : Quorum) (predicates : List Bytes) :
    Inquiry Key (Except MessageError (PredicateView Key)) :=
  .height fun
    | .error e => .done (.error e)
    | .ok height => .ok <$> predicates.foldlM (inquireFor own) { network, quorum, height }

end PredicateView

namespace Chain

/-- Asks for what is needed to check the predicates of a transaction, and checks them. -/
def inquire (c : Chain) (predicates : List Bytes) : Inquiry Key PredicateResults :=
  if predicates.isEmpty then pure []
  else do
    match ← PredicateView.inquire c.config.network c.config.subnet c.config.quorum predicates with
    | .ok view => return view.checkAll predicates
    | .error e => return .allFailed predicates.length (.message e)

/-- What the execution of a transaction comes to, if it is admitted and the questions about
validators are answered by some directories in turn. -/
def performUnder (c : Chain) (answers : Nat → Directory Key) (t : Transaction) :
    Except ChainError Execution := do
  let intrinsic ← c.admission t
  return c.execute t intrinsic ((c.inquire (t.predicatesFor messengerAddress)).resolve answers)

end Chain

end Interchain
