import Interchain.Ledger.Gas
import Interchain.Ledger.Predicate
import Interchain.Message.Verification

/-!
# Checking predicates

The predicates of a transaction are signed messages.  They are checked against the
validators of their sources at one height, which is read once; a view of the validators
at that height is loaded first, and each predicate is then judged by itself.
-/

namespace Interchain

namespace Predicate

/-- The signed message that a packed predicate carries. -/
def decode (packed : Bytes) : Except ChainError SignedMessage := do
  ChainError.ofMessage (SignedMessage.parse (← unpack packed))

/-- The number of signers that checking a packed predicate is paid for. -/
def signerCount (packed : Bytes) : Nat :=
  match decode packed with
  | .ok m => m.signers.size
  | .error _ => 0

/-- The price of checking a packed predicate. -/
def gas (packed : Bytes) : Except ChainError Nat :=
  Gas.predicate packed.length (signerCount packed)

end Predicate

/-- What the predicates of a transaction came to, in the order of the access list. -/
abbrev PredicateResults := List (Except ChainError SignedMessage)

namespace PredicateResults

/-- The result for predicates that all failed for one reason. -/
def allFailed (count : Nat) (error : ChainError) : PredicateResults :=
  List.replicate count (.error error)

/-- The first failure, with its place. -/
def firstFailure (results : PredicateResults) : Option ChainError :=
  results.zipIdx.findSome? fun (result, index) =>
    match result with
    | .error e => some (.invalidPredicate index e.text)
    | .ok _ => none

end PredicateResults

/-- What predicates are checked against. -/
structure PredicateView (Key : Type) where
  network : UInt32
  quorum : Quorum
  height : UInt64
  /-- The validators of each source, or why there are none. -/
  sets : List (Id × Except MessageError (ValidatorSet Key)) := []

namespace PredicateView

variable {Key Sig : Type} [AggregateScheme Key Sig]

omit [AggregateScheme Key Sig] in
/-- The view in which a chain has the given validators. -/
def insert (v : PredicateView Key) (chain : Id) (set : Except MessageError (ValidatorSet Key)) :
    PredicateView Key :=
  { v with sets := (chain, set) :: v.sets }

/-- The view with the validators of the source of a packed predicate. -/
def loadFor (d : Directory Key) (own : Id) (v : PredicateView Key) (packed : Bytes) :
    PredicateView Key :=
  match Predicate.decode packed with
  | .error _ => v
  | .ok m =>
    let chain := m.message.chain
    if v.sets.any (·.1 = chain) then v
    else v.insert chain (d.sourceSet v.height chain own)

/-- The view of the validators of all sources of some packed predicates, at the present
height. -/
def load (d : Directory Key) (network : UInt32) (own : Id) (quorum : Quorum)
    (predicates : List Bytes) : Except MessageError (PredicateView Key) := do
  let height ← d.height
  return predicates.foldl (loadFor d own) { network, quorum, height }

omit [AggregateScheme Key Sig] in
/-- The validators of a source. -/
def validators (v : PredicateView Key) (chain : Id) : Except MessageError (ValidatorSet Key) :=
  match v.sets.find? (·.1 = chain) with
  | some (_, set) => set
  | none => .error (.unknownChain chain)

/-- The message that a packed predicate carries, if it is accepted. -/
def check (v : PredicateView Key) (packed : Bytes) : Except ChainError SignedMessage := do
  let m ← Predicate.decode packed
  let set ← ChainError.ofMessage (v.validators m.message.chain)
  ChainError.ofMessage (m.verify v.network set v.quorum)
  return m

/-- What some packed predicates come to. -/
def checkAll (v : PredicateView Key) (predicates : List Bytes) : PredicateResults :=
  predicates.map v.check

end PredicateView

end Interchain
