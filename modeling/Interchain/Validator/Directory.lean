import Interchain.Validator.Set

/-!
# Directories of validators

A directory answers which subnet validates a chain and which validators a subnet has at
a height.  `History` is a directory that is told these facts one after another: at a
height it answers with what was recorded last for the greatest height not above it.
-/

namespace Interchain

/-- The records of the nodes of a subnet at a height, at most one for each node, in the
order of the nodes. -/
abbrev Snapshot (Key : Type) := List (ValidatorRecord Key)

namespace Snapshot

variable {Key : Type}

/-- The snapshot with a record put in, in place of one of the same node. -/
def insert (r : ValidatorRecord Key) : Snapshot Key → Snapshot Key
  | [] => [r]
  | s :: rest =>
    if r.node = s.node then r :: rest
    else if r.node.precedes s.node then r :: s :: rest
    else s :: insert r rest

/-- The snapshot of some records, later ones replacing earlier ones of the same node. -/
def ofList (records : List (ValidatorRecord Key)) : Snapshot Key :=
  records.foldl (fun s r => insert r s) []

end Snapshot

/-- A fixed view of chains, subnets and their validators. -/
structure Directory (Key : Type) where
  /-- The greatest height with a known validator set. -/
  height : Except MessageError UInt64
  /-- The subnet that validates a chain. -/
  subnetOf : Id → Except MessageError Id
  /-- The validators of a subnet at a height. -/
  snapshot : UInt64 → Id → Except MessageError (Snapshot Key)

namespace Directory

variable {Key Sig : Type} [AggregateScheme Key Sig]

/-- The subnet whose validators attest for a subnet: those of the receiving one attest for
the primary network. -/
def attestingSubnet (source own : Id) : Id :=
  if source = .primaryNetwork then own else source

/-- The canonical set of a subnet at a height. -/
def canonicalSet (d : Directory Key) (height : UInt64) (subnet : Id) :
    Except MessageError (ValidatorSet Key) := do
  ValidatorSet.ofRecords (← d.snapshot height subnet)

/-- The canonical set that attests for a chain at a height. -/
def sourceSet (d : Directory Key) (height : UInt64) (chain own : Id) :
    Except MessageError (ValidatorSet Key) := do
  let source ← d.subnetOf chain
  d.canonicalSet height (attestingSubnet source own)

end Directory

/-! ### Recorded validators -/

/-- What has been recorded about chains, subnets and heights, the latest facts first. -/
structure History (Key : Type) where
  height : UInt64 := 0
  /-- Chains and the subnets that validate them. -/
  chains : List (Id × Id) := []
  /-- Subnets and their validators from a height on. -/
  sets : List (Id × UInt64 × Snapshot Key) := []

namespace History

variable {Key : Type}

/-- The history in which `subnet` validates `chain` from now on. -/
def registerChain (h : History Key) (chain subnet : Id) : History Key :=
  { h with chains := (chain, subnet) :: h.chains }

/-- The history in which `subnet` has the given validators at `height`. -/
def record (h : History Key) (subnet : Id) (height : UInt64) (s : Snapshot Key) : History Key :=
  { h with sets := (subnet, height, s) :: h.sets, height := max h.height height }

/-- The history with another current height. -/
def setHeight (h : History Key) (height : UInt64) : History Key := { h with height }

/-- The greatest height not above `height` for which validators of `subnet` were recorded,
with those recorded last for it. -/
def latest (h : History Key) (height : UInt64) (subnet : Id) : Option (UInt64 × Snapshot Key) :=
  h.sets.foldr (fun (s, since, snapshot) best =>
    if s = subnet ∧ since ≤ height then
      match best with
      | some (b, old) => if b ≤ since then some (since, snapshot) else some (b, old)
      | none => some (since, snapshot)
    else best) none

/-- The view of the present state. -/
def directory (h : History Key) : Directory Key where
  height := .ok h.height
  subnetOf chain :=
    match h.chains.find? (·.1 = chain) with
    | some (_, subnet) => .ok subnet
    | none => .error (.unknownChain chain)
  snapshot height subnet :=
    match h.latest height subnet with
    | some (_, s) => .ok s
    | none => .error (.setUnavailable height.toNat subnet)

end History

end Interchain
