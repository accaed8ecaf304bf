import Interchain.Message.Error

/-!
# Sets of signers

A set of validator indices, kept as the number whose bit `i` says whether `i` belongs to
it.  Its byte form is that number in the fewest bytes, so every set has one.  Long numbers
are taken apart by halves.
-/

namespace Interchain

/-- A set of validator indices. -/
@[ext]
structure Signers where
  /-- The number whose bit `i` says whether `i` is in the set. -/
  mask : Nat
deriving DecidableEq

namespace Signers

/-- The set without members. -/
def empty : Signers := ⟨0⟩

instance : Inhabited Signers := ⟨empty⟩

/-- The set with `i` put in. -/
def insert (s : Signers) (i : Nat) : Signers := ⟨s.mask ||| 1 <<< i⟩

/-- The set of the members of a list. -/
def ofList (l : List Nat) : Signers := l.foldl insert empty

/-- Whether `i` is in the set. -/
def contains (s : Signers) (i : Nat) : Bool := s.mask.testBit i

/-- One more than the greatest member, and `0` for the empty set. -/
def bound (s : Signers) : Nat := if s.mask = 0 then 0 else s.mask.log2 + 1

/-- The places of the one bits among the last `2 ^ cuts` bits of a number, in ascending
order and counted from `start`. -/
def places : (cuts start mask : Nat) → List Nat
  | 0, start, mask => if mask.testBit 0 then [start] else []
  | cuts + 1, start, mask =>
    if mask = 0 then []
    else
      let half := 1 <<< cuts
      places cuts start (mask % (1 <<< half)) ++ places cuts (start + half) (mask >>> half)

/-- The members, in ascending order. -/
def toList (s : Signers) : List Nat := places (s.bound.log2 + 1) 0 s.mask

/-- The number of members. -/
def size (s : Signers) : Nat := s.toList.length

/-- Whether the set has no members. -/
def isEmpty (s : Signers) : Bool := s.mask = 0

/-- The fewest bytes that hold the set. -/
def bytes (s : Signers) : Bytes :=
  let width := (s.bound + 7) / 8
  Bytes.ofNatByHalves width.log2 width s.mask

/-- The set with a byte form, which does not start with a zero byte. -/
def ofBytes (b : Bytes) : Except MessageError Signers :=
  if b.head? = some 0 then .error .nonCanonicalSigners else .ok ⟨b.toNatByHalves b.length.log2⟩

/-- The members between braces. -/
def text (s : Signers) : String :=
  "\x7b" ++ ", ".intercalate (s.toList.map toString) ++ "\x7d"

end Signers

end Interchain
