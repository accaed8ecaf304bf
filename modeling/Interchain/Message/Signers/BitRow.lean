import Interchain.Message.Error

/-!
# Rows of bits

A set of validator indices as a row of bits, one for each index from zero on, as far as bits are
stored.  The row gets longer when an index beyond its end is put in, and two rows are the same only
if they store as many bits.  In its byte form the bits are packed into bytes, the bit of index zero
last.
-/

namespace Interchain

/-- Bits for the indices from zero on. -/
structure BitRow where
  bits : List Bool
deriving DecidableEq

namespace BitRow

/-- The row without bits. -/
def empty : BitRow := ⟨[]⟩

instance : Inhabited BitRow := ⟨empty⟩

/-- The row with the bit of `i` set, and with zeros in between if it ended before. -/
def insert (r : BitRow) (i : Nat) : BitRow :=
  ⟨(r.bits ++ List.replicate (i + 1 - r.bits.length) false).set i true⟩

/-- The row in which the bits of a list were set one after another. -/
def ofList (l : List Nat) : BitRow := l.foldl insert empty

/-- Whether the bit of `i` is stored and set. -/
def contains (r : BitRow) (i : Nat) : Bool := r.bits[i]?.getD false

/-- The indices of the bits that are set, in ascending order. -/
def toList (r : BitRow) : List Nat :=
  r.bits.zipIdx.filterMap fun (bit, i) => if bit then some i else none

/-- The number of bits that are set. -/
def size (r : BitRow) : Nat := r.bits.count true

/-- One more than the index of the last bit that is set, and `0` if there is none. -/
def bound (r : BitRow) : Nat :=
  match r.toList.getLast? with
  | some i => i + 1
  | none => 0

/-- Whether no bit is set. -/
def isEmpty (r : BitRow) : Bool := !r.bits.any id

/-- The bytes with one more bit set, counted from their end. -/
def setBit (b : Array UInt8) (i : Nat) : Array UInt8 :=
  b.modify (b.size - 1 - i / 8) (· ||| 1 <<< UInt8.ofNat (i % 8))

/-- The fewest bytes that hold the bits that are set. -/
def bytes (r : BitRow) : Bytes :=
  (r.toList.foldl setBit (.replicate ((r.bound + 7) / 8) 0)).toList

/-- The bits of a byte, the least significant one first. -/
def bitsOf (x : UInt8) : List Bool := (List.range 8).map x.toNat.testBit

/-- The row with a byte form, which does not start with a zero byte.  No bit is stored behind the
last one that is set. -/
def ofBytes (b : Bytes) : Except MessageError BitRow :=
  if b.head? = some 0 then .error .nonCanonicalSigners
  else
    let r : BitRow := ⟨b.reverse.flatMap bitsOf⟩
    .ok ⟨r.bits.take r.bound⟩

end BitRow

end Interchain
