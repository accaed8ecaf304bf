import Interchain.Bytes
import Interchain.Text.Json

/-!
# JSON forms

Names are exchanged as JSON arrays of their bytes, fractions as records of two numbers.
A fraction that is exchanged need not be a quorum.
-/

namespace Interchain

namespace FixedBytes

variable {n : Nat}

/-- The array of the bytes. -/
def toJson (b : FixedBytes n) : String :=
  "[" ++ ",".intercalate (b.bytes.map fun x => toString x.toNat) ++ "]"

/-- The byte string of length `n` whose bytes an array lists. -/
def ofJson? (n : Nat) (text : String) : Option (FixedBytes n) := do
  ofBytes? n (← (← JsonValue.parse text).bytes?)

end FixedBytes

/-- Two numbers, the one to be divided by the other. -/
structure Fraction where
  numerator : UInt64
  denominator : UInt64
deriving DecidableEq

namespace Fraction

/-- The record of the two numbers. -/
def toJson (f : Fraction) : String :=
  "\x7b\"numerator\":" ++ toString f.numerator.toNat ++
    ",\"denominator\":" ++ toString f.denominator.toNat ++ "\x7d"

/-- The fraction that a record gives. -/
def ofJson? (text : String) : Option Fraction := do
  let v ← JsonValue.parse text
  let [some n, some d] ← v.fields? ["numerator", "denominator"] | none
  return ⟨.ofNat (← n.natBelow? UInt64.size), .ofNat (← d.natBelow? UInt64.size)⟩

end Fraction

end Interchain
