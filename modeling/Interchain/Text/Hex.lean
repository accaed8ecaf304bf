import Interchain.Bytes
import Interchain.Text.Quoted

/-!
# Hexadecimal text

`Hex.encode` writes each byte with two lower-case digits; `Hex.decode` reads pairs of
digits of either case and says what is wrong with a text that is not made of them.
-/

namespace Interchain

namespace Hex

/-- What is wrong with a text that is not a sequence of digit pairs. -/
inductive Malformed where
  | oddLength
  | notADigit (byte : UInt8) (position : Nat)
deriving DecidableEq

/-- The wording of an error. -/
def Malformed.message : Malformed → String
  | oddLength => "Odd number of digits"
  | notADigit byte position =>
    s!"Invalid character {quoteChar (Char.ofNat byte.toNat)} at position {position}"

/-- The digit for a value below 16. -/
def digit (n : UInt8) : UInt8 := if n < 10 then n + 48 else n + 87

/-- The value of a digit of either case. -/
def digitValue? (c : UInt8) : Option UInt8 :=
  if 48 ≤ c && c ≤ 57 then some (c - 48)
  else if 97 ≤ c && c ≤ 102 then some (c - 87)
  else if 65 ≤ c && c ≤ 70 then some (c - 55)
  else none

/-- The two digits of every byte. -/
def digits (b : Bytes) : Bytes :=
  b.flatMap fun x => [digit (x / 16), digit (x % 16)]

/-- The text of a byte string. -/
def encode (b : Bytes) : String :=
  String.ofList ((digits b).map fun c => Char.ofNat c.toNat)

/-- The value of the digit at a position. -/
def digitAt (position : Nat) (c : UInt8) : Except Malformed UInt8 :=
  match digitValue? c with
  | some v => .ok v
  | none => .error (.notADigit c position)

/-- The bytes that pairs of digits denote, the first pair standing at `position`; a single
digit at the end is left out. -/
def decodePairs (position : Nat) : Bytes → Except Malformed Bytes
  | hi :: lo :: rest => do
    let h ← digitAt position hi
    let l ← digitAt (position + 1) lo
    let tail ← decodePairs (position + 2) rest
    return (h * 16 + l) :: tail
  | _ => .ok []

/-- The bytes that a sequence of digits denotes. -/
def decode (text : Bytes) : Except Malformed Bytes :=
  if text.length % 2 = 1 then .error .oddLength else decodePairs 0 text

end Hex

end Interchain
