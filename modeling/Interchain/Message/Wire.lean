import Interchain.Message.Error

/-!
# The wire format

An encoding is a sequence of fields: integers of fixed width with the most significant
byte first, byte strings of known length, and byte strings behind their length in four
bytes.  A `Writer` appends fields up to a size limit; a `Reader` takes them off the
front of its input.  `Writing` is the work with a writer step by step, in which a field that
finds no room leaves the writer as it is.
-/

namespace Interchain

namespace Wire

/-- The version that every encoding starts with. -/
def version : UInt16 := 0

/-- The largest size of an encoding. -/
def maxSize : Nat := 262144

/-- A field of an encoding. -/
inductive Field where
  | u16 (value : UInt16)
  | u32 (value : UInt32)
  /-- Bytes whose number the reader knows. -/
  | fixed (value : Bytes)
  /-- Bytes behind their number. -/
  | counted (value : Bytes)

namespace Field

/-- The bytes of a field. -/
def bytes : Field → Bytes
  | u16 value => Bytes.ofUInt16 value
  | u32 value => Bytes.ofUInt32 value
  | fixed value => value
  | counted value => Bytes.ofNat 4 value.length ++ value

/-- Whether the number of bytes, where it is written, fits in its four bytes. -/
def isCountable : Field → Bool
  | counted value => value.length < UInt32.size
  | _ => true

end Field

/-- The field that every encoding starts with. -/
def header : Field := .u16 version

/-- What has been written, and the size that it may not pass. -/
structure Writer where
  max : Nat
  bytes : Bytes := []

namespace Writer

/-- What has been written with a field after it. -/
def put (w : Writer) (f : Field) : Except MessageError Writer :=
  if !f.isCountable then .error (.tooLarge (f.bytes.length - 4) w.max)
  else
    let size := w.bytes.length + f.bytes.length
    if w.max < size then .error (.tooLarge size w.max)
    else .ok { w with bytes := w.bytes ++ f.bytes }

end Writer

/-- A computation that appends to what has been written. -/
abbrev Writing := ExceptT MessageError (StateM Writer)

namespace Writing

/-- Checks that there is room for so many more bytes. -/
def reserve (additional : Nat) : Writing Unit := do
  let w ← get
  let size := w.bytes.length + additional
  if w.max < size then throw (.tooLarge size w.max)

/-- Appends bytes. -/
def append (b : Bytes) : Writing Unit :=
  modify fun w => { w with bytes := w.bytes ++ b }

/-- Writes a field. -/
def field : Field → Writing Unit
  | .u16 value => do
    reserve 2
    append (Bytes.ofUInt16 value)
  | .u32 value => do
    reserve 4
    append (Bytes.ofUInt32 value)
  | .fixed value => do
    reserve value.length
    append value
  | .counted value => do
    if UInt32.size ≤ value.length then throw (.tooLarge value.length (← get).max)
    reserve (4 + value.length)
    append (Bytes.ofNat 4 value.length)
    append value

end Writing

/-- The encoding of a sequence of fields, if it and its beginnings stay within `max`. -/
def write (max : Nat) (fields : List Field) : Except MessageError Bytes :=
  Writer.bytes <$> fields.foldlM Writer.put { max }

/-- A computation that takes fields off the front of its input. -/
abbrev Reader := ExceptT MessageError (StateM Bytes)

namespace Reader

/-- The next `n` bytes. -/
def take (n : Nat) : Reader Bytes := do
  let rest ← get
  if rest.length < n then throw (.truncated n rest.length)
  set (rest.drop n)
  return rest.take n

/-- The next two bytes as a number. -/
def u16 : Reader UInt16 := do
  return .ofNat (← take 2).toNat

/-- The next four bytes as a number. -/
def u32 : Reader UInt32 := do
  return .ofNat (← take 4).toNat

/-- The next `n` bytes. -/
def fixed (n : Nat) : Reader (FixedBytes n) := do
  return .fit n (← take n)

/-- The byte string that follows its length. -/
def counted : Reader Bytes := do
  let n := (← u32).toNat
  if maxSize < n then throw (.tooLarge n maxSize)
  take n

/-- The version that every encoding starts with. -/
def header : Reader Unit := do
  let v ← u16
  if v ≠ version then throw (.unsupportedVersion v.toNat)

/-- A result that does not depend on the input. -/
def lift {α : Type} (x : Except MessageError α) : Reader α := fun rest => (x, rest)

/-- The end of the input. -/
def finish : Reader Unit := do
  let rest ← get
  if rest ≠ [] then throw (.trailingBytes rest.length)

end Reader

/-- The result of reading the whole of a byte string that is not too large. -/
def read {α : Type} (r : Reader α) (b : Bytes) : Except MessageError α :=
  if maxSize < b.length then .error (.tooLarge b.length maxSize)
  else
    let whole : Reader α := do
      Reader.header
      let x ← r
      Reader.finish
      return x
    (whole b).1

end Wire

end Interchain
