/-!
# Byte strings

A byte string is a list of bytes.  `Bytes.ofNat w n` is the big-endian form of `n` in
`w` bytes and `Bytes.toNat` the number a byte string denotes.  Both can be found by halves,
which is faster for long strings.  `FixedBytes n` are the byte strings of length `n`.
-/

namespace Interchain

/-- A byte string. -/
abbrev Bytes := List UInt8

namespace Bytes

/-- The number that a byte string denotes, most significant byte first. -/
def toNat (b : Bytes) : Nat :=
  b.foldl (fun acc x => acc * 256 + x.toNat) 0

/-- The big-endian form of `n` in `width` bytes, which keeps `n` modulo `256 ^ width`. -/
def ofNat : (width : Nat) → (n : Nat) → Bytes
  | 0, _ => []
  | width + 1, n => ofNat width (n / 256) ++ [UInt8.ofNat n]

/-- The number that a byte string denotes, found from those of its halves if it may be cut
so often. -/
def toNatByHalves : (cuts : Nat) → Bytes → Nat
  | 0, b => b.toNat
  | cuts + 1, b =>
    let low := b.length / 2
    let high := b.length - low
    toNatByHalves cuts (b.take high) <<< (8 * low) + toNatByHalves cuts (b.drop high)

/-- The big-endian form of `n` in `width` bytes, found by halves if it may be cut so often. -/
def ofNatByHalves : (cuts width n : Nat) → Bytes
  | 0, width, n => ofNat width n
  | cuts + 1, width, n =>
    let low := width / 2
    ofNatByHalves cuts (width - low) (n >>> (8 * low))
      ++ ofNatByHalves cuts low (n % (1 <<< (8 * low)))

/-- `n` zero bytes. -/
def zeros (n : Nat) : Bytes := List.replicate n 0

/-- The bytes of a 16-bit number, most significant first. -/
def ofUInt16 (x : UInt16) : Bytes := ofNat 2 x.toNat

/-- The bytes of a 32-bit number, most significant first. -/
def ofUInt32 (x : UInt32) : Bytes := ofNat 4 x.toNat

/-- The bytes of a 64-bit number, most significant first. -/
def ofUInt64 (x : UInt64) : Bytes := ofNat 8 x.toNat

/-- The segment of `len` bytes that starts at `start`, if it lies inside `b`. -/
def slice? (b : Bytes) (start len : Nat) : Option Bytes :=
  if start + len ≤ b.length then some ((b.drop start).take len) else none

/-- Whether one byte string comes before another, or is the same, in the order of the first
byte that differs. -/
def precedes (a b : Bytes) : Bool := decide (a ≤ b)

/-- The UTF-8 form of a text. -/
def ofText (s : String) : Bytes := s.toUTF8.toList

/-- The pieces of `size` bytes that make up `b`, the last one possibly shorter. -/
def chunks (size : Nat) (b : Bytes) : List Bytes :=
  if _h : b = [] ∨ size = 0 then [] else b.take size :: chunks size (b.drop size)
termination_by b.length
decreasing_by
  have := List.length_pos_iff.2 (fun hb => _h (.inl hb))
  simp only [List.length_drop]
  omega

@[simp]
theorem length_ofNat (width n : Nat) :
  (ofNat width n).length = width
  := by
  induction width generalizing n with
  | zero => rfl
  | succ width ih => simp [ofNat, ih]

end Bytes

/-- The byte strings of length `n`. -/
structure FixedBytes (n : Nat) where
  /-- The byte string. -/
  bytes : Bytes
  length_eq : bytes.length = n
deriving DecidableEq

namespace FixedBytes

variable {n : Nat}

@[ext]
theorem ext {a b : FixedBytes n} (h : a.bytes = b.bytes) :
  a = b
  := by
  cases a
  cases b
  congr

/-- The byte string as one of length `n`, if that is its length. -/
def ofBytes? (n : Nat) (b : Bytes) : Option (FixedBytes n) :=
  if h : b.length = n then some ⟨b, h⟩ else none

/-- The byte `x`, `n` times. -/
def replicate (n : Nat) (x : UInt8) : FixedBytes n :=
  ⟨List.replicate n x, List.length_replicate⟩

/-- The big-endian form of `x` in `n` bytes. -/
def ofNat (n x : Nat) : FixedBytes n :=
  ⟨Bytes.ofNat n x, Bytes.length_ofNat n x⟩

/-- The number that the byte string denotes. -/
def toNat (b : FixedBytes n) : Nat := b.bytes.toNat

/-- The byte string cut or padded with zeros at its end to length `n`. -/
def fit (n : Nat) (b : Bytes) : FixedBytes n :=
  ⟨b.take n ++ Bytes.zeros (n - b.length), by simp [Bytes.zeros]; omega⟩

instance : Inhabited (FixedBytes n) := ⟨replicate n 0⟩

@[simp]
theorem ofBytes?_bytes (b : FixedBytes n) :
  ofBytes? n b.bytes = some b
  := by
  simp [ofBytes?, b.length_eq]

@[simp]
theorem fit_bytes (b : FixedBytes n) :
  fit n b.bytes = b
  := by
  ext1
  simp [fit, Bytes.zeros, b.length_eq, List.take_of_length_le]

end FixedBytes

end Interchain
