import Interchain.Bytes

/-!
# Keccak-256

`keccak256 b` is the Keccak digest of `b` with rate 136 and the padding that puts a
single one bit after the message.  The state is the list of its 25 lanes, the lane
in column `x` and row `y` at position `x + 5 * y`.
-/

namespace Interchain

namespace Keccak256

/-- The number of bytes taken in between two permutations. -/
def rate : Nat := 136

/-- The 25 lanes of a state. -/
abbrev Lanes := Array UInt64

/-- The constants added in the 24 rounds. -/
def roundConstants : List UInt64 :=
  [0x0000000000000001, 0x0000000000008082, 0x800000000000808a, 0x8000000080008000,
   0x000000000000808b, 0x0000000080000001, 0x8000000080008081, 0x8000000000008009,
   0x000000000000008a, 0x0000000000000088, 0x0000000080008009, 0x000000008000000a,
   0x000000008000808b, 0x800000000000008b, 0x8000000000008089, 0x8000000000008003,
   0x8000000000008002, 0x8000000000000080, 0x000000000000800a, 0x800000008000000a,
   0x8000000080008081, 0x8000000000008080, 0x0000000080000001, 0x8000000080008008]

/-- The rotation of each lane. -/
def rotations : Array UInt64 :=
  #[0, 1, 62, 28, 27, 36, 44, 6, 55, 20, 3, 10, 43, 25, 39, 41, 45, 15, 21, 8, 18, 2, 61, 56, 14]

/-- The lane that moves to each position: position `x + 5 * y` receives the lane in
column `x + 3 * y` and row `x`. -/
def sources : Array Nat :=
  Array.ofFn fun i : Fin 25 => (i.val % 5 + 3 * (i.val / 5)) % 5 + 5 * (i.val % 5)

/-- The lane rotated left by `n` bits, for `n < 64`. -/
@[inline]
def rotateLeft (x : UInt64) (n : UInt64) : UInt64 := (x <<< n) ||| (x >>> (64 - n))

/-- Lane `i`. -/
@[inline]
def lane (s : Lanes) (i : Nat) : UInt64 := s.getD i 0

/-- The exclusive or of every lane with the parities of two columns. -/
def mixColumns (s : Lanes) : Lanes :=
  let parity : Array UInt64 := Array.ofFn fun x : Fin 5 =>
    lane s x.val ^^^ lane s (x.val + 5) ^^^ lane s (x.val + 10) ^^^ lane s (x.val + 15)
      ^^^ lane s (x.val + 20)
  let effect : Array UInt64 := Array.ofFn fun x : Fin 5 =>
    lane parity ((x.val + 4) % 5) ^^^ rotateLeft (lane parity ((x.val + 1) % 5)) 1
  Array.ofFn fun i : Fin 25 => lane s i.val ^^^ lane effect (i.val % 5)

/-- The lanes rotated and moved to their new positions. -/
def rearrange (s : Lanes) : Lanes :=
  Array.ofFn fun i : Fin 25 =>
    let from' := sources.getD i.val 0
    rotateLeft (lane s from') (lane rotations from')

/-- The nonlinear step along each row. -/
def mixRows (s : Lanes) : Lanes :=
  Array.ofFn fun i : Fin 25 =>
    let row := 5 * (i.val / 5)
    lane s i.val ^^^
      ((~~~ lane s (row + (i.val + 1) % 5)) &&& lane s (row + (i.val + 2) % 5))

/-- One round of the permutation. -/
def round (s : Lanes) (c : UInt64) : Lanes :=
  let t := mixRows (rearrange (mixColumns s))
  t.setIfInBounds 0 (lane t 0 ^^^ c)

/-- The permutation of the state. -/
def permute (s : Lanes) : Lanes := roundConstants.foldl round s

/-- The lane that eight bytes denote, least significant byte first. -/
def laneOfBytes (b : Bytes) : UInt64 :=
  b.foldr (fun x acc => (acc <<< 8) ||| x.toUInt64) 0

/-- The bytes of a lane, least significant byte first. -/
def laneBytes (x : UInt64) : Bytes := (Bytes.ofUInt64 x).reverse

/-- The state after one more block of `rate` bytes. -/
def absorbBlock (s : Lanes) (block : Bytes) : Lanes :=
  let words := ((block.chunks 8).map laneOfBytes).toArray
  permute (Array.ofFn fun i : Fin 25 => lane s i.val ^^^ lane words i.val)

/-- The message followed by a one bit, zeros and a last one bit, in whole blocks. -/
def pad (b : Bytes) : Bytes :=
  let free := rate - b.length % rate
  if free = 1 then b ++ [0x81] else b ++ (0x01 :: Bytes.zeros (free - 2) ++ [0x80])

/-- The state after the first `n` blocks of `b`. -/
def absorb : (n : Nat) → Lanes → Bytes → Lanes
  | 0, s, _ => s
  | n + 1, s, b => absorb n (absorbBlock s (b.take rate)) (b.drop rate)

end Keccak256

/-- The Keccak-256 digest of a byte string. -/
def keccak256 (b : Bytes) : FixedBytes 32 :=
  let padded := Keccak256.pad b
  let s := Keccak256.absorb (padded.length / Keccak256.rate) (Array.replicate 25 0) padded
  ⟨[0, 1, 2, 3].flatMap fun i => Keccak256.laneBytes (Keccak256.lane s i), by
    simp [Keccak256.laneBytes, Bytes.ofUInt64]⟩

end Interchain
