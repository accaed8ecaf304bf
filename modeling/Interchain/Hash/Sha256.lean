import Interchain.Bytes

/-!
# SHA-256

`sha256 b` is the SHA-256 digest of `b`.  A message is padded to whole blocks of 64
bytes, each block is expanded to a schedule of 64 words, and the schedule is mixed
into the chaining state round by round.
-/

namespace Interchain

namespace Sha256

/-- The eight words of a chaining state. -/
structure State where
  a : UInt32
  b : UInt32
  c : UInt32
  d : UInt32
  e : UInt32
  f : UInt32
  g : UInt32
  h : UInt32

namespace State

/-- The state before the first block. -/
def initial : State :=
  ⟨0x6a09e667, 0xbb67ae85, 0x3c6ef372, 0xa54ff53a, 0x510e527f, 0x9b05688c, 0x1f83d9ab,
    0x5be0cd19⟩

/-- Componentwise addition modulo `2 ^ 32`. -/
def add (s t : State) : State :=
  ⟨s.a + t.a, s.b + t.b, s.c + t.c, s.d + t.d, s.e + t.e, s.f + t.f, s.g + t.g, s.h + t.h⟩

/-- The eight words in order. -/
def words (s : State) : List UInt32 := [s.a, s.b, s.c, s.d, s.e, s.f, s.g, s.h]

end State

/-- The round constants. -/
def roundConstants : List UInt32 :=
  [0x428a2f98, 0x71374491, 0xb5c0fbcf, 0xe9b5dba5, 0x3956c25b, 0x59f111f1, 0x923f82a4, 0xab1c5ed5,
   0xd807aa98, 0x12835b01, 0x243185be, 0x550c7dc3, 0x72be5d74, 0x80deb1fe, 0x9bdc06a7, 0xc19bf174,
   0xe49b69c1, 0xefbe4786, 0x0fc19dc6, 0x240ca1cc, 0x2de92c6f, 0x4a7484aa, 0x5cb0a9dc, 0x76f988da,
   0x983e5152, 0xa831c66d, 0xb00327c8, 0xbf597fc7, 0xc6e00bf3, 0xd5a79147, 0x06ca6351, 0x14292967,
   0x27b70a85, 0x2e1b2138, 0x4d2c6dfc, 0x53380d13, 0x650a7354, 0x766a0abb, 0x81c2c92e, 0x92722c85,
   0xa2bfe8a1, 0xa81a664b, 0xc24b8b70, 0xc76c51a3, 0xd192e819, 0xd6990624, 0xf40e3585, 0x106aa070,
   0x19a4c116, 0x1e376c08, 0x2748774c, 0x34b0bcb5, 0x391c0cb3, 0x4ed8aa4a, 0x5b9cca4f, 0x682e6ff3,
   0x748f82ee, 0x78a5636f, 0x84c87814, 0x8cc70208, 0x90befffa, 0xa4506ceb, 0xbef9a3f7, 0xc67178f2]

/-- The word rotated right by `n` bits, for `0 < n < 32`. -/
@[inline]
def rotateRight (x : UInt32) (n : UInt32) : UInt32 := (x >>> n) ||| (x <<< (32 - n))

/-- One round, with the sum of schedule word and round constant. -/
@[inline]
def round (s : State) (word : UInt32) : State :=
  let choice := (s.e &&& s.f) ^^^ ((~~~ s.e) &&& s.g)
  let majority := (s.a &&& s.b) ^^^ (s.a &&& s.c) ^^^ (s.b &&& s.c)
  let bigE := rotateRight s.e 6 ^^^ rotateRight s.e 11 ^^^ rotateRight s.e 25
  let bigA := rotateRight s.a 2 ^^^ rotateRight s.a 13 ^^^ rotateRight s.a 22
  let t := s.h + bigE + choice + word
  ⟨t + bigA + majority, s.a, s.b, s.c, s.d + t, s.e, s.f, s.g⟩

/-- The words of a block, most significant byte first. -/
def blockWords : Bytes → List UInt32
  | a :: b :: c :: d :: rest =>
    ((a.toUInt32 <<< 24) ||| (b.toUInt32 <<< 16) ||| (c.toUInt32 <<< 8) ||| d.toUInt32)
      :: blockWords rest
  | _ => []

/-- The schedule `w` with its next word, which depends on the last sixteen. -/
@[inline]
def extendSchedule (w : Array UInt32) : Array UInt32 :=
  let at' (i : Nat) : UInt32 := w.getD (w.size - i) 0
  let x := at' 15
  let y := at' 2
  let small0 := rotateRight x 7 ^^^ rotateRight x 18 ^^^ (x >>> 3)
  let small1 := rotateRight y 17 ^^^ rotateRight y 19 ^^^ (y >>> 10)
  w.push (at' 16 + small0 + at' 7 + small1)

/-- The 64 words that a block of 64 bytes expands to. -/
def schedule (block : Bytes) : Array UInt32 :=
  (List.range 48).foldl (fun w _ => extendSchedule w) (blockWords block).toArray

/-- The chaining state after one more block. -/
def compress (s : State) (block : Bytes) : State :=
  let words := List.zipWith (· + ·) (schedule block).toList roundConstants
  s.add (words.foldl round s)

/-- The message followed by a one bit, zeros, and its length in bits, in whole blocks. -/
def pad (b : Bytes) : Bytes :=
  b ++ (0x80 :: Bytes.zeros ((119 - b.length % 64) % 64) ++ Bytes.ofNat 8 (8 * b.length))

/-- The state after the first `n` blocks of `b`. -/
def absorb : (n : Nat) → State → Bytes → State
  | 0, s, _ => s
  | n + 1, s, b => absorb n (compress s (b.take 64)) (b.drop 64)

end Sha256

/-- The SHA-256 digest of a byte string. -/
def sha256 (b : Bytes) : FixedBytes 32 :=
  let padded := Sha256.pad b
  let s := Sha256.absorb (padded.length / 64) .initial padded
  ⟨s.words.flatMap Bytes.ofUInt32, by
    simp [Sha256.State.words, Bytes.ofUInt32]⟩

end Interchain
