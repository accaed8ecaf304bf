import Interchain.Bls.Pairing
import Interchain.Hash.Sha256

/-!
# Hashing to the second group

`hashToG2 tag message` is a point of the second group that depends on the message and
on a domain separation tag.  The message is expanded to four field elements, each pair
of which is mapped to a curve with a 3-isogeny to the twist; the images are added, and a
multiple of the sum lies in the group.
-/

namespace Interchain.Bls

/-- `len` bytes that depend on the message and the tag. -/
def expandMessage (tag message : Bytes) (len : Nat) : Bytes :=
  let suffix := tag ++ [UInt8.ofNat tag.length]
  let first := (sha256 (Bytes.zeros 64 ++ message ++ Bytes.ofNat 2 len ++ [0] ++ suffix)).bytes
  let step (state : Bytes × Bytes) (i : Nat) : Bytes × Bytes :=
    let mixed := List.zipWith (· ^^^ ·) first state.2
    let next := (sha256 (mixed ++ [UInt8.ofNat (i + 1)] ++ suffix)).bytes
    (state.1 ++ next, next)
  ((List.range ((len + 31) / 32)).foldl step ([], Bytes.zeros 32)).1.take len

/-- Two elements of `Fp2` that depend on the message and the tag. -/
def hashToField (tag message : Bytes) : Fp2 × Fp2 :=
  let expanded := expandMessage tag message 256
  let element (i : Nat) : Fp := .ofNat (Bytes.toNat ((expanded.drop (64 * i)).take 64))
  (⟨element 0, element 1⟩, ⟨element 2, element 3⟩)

/-- The linear coefficient of the curve isogenous to the twist. -/
def isogenousA : Fp2 := ⟨0, 240⟩

/-- The constant coefficient of the curve isogenous to the twist. -/
def isogenousB : Fp2 := ⟨1012, 1012⟩

/-- The non-square that the map to the isogenous curve uses. -/
def mapConstant : Fp2 := ⟨-2, -1⟩

/-- A point of the isogenous curve: of two candidates for its abscissa, the first that is
one. -/
def mapToIsogenous (t : Fp2) : Fp2 × Fp2 :=
  let zt := mapConstant * square t
  let d := square zt + zt
  let ratio := isogenousB * inverse isogenousA
  let x1 :=
    if d = 0 then ratio * inverse mapConstant else -(ratio * (1 + inverse d))
  let value (x : Fp2) : Fp2 := (square x + isogenousA) * x + isogenousB
  let (x, y) :=
    match (value x1).sqrt? with
    | some y => (x1, y)
    | none => (zt * x1, (value (zt * x1)).sqrt?.getD 0)
  (x, if y.isOdd = t.isOdd then y else -y)

/-- The image under the 3-isogeny to the twist. -/
def isogeny (x y : Fp2) : Jacobian Fp2 :=
  let c : Fp2 := ⟨1, -1⟩
  let d : Fp2 := ⟨1, 1⟩
  let u : Fp2 := ⟨0, 1⟩
  let xx := square x
  let xxx := xx * x
  let root := x + 6 * c
  ⟨xxx + 12 * c * xx - 24 * u * x + 304 * d,
    y * (752 * d + 264 * u * x - 18 * c * xx - xxx),
    3 * root⟩

/-- The factor of the abscissa in `twistFrobenius`. -/
def twistFrobeniusX : Fp2 := inverse (Fp2.xi.pow ((modulus - 1) / 3))

/-- The factor of the ordinate in `twistFrobenius`. -/
def twistFrobeniusY : Fp2 := inverse (Fp2.xi.pow ((modulus - 1) / 2))

/-- The endomorphism of the twist that the Frobenius map of the curve induces. -/
def twistFrobenius (p : Jacobian Fp2) : Jacobian Fp2 :=
  ⟨p.x.conj * twistFrobeniusX, p.y.conj * twistFrobeniusY, p.z.conj⟩

/-- The multiple of a point by the negative parameter of the curve. -/
def multipleParameter (p : Jacobian Fp2) : Jacobian Fp2 := (p.multiple curveParameter).neg

/-- A fixed multiple of a point of the twist, which lies in the group. -/
def clearCofactor (p : Jacobian Fp2) : Jacobian Fp2 :=
  let xp := multipleParameter p
  let t := xp.add p.neg
  ((multipleParameter t).add p.neg).add
    ((twistFrobenius t).add (twistFrobenius (twistFrobenius p.double)))

/-- The point of the second group that belongs to a message. -/
def hashToG2 (tag message : Bytes) : G2 :=
  let (s, t) := hashToField tag message
  let image (t : Fp2) : Jacobian Fp2 := let (x, y) := mapToIsogenous t; isogeny x y
  (clearCofactor ((image s).add (image t))).toPoint

end Interchain.Bls
