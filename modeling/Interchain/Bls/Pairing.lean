import Interchain.Bls.Curve

/-!
# The pairing

The groups of the pairing lie on the curve `y² = x³ + 4` over `Fp` and on its twist
`y² = x³ + 4 (1 + u)` over `Fp2`.  `pairingsCancel` says whether the product of the
pairings of some pairs of points is `1`.
-/

namespace Interchain.Bls

/-- A point of the curve over the base field. -/
abbrev G1 := Point Fp

/-- A point of the twist. -/
abbrev G2 := Point Fp2

/-- The constant term of the curve. -/
def curveConstant : Fp := 4

/-- The constant term of the twist. -/
def twistConstant : Fp2 := ⟨4, 4⟩

/-- The abscissa of the generator of the first group. -/
def generatorX : Fp :=
  0x17f1d3a73197d7942695638c4fa9ac0fc3688c4f9774b905a14e3a3f171bac586c55e83ff97a1aeffb3af00adb22c6bb

/-- The ordinate of the generator of the first group. -/
def generatorY : Fp :=
  0x08b3f481e3aaa0f1a09e30ed741d8ae4fcf5e095d5d00af600db18cb2c04b3edd03cc744a2888ae40caa232946c5e7e1

/-- The generator of the first group. -/
def generator : G1 := .affine generatorX generatorY

/-- A line through points of the twist, by its coefficients at `1`, `v` and `v * w`, of
which the second and third are yet to be scaled by the coordinates of a point. -/
structure Line where
  constant : Fp2
  alongX : Fp2
  alongY : Fp2

namespace Jacobian

/-- The double of a point of the twist and the tangent there. -/
def doubleWithTangent (r : Jacobian Fp2) : Jacobian Fp2 × Line :=
  let xx := square r.x
  let yy := square r.y
  let yyyy := square yy
  let s := square (yy + r.x) - xx - yyyy
  let s := s + s
  let m := xx + xx + xx
  let mm := square m
  let zz := square r.z
  let x := mm - s - s
  let z := square (r.z + r.y) - yy - zz
  let y4 := yyyy + yyyy
  let y4 := y4 + y4
  let y := (s - x) * m - (y4 + y4)
  let t := m * zz
  let yy2 := yy + yy
  let constant := square (r.x + m) - xx - mm - (yy2 + yy2)
  let zzz := z * zz
  (⟨x, y, z⟩, ⟨constant, -(t + t), zzz + zzz⟩)

/-- The sum of a point of the twist and the point `(qx, qy)`, and the chord through both. -/
def addWithChord (r : Jacobian Fp2) (qx qy : Fp2) : Jacobian Fp2 × Line :=
  let zz := square r.z
  let qyqy := square qy
  let t0 := zz * qx
  let t1 := (square (qy + r.z) - qyqy - zz) * zz
  let t2 := t0 - r.x
  let t3 := square t2
  let t4 := t3 + t3
  let t4 := t4 + t4
  let t5 := t4 * t2
  let t6 := t1 - r.y - r.y
  let t9 := t6 * qx
  let t7 := t4 * r.x
  let x := square t6 - t5 - t7 - t7
  let z := square (r.z + t2) - zz - t3
  let t8 := (t7 - x) * t6
  let t0 := r.y * t5
  let y := t8 - (t0 + t0)
  let t10 := square (qy + z) - qyqy - square z
  (⟨x, y, z⟩, ⟨t9 + t9 - t10, -(t6 + t6), z + z⟩)

end Jacobian

/-- A pair of points, neither infinity, with the running multiple of the second. -/
structure MillerPair where
  px : Fp
  py : Fp
  qx : Fp2
  qy : Fp2
  running : Jacobian Fp2

namespace MillerPair

/-- The pair at the start of the loop, unless one of the points is infinity. -/
def ofPoints? : G1 × G2 → Option MillerPair
  | (.affine px py, .affine qx qy) => some ⟨px, py, qx, qy, ⟨qx, qy, 1⟩⟩
  | _ => none

/-- The value times the line's value at the first point. -/
def applyLine (m : MillerPair) (f : Fp12) (l : Line) : Fp12 :=
  f.mulLine l.constant (l.alongX.scale m.px) (l.alongY.scale m.py)

/-- The doubling step for one pair. -/
def double (f : Fp12) (m : MillerPair) : Fp12 × MillerPair :=
  let (r, l) := m.running.doubleWithTangent
  (m.applyLine f l, { m with running := r })

/-- The addition step for one pair. -/
def add (f : Fp12) (m : MillerPair) : Fp12 × MillerPair :=
  let (r, l) := m.running.addWithChord m.qx m.qy
  (m.applyLine f l, { m with running := r })

/-- A step for every pair, with the values multiplied. -/
def forAll (step : Fp12 → MillerPair → Fp12 × MillerPair) (f : Fp12)
    (pairs : List MillerPair) : Fp12 × List MillerPair :=
  pairs.foldr (fun m (f, done) => let (f, m) := step f m; (f, m :: done)) (f, [])

end MillerPair

/-- The product of the values of the Miller loops of the pairs. -/
def millerLoop (pairs : List MillerPair) : Fp12 :=
  let step (state : Fp12 × List MillerPair) (one : Bool) : Fp12 × List MillerPair :=
    let (f, ps) := MillerPair.forAll MillerPair.double state.1.sq state.2
    if one then MillerPair.forAll MillerPair.add f ps else (f, ps)
  ((bits curveParameter).drop 1 |>.foldl step (1, pairs)).1.conj

/-- The power by the negative parameter of the curve, for an element whose inverse is its
conjugate. -/
def powerParameter (f : Fp12) : Fp12 := (f.pow curveParameter).conj

/-- A power that sends exactly the elements with trivial pairing value to `1`: three times
the quotient of the order of the multiplicative group by the order of the groups. -/
def finalPower (f : Fp12) : Fp12 :=
  let g := f.conj * f.inv
  let g := g.frobenius.frobenius * g
  let a := powerParameter g * g.conj
  let a := powerParameter a * a.conj
  let b := powerParameter a * a.frobenius
  let c := powerParameter (powerParameter b) * b.frobenius.frobenius * b.conj
  c * (g.sq * g)

/-- Whether the pairings of the pairs multiply to `1`. -/
def pairingsCancel (pairs : List (G1 × G2)) : Bool :=
  finalPower (millerLoop (pairs.filterMap MillerPair.ofPoints?)) = 1

end Interchain.Bls
