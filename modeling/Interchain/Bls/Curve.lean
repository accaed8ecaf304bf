import Interchain.Bls.Field

/-!
# Points of a curve

The curve `y² = x³ + b` over a field.  A `Point` is the point at infinity or a pair of
coordinates; sums and multiples are computed in Jacobian coordinates, where
`(x, y, z)` with `z ≠ 0` stands for the pair `(x / z², y / z³)`.
-/

namespace Interchain.Bls

variable {F : Type}

/-- A point of the plane, or the point at infinity. -/
inductive Point (F : Type) where
  | infinity
  | affine (x y : F)
deriving DecidableEq

/-- Jacobian coordinates; those with `z = 0` stand for the point at infinity. -/
structure Jacobian (F : Type) where
  x : F
  y : F
  z : F

namespace Jacobian

variable [FieldOps F]

/-- The point at infinity. -/
def infinity : Jacobian F := ⟨1, 1, 0⟩

/-- The sum of a point with itself. -/
@[specialize]
def double (p : Jacobian F) : Jacobian F :=
  let a := square p.x
  let b := square p.y
  let c := square b
  let d := square (p.x + b) - a - c
  let d := d + d
  let e := a + a + a
  let x := square e - (d + d)
  let c2 := c + c
  let c4 := c2 + c2
  let yz := p.y * p.z
  ⟨x, e * (d - x) - (c4 + c4), yz + yz⟩

variable [DecidableEq F]

/-- The sum of two points. -/
@[specialize]
def add (p q : Jacobian F) : Jacobian F :=
  if p.z = 0 then q
  else if q.z = 0 then p
  else
    let z1 := square p.z
    let z2 := square q.z
    let u1 := p.x * z2
    let u2 := q.x * z1
    let s1 := p.y * q.z * z2
    let s2 := q.y * p.z * z1
    let h := u2 - u1
    let r := s2 - s1
    if h = 0 then if r = 0 then p.double else infinity
    else
      let hh := square h
      let hhh := h * hh
      let v := u1 * hh
      let x := square r - hhh - (v + v)
      ⟨x, r * (v - x) - s1 * hhh, p.z * q.z * h⟩

/-- The sum of a point and the point `(x, y)`. -/
@[specialize]
def addAffine (p : Jacobian F) (x y : F) : Jacobian F :=
  if p.z = 0 then ⟨x, y, 1⟩
  else
    let zz := square p.z
    let h := x * zz - p.x
    let r := y * p.z * zz - p.y
    if h = 0 then if r = 0 then p.double else infinity
    else
      let hh := square h
      let hhh := h * hh
      let v := p.x * hh
      let x := square r - hhh - (v + v)
      ⟨x, r * (v - x) - p.y * hhh, p.z * h⟩

/-- The negative of a point. -/
def neg (p : Jacobian F) : Jacobian F := ⟨p.x, -p.y, p.z⟩

/-- The sum of `n` copies of a point. -/
@[specialize]
def multiple (p : Jacobian F) (n : Nat) : Jacobian F :=
  doubleAndAdd double (add p) infinity n

/-- The point that the coordinates stand for. -/
def toPoint (p : Jacobian F) : Point F :=
  if p.z = 0 then .infinity
  else
    let i := inverse p.z
    let ii := square i
    .affine (p.x * ii) (p.y * (ii * i))

end Jacobian

namespace Point

variable [FieldOps F] [DecidableEq F]

/-- Jacobian coordinates of a point. -/
def toJacobian : Point F → Jacobian F
  | infinity => .infinity
  | affine x y => ⟨x, y, 1⟩

/-- The sum of two points. -/
def add (p q : Point F) : Point F := (p.toJacobian.add q.toJacobian).toPoint

/-- The sum of `n` copies of a point, in Jacobian coordinates. -/
@[specialize]
def multiple (p : Point F) (n : Nat) : Jacobian F :=
  match p with
  | infinity => .infinity
  | affine x y => doubleAndAdd Jacobian.double (·.addAffine x y) .infinity n

/-- Whether `n` copies of the point sum to infinity. -/
def hasOrderDividing (n : Nat) (p : Point F) : Bool := (p.multiple n).z = 0

end Point

end Interchain.Bls
