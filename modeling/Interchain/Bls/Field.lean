/-!
# The fields of the pairing

The base field `Fp` of the curve BLS12-381 and the tower over it: `Fp2` adjoins a root
`u` of `-1`, `Fp6` a cube root `v` of `1 + u`, and `Fp12` a square root `w` of `v`.
Elements of `Fp` are kept reduced, so equal elements are equal as data.
-/

namespace Interchain.Bls

/-- The binary digits of `n`, most significant first. -/
def bits (n : Nat) : List Bool :=
  if n = 0 then [] else ((List.range (n.log2 + 1)).map n.testBit).reverse

/-- The result of reading the digits of `n` from the most significant one, doubling at
each digit and adding at each one digit. -/
@[specialize]
def doubleAndAdd {α : Type} (double add : α → α) (start : α) (n : Nat) : α :=
  (bits n).foldl (fun acc one => if one then add (double acc) else double acc) start

/-- The operations of a field. -/
class FieldOps (F : Type) extends Add F, Sub F, Mul F, Neg F, Zero F, One F where
  /-- The inverse, and `0` for `0`. -/
  inverse : F → F
  /-- The square. -/
  square : F → F

export FieldOps (inverse square)

/-- The power `a ^ n`. -/
@[specialize]
def power {F : Type} [One F] [Mul F] (a : F) (n : Nat) : F :=
  doubleAndAdd (fun x => x * x) (fun x => x * a) 1 n

/-! ### The base field -/

/-- The characteristic of the base field. -/
def modulus : Nat :=
  0x1a0111ea397fe69a4b1ba7b6434bacd764774b84f38512bf6730d2a0f6b0f6241eabfffeb153ffffb9feffffffffaaab

/-- The order of the groups. -/
def groupOrder : Nat :=
  0x73eda753299d7d483339d80809a1d80553bda402fffe5bfeffffffff00000001

/-- The absolute value of the negative number that parametrises the curve. -/
def curveParameter : Nat := 0xd201000000010000

theorem modulus_pos :
  0 < modulus
  := by decide

/-- The integers modulo `modulus`, represented by their least non-negative residues. -/
structure Fp where
  /-- The residue. -/
  val : Nat
  lt : val < modulus
deriving DecidableEq

namespace Fp

/-- The class of `n`. -/
@[inline]
def ofNat (n : Nat) : Fp := ⟨n % modulus, Nat.mod_lt _ modulus_pos⟩

instance (n : Nat) : OfNat Fp n := ⟨ofNat n⟩

@[inline]
def add (a b : Fp) : Fp :=
  let s := a.val + b.val
  if h : s < modulus then ⟨s, h⟩ else ⟨s - modulus, by have := a.lt; have := b.lt; omega⟩

@[inline]
def neg (a : Fp) : Fp :=
  if h : a.val = 0 then a else ⟨modulus - a.val, by have := a.lt; omega⟩

@[inline]
def sub (a b : Fp) : Fp :=
  if h : b.val ≤ a.val then ⟨a.val - b.val, by have := a.lt; omega⟩
  else ⟨a.val + modulus - b.val, by have := b.lt; omega⟩

instance : Zero Fp := ⟨0⟩
instance : One Fp := ⟨1⟩
instance : Add Fp := ⟨add⟩
instance : Sub Fp := ⟨sub⟩
instance : Neg Fp := ⟨neg⟩
instance : Mul Fp := ⟨fun a b => ofNat (a.val * b.val)⟩

instance : FieldOps Fp where
  inverse a := power a (modulus - 2)
  square a := a * a

/-- A square root, if there is one. -/
def sqrt? (a : Fp) : Option Fp :=
  let r := power a ((modulus + 1) / 4)
  if r * r = a then some r else none

/-- Whether the residue is larger than that of the negative. -/
def isLarger (a : Fp) : Bool := (modulus - 1) / 2 < a.val

end Fp

/-! ### The quadratic extension -/

/-- The element `re + im * u`, where `u * u = -1`. -/
structure Fp2 where
  re : Fp
  im : Fp
deriving DecidableEq

namespace Fp2

instance : Zero Fp2 := ⟨⟨0, 0⟩⟩
instance : One Fp2 := ⟨⟨1, 0⟩⟩
instance (n : Nat) : OfNat Fp2 n := ⟨⟨Fp.ofNat n, 0⟩⟩

/-- The sum. -/
def add (a b : Fp2) : Fp2 := ⟨a.re + b.re, a.im + b.im⟩

/-- The difference. -/
def sub (a b : Fp2) : Fp2 := ⟨a.re - b.re, a.im - b.im⟩

/-- The negative. -/
def neg (a : Fp2) : Fp2 := ⟨-a.re, -a.im⟩

instance : Add Fp2 := ⟨add⟩
instance : Sub Fp2 := ⟨sub⟩
instance : Neg Fp2 := ⟨neg⟩

/-- The product, with one reduction for each coordinate. -/
def mul (a b : Fp2) : Fp2 :=
  ⟨.ofNat (a.re.val * b.re.val + a.im.val * (modulus - b.im.val)),
    .ofNat (a.re.val * b.im.val + a.im.val * b.re.val)⟩

instance : Mul Fp2 := ⟨mul⟩

/-- The product of `a` and `a`. -/
def sq (a : Fp2) : Fp2 :=
  ⟨.ofNat ((a.re.val + a.im.val) * (a.re.val + (modulus - a.im.val))),
    .ofNat (2 * (a.re.val * a.im.val))⟩

/-- The conjugate `re - im * u`, which is the `modulus`-th power. -/
def conj (a : Fp2) : Fp2 := ⟨a.re, -a.im⟩

/-- The product with an element of the base field. -/
def scale (a : Fp2) (c : Fp) : Fp2 := ⟨a.re * c, a.im * c⟩

/-- The element `1 + u`, whose cube root and square root build the tower. -/
def xi : Fp2 := ⟨1, 1⟩

/-- The product with `1 + u`. -/
def mulXi (a : Fp2) : Fp2 := ⟨a.re - a.im, a.re + a.im⟩

instance : FieldOps Fp2 where
  inverse a :=
    let n := inverse (a.re * a.re + a.im * a.im)
    ⟨a.re * n, -(a.im * n)⟩
  square := sq

/-- The power by repeated squaring. -/
def pow (a : Fp2) (n : Nat) : Fp2 := doubleAndAdd sq (· * a) 1 n

/-- A square root, if there is one. -/
def sqrt? (a : Fp2) : Option Fp2 :=
  let s := pow a ((modulus - 3) / 4)
  let x := s * a
  let d := s * x
  let r := if d = -1 then ⟨-x.im, x.re⟩ else pow (1 + d) ((modulus - 1) / 2) * x
  if sq r = a then some r else none

/-- Whether the element is larger than its negative, comparing `im` before `re`. -/
def isLarger (a : Fp2) : Bool := if a.im = 0 then a.re.isLarger else a.im.isLarger

/-- The parity of the first non-zero coordinate. -/
def isOdd (a : Fp2) : Bool :=
  a.re.val % 2 = 1 || (a.re.val = 0 && a.im.val % 2 = 1)

end Fp2

/-! ### The sextic extension -/

/-- The element `c0 + c1 * v + c2 * v²`, where `v * v * v = 1 + u`. -/
structure Fp6 where
  c0 : Fp2
  c1 : Fp2
  c2 : Fp2
deriving DecidableEq

namespace Fp6

instance : Zero Fp6 := ⟨⟨0, 0, 0⟩⟩
instance : One Fp6 := ⟨⟨1, 0, 0⟩⟩

/-- The sum. -/
def add (a b : Fp6) : Fp6 := ⟨a.c0 + b.c0, a.c1 + b.c1, a.c2 + b.c2⟩

/-- The difference. -/
def sub (a b : Fp6) : Fp6 := ⟨a.c0 - b.c0, a.c1 - b.c1, a.c2 - b.c2⟩

/-- The negative. -/
def neg (a : Fp6) : Fp6 := ⟨-a.c0, -a.c1, -a.c2⟩

instance : Add Fp6 := ⟨add⟩
instance : Sub Fp6 := ⟨sub⟩
instance : Neg Fp6 := ⟨neg⟩

/-- The product. -/
def mul (a b : Fp6) : Fp6 :=
  let t0 := a.c0 * b.c0
  let t1 := a.c1 * b.c1
  let t2 := a.c2 * b.c2
  ⟨((a.c1 + a.c2) * (b.c1 + b.c2) - t1 - t2).mulXi + t0,
    (a.c0 + a.c1) * (b.c0 + b.c1) - t0 - t1 + t2.mulXi,
    (a.c0 + a.c2) * (b.c0 + b.c2) - t0 - t2 + t1⟩

instance : Mul Fp6 := ⟨mul⟩

/-- The product with `v`. -/
def mulV (a : Fp6) : Fp6 := ⟨a.c2.mulXi, a.c0, a.c1⟩

/-- The product with `b0 + b1 * v`. -/
def mulLinear (a : Fp6) (b0 b1 : Fp2) : Fp6 :=
  let t0 := a.c0 * b0
  let t1 := a.c1 * b1
  ⟨(a.c2 * b1).mulXi + t0, (a.c0 + a.c1) * (b0 + b1) - t0 - t1, a.c2 * b0 + t1⟩

/-- The product with `b1 * v`. -/
def mulMonomial (a : Fp6) (b1 : Fp2) : Fp6 := ⟨(a.c2 * b1).mulXi, a.c0 * b1, a.c1 * b1⟩

instance : FieldOps Fp6 where
  inverse a :=
    let t0 := square a.c0 - (a.c1 * a.c2).mulXi
    let t1 := (square a.c2).mulXi - a.c0 * a.c1
    let t2 := square a.c1 - a.c0 * a.c2
    let n := inverse (a.c0 * t0 + (a.c2 * t1 + a.c1 * t2).mulXi)
    ⟨t0 * n, t1 * n, t2 * n⟩
  square a := a * a

/-- The `modulus`-th power of `v`, as a multiple of `v`. -/
def frobeniusV : Fp2 := Fp2.xi.pow ((modulus - 1) / 3)

/-- The `modulus`-th power of `v²`, as a multiple of `v²`. -/
def frobeniusV2 : Fp2 := Fp2.xi.pow ((2 * modulus - 2) / 3)

/-- The `modulus`-th power. -/
def frobenius (a : Fp6) : Fp6 :=
  ⟨a.c0.conj, a.c1.conj * frobeniusV, a.c2.conj * frobeniusV2⟩

end Fp6

/-! ### The extension that holds the pairing's values -/

/-- The element `c0 + c1 * w`, where `w * w = v`. -/
structure Fp12 where
  c0 : Fp6
  c1 : Fp6
deriving DecidableEq

namespace Fp12

instance : One Fp12 := ⟨⟨1, 0⟩⟩

/-- The product. -/
def mul (a b : Fp12) : Fp12 :=
  let t0 := a.c0 * b.c0
  let t1 := a.c1 * b.c1
  ⟨t0 + t1.mulV, (a.c0 + a.c1) * (b.c0 + b.c1) - t0 - t1⟩

instance : Mul Fp12 := ⟨mul⟩

/-- The product of `a` and `a`. -/
def sq (a : Fp12) : Fp12 :=
  let t := a.c0 * a.c1
  ⟨(a.c0 + a.c1) * (a.c0 + a.c1.mulV) - t - t.mulV, t + t⟩

/-- The conjugate `c0 - c1 * w`. -/
def conj (a : Fp12) : Fp12 := ⟨a.c0, -a.c1⟩

/-- The inverse, and `0` for `0`. -/
def inv (a : Fp12) : Fp12 :=
  let n := inverse (square a.c0 - (square a.c1).mulV)
  ⟨a.c0 * n, -(a.c1 * n)⟩

/-- The product with `b0 + b1 * v + b4 * v * w`, the shape of a line's value. -/
def mulLine (a : Fp12) (b0 b1 b4 : Fp2) : Fp12 :=
  let t0 := a.c0.mulLinear b0 b1
  let t1 := a.c1.mulMonomial b4
  ⟨t1.mulV + t0, (a.c0 + a.c1).mulLinear b0 (b1 + b4) - t0 - t1⟩

/-- The `modulus`-th power of `w`, as a multiple of `w`. -/
def frobeniusW : Fp2 := Fp2.xi.pow ((modulus - 1) / 6)

/-- The `modulus`-th power. -/
def frobenius (a : Fp12) : Fp12 :=
  let b := a.c1.frobenius
  ⟨a.c0.frobenius, ⟨b.c0 * frobeniusW, b.c1 * frobeniusW, b.c2 * frobeniusW⟩⟩

/-- The power by repeated squaring. -/
def pow (a : Fp12) (n : Nat) : Fp12 := doubleAndAdd sq (· * a) 1 n

end Fp12

end Interchain.Bls
