import Interchain.Bls.HashToCurve
import Interchain.Hash.KeyedHash
import Interchain.Scheme

/-!
# Keys and signatures

Secret keys are scalars, public keys points of the first group, signatures points of the
second.  Byte forms are compressed: the abscissa, with flags in its three leading bits
for the compressed form, for infinity and for the larger of the two ordinates.
Decoding accepts exactly the compressed forms of finite points of the groups.
-/

namespace Interchain.Bls

/-- The domain separation tag of signatures. -/
def signatureTag : Bytes := Bytes.ofText "BLS_SIG_BLS12381G2_XMD:SHA-256_SSWU_RO_POP_"

/-! ### Byte forms -/

/-- The leading bits of a compressed form of `width` bits. -/
def flags (width : Nat) (infinite larger : Bool) : Nat :=
  (1 <<< (width - 1)) + (if infinite then 1 <<< (width - 2) else 0) +
    (if larger then 1 <<< (width - 3) else 0)

/-- The compressed form of a point of the first group. -/
def encodeG1 : G1 → FixedBytes 48
  | .infinity => .ofNat 48 (flags 384 true false)
  | .affine x y => .ofNat 48 (flags 384 false y.isLarger + x.val)

/-- The compressed form of a point of the second group. -/
def encodeG2 : G2 → FixedBytes 96
  | .infinity => .ofNat 96 (flags 768 true false)
  | .affine x y => .ofNat 96 (flags 768 false y.isLarger + (x.im.val <<< 384) + x.re.val)

/-- The element of the base field that a residue below the modulus stands for. -/
def Fp.ofResidue? (n : Nat) : Option Fp :=
  if h : n < modulus then some ⟨n, h⟩ else none

/-- The finite point of the first group with a compressed form. -/
def decodeG1? (b : FixedBytes 48) : Option G1 := do
  let n := b.toNat
  if !n.testBit 383 || n.testBit 382 then none
  let x ← Fp.ofResidue? (n % (1 <<< 381))
  let y ← (x * square x + curveConstant).sqrt?
  let p : G1 := .affine x (if y.isLarger = n.testBit 381 then y else -y)
  if p.hasOrderDividing groupOrder then some p else none

/-- The finite point of the second group with a compressed form. -/
def decodeG2? (b : FixedBytes 96) : Option G2 := do
  let n := b.toNat
  if !n.testBit 767 || n.testBit 766 then none
  let im ← Fp.ofResidue? ((n >>> 384) % (1 <<< 381))
  let re ← Fp.ofResidue? (n % (1 <<< 384))
  let x : Fp2 := ⟨re, im⟩
  let y ← (x * square x + twistConstant).sqrt?
  let p : G2 := .affine x (if y.isLarger = n.testBit 765 then y else -y)
  if p.hasOrderDividing groupOrder then some p else none

/-! ### Keys -/

/-- A scalar that is neither zero nor reducible. -/
structure SecretKey where
  scalar : Nat
  pos : 0 < scalar
  lt : scalar < groupOrder

/-- A key to check signatures with. -/
structure PublicKey where
  point : G1
deriving DecidableEq

/-- A signature, or a sum of signatures. -/
structure Signature where
  point : G2
deriving DecidableEq

namespace SecretKey

/-- The scalar `n`, if it is one. -/
def ofNat? (n : Nat) : Option SecretKey :=
  if h : 0 < n ∧ n < groupOrder then some ⟨n, h.1, h.2⟩ else none

/-- The key with a big-endian byte form. -/
def ofBytes (b : FixedBytes 32) : Except CryptoError SecretKey :=
  match ofNat? b.toNat with
  | some k => .ok k
  | none => .error .invalidSecretKey

/-- The big-endian byte form. -/
def bytes (k : SecretKey) : FixedBytes 32 := .ofNat 32 k.scalar

/-- The key derived from secret material: the first non-zero scalar that at most `tries`
rounds of salting yield. -/
def derive (material : FixedBytes 32) :
    (tries : Nat) → (salt : Bytes) → Except CryptoError SecretKey
  | 0, _ => .error (.keyDerivation "no scalar found")
  | tries + 1, salt =>
    let digest := KeyDerivation.extract salt (material.bytes ++ [0])
    let scalar := (KeyDerivation.expand digest.bytes [0, 48] 48).toNat % groupOrder
    match ofNat? scalar with
    | some k => .ok k
    | none => derive material tries (sha256 salt).bytes

/-- The key derived from 32 bytes of secret material. -/
def ofMaterial (material : FixedBytes 32) : Except CryptoError SecretKey :=
  derive material 256 (sha256 (Bytes.ofText "BLS-SIG-KEYGEN-SALT-")).bytes

/-- The public half of a key. -/
def publicKey (k : SecretKey) : PublicKey := ⟨(generator.multiple k.scalar).toPoint⟩

/-- The signature over a message. -/
def sign (k : SecretKey) (message : Bytes) : Signature :=
  ⟨((hashToG2 signatureTag message).multiple k.scalar).toPoint⟩

end SecretKey

namespace PublicKey

/-- The compressed form. -/
def bytes (k : PublicKey) : FixedBytes 48 := encodeG1 k.point

/-- The key with a compressed form. -/
def ofBytes (b : Bytes) : Except CryptoError PublicKey :=
  match FixedBytes.ofBytes? 48 b with
  | none => .error (.wrongLength .publicKey 48 b.length)
  | some b =>
    match decodeG1? b with
    | some p => .ok ⟨p⟩
    | none => .error .invalidPublicKey

/-- Whether a signature over a message is that of the key; never for the key that keys
can cancel to. -/
def verify (k : PublicKey) (message : Bytes) (s : Signature) : Bool :=
  k.point ≠ .infinity &&
    pairingsCancel
      [(.affine generatorX (-generatorY), s.point), (k.point, hashToG2 signatureTag message)]

end PublicKey

namespace Signature

/-- The compressed form. -/
def bytes (s : Signature) : FixedBytes 96 := encodeG2 s.point

/-- The signature with a compressed form. -/
def ofBytes (b : Bytes) : Except CryptoError Signature :=
  match FixedBytes.ofBytes? 96 b with
  | none => .error (.wrongLength .signature 96 b.length)
  | some b =>
    match decodeG2? b with
    | some p => .ok ⟨p⟩
    | none => .error .invalidSignature

end Signature

instance : AggregateScheme PublicKey Signature where
  encodeKey := PublicKey.bytes
  encodeSig := Signature.bytes
  decodeSig? b := (decodeG2? b).map Signature.mk
  addKeys k l := ⟨k.point.add l.point⟩
  addSigs s t := ⟨s.point.add t.point⟩
  verify := PublicKey.verify

end Interchain.Bls
