import Interchain.Bytes

/-!
# Aggregatable signatures

`AggregateScheme Key Sig` is what the rest of the library asks of a signature scheme:
keys and signatures have byte forms, they can be added up, and a signature can be
checked against a key.  `CryptoError` lists what can go wrong when they are decoded,
derived or combined.
-/

namespace Interchain

/-- What a byte form or an aggregate is made of. -/
inductive Material where
  | publicKey
  | signature
deriving DecidableEq

namespace Material

/-- The name of one of them. -/
def name : Material → String
  | publicKey => "public key"
  | signature => "signature"

/-- The name of several of them. -/
def plural (m : Material) : String := m.name ++ "s"

end Material

/-- A failure to decode, derive or combine keys and signatures. -/
inductive CryptoError where
  | wrongLength (what : Material) (expected actual : Nat)
  | invalidPublicKey
  | invalidSecretKey
  | invalidSignature
  | keyDerivation (reason : String)
  | emptyAggregate (what : Material)
  | aggregationFailed
deriving DecidableEq

namespace CryptoError

/-- The wording of an error. -/
def message : CryptoError → String
  | wrongLength what expected actual => s!"{what.name} must be {expected} bytes, got {actual}"
  | invalidPublicKey => "Invalid BLS public key"
  | invalidSecretKey => "Invalid BLS secret key"
  | invalidSignature => "Invalid BLS signature"
  | keyDerivation reason => s!"BLS key derivation failed: {reason}"
  | emptyAggregate what => s!"Cannot aggregate an empty list of {what.plural}"
  | aggregationFailed => "BLS aggregation failed"

end CryptoError

/-- A signature scheme with 48-byte keys and 96-byte signatures that can be added up: the
sum of signatures over one message is to be checked against the sum of their keys. -/
class AggregateScheme (Key : Type) (Sig : outParam Type) where
  /-- The byte form of a key. -/
  encodeKey : Key → FixedBytes 48
  /-- The byte form of a signature. -/
  encodeSig : Sig → FixedBytes 96
  /-- The signature with a byte form, if there is one. -/
  decodeSig? : FixedBytes 96 → Option Sig
  /-- The sum of two keys. -/
  addKeys : Key → Key → Key
  /-- The sum of two signatures. -/
  addSigs : Sig → Sig → Sig
  /-- Whether the signature over the message is that of the key. -/
  verify : Key → Bytes → Sig → Bool

namespace AggregateScheme

variable {Key Sig : Type} [AggregateScheme Key Sig]

/-- The sum of a list of keys that is not empty. -/
def aggregateKeys : List Key → Except CryptoError Key
  | [] => .error (.emptyAggregate .publicKey)
  | k :: ks => .ok (ks.foldl addKeys k)

/-- The sum of a list of signatures that is not empty. -/
def aggregateSigs (Key : Type) {Sig : Type} [AggregateScheme Key Sig] :
    List Sig → Except CryptoError Sig
  | [] => .error (.emptyAggregate .signature)
  | s :: ss => .ok (ss.foldl (addSigs Key) s)

end AggregateScheme

end Interchain
