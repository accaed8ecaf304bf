import Interchain.Hash.Sha256

/-!
# Keyed hashing

The keyed hash `hmacSha256` over SHA-256, and the two steps of key derivation built on
it: `extract` concentrates key material into one digest and `expand` stretches a
digest to the wanted length.
-/

namespace Interchain

/-- The SHA-256 keyed hash of `message` under `key`. -/
def hmacSha256 (key message : Bytes) : FixedBytes 32 :=
  let short := if key.length ≤ 64 then key else (sha256 key).bytes
  let block := short ++ Bytes.zeros (64 - short.length)
  let inner := sha256 (block.map (· ^^^ 0x36) ++ message)
  sha256 (block.map (· ^^^ 0x5c) ++ inner.bytes)

namespace KeyDerivation

/-- The digest that key material is concentrated into. -/
def extract (salt material : Bytes) : FixedBytes 32 := hmacSha256 salt material

/-- The first `len` bytes derived from a digest, for `len` at most 255 digests. -/
def expand (digest info : Bytes) (len : Nat) : Bytes :=
  let step (state : Bytes × Bytes) (i : Nat) : Bytes × Bytes :=
    let next := (hmacSha256 digest (state.2 ++ info ++ [UInt8.ofNat (i + 1)])).bytes
    (state.1 ++ next, next)
  ((List.range ((len + 31) / 32)).foldl step ([], [])).1.take len

end KeyDerivation

end Interchain
