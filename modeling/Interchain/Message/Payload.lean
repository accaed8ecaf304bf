import Interchain.Message.Wire

/-!
# Payloads

What a message says: that a block was accepted, or that an account made a call.  The
encoding names the kind by a tag, and `Payload.parse` accepts exactly the encodings.
-/

namespace Interchain

/-- A call made by an account, with its encoding. -/
structure Call where
  /-- The account that made the call. -/
  source : Address
  /-- What the account handed over. -/
  payload : Bytes
  /-- The encoding. -/
  bytes : Bytes
  written : Wire.write Wire.maxSize
    [Wire.header, .u32 1, .counted source.bytes, .counted payload] = .ok bytes
deriving DecidableEq

namespace Call

/-- The call of an account, unless it is too large. -/
def make (source : Address) (payload : Bytes) : Except MessageError Call :=
  match h : Wire.write Wire.maxSize
    [Wire.header, .u32 1, .counted source.bytes, .counted payload] with
  | .ok bytes => .ok ⟨source, payload, bytes, h⟩
  | .error e => .error e

/-- The call of an account given by its bytes. -/
def ofBytes (source payload : Bytes) : Except MessageError Call :=
  match Address.ofBytes source with
  | .ok a => make a payload
  | .error _ => .error (.wrongFieldLength .sourceAddress 20 source.length)

end Call

/-- What a message says. -/
inductive Payload where
  /-- The block was accepted. -/
  | blockHash (block : Id)
  /-- An account made a call. -/
  | call (c : Call)
deriving DecidableEq

namespace Payload

/-- The number that marks the kind. -/
def tag : Payload → Nat
  | blockHash _ => 0
  | call _ => 1

/-- The encoding. -/
def bytes : Payload → Bytes
  | blockHash block => Wire.header.bytes ++ (Wire.Field.u32 0).bytes ++ block.bytes
  | call c => c.bytes

/-- The attestation of a block given by its bytes. -/
def ofBlockBytes (block : Bytes) : Except MessageError Payload :=
  match Id.ofBytes block with
  | .ok i => .ok (blockHash i)
  | .error _ => .error (.wrongFieldLength .blockHash 32 block.length)

/-- The fields after the header. -/
def reader : Wire.Reader Payload := do
  let tag ← Wire.Reader.u32
  if tag = 0 then
    return blockHash ⟨← Wire.Reader.fixed 32⟩
  else if tag = 1 then
    let source ← Wire.Reader.counted
    let payload ← Wire.Reader.counted
    return call (← Wire.Reader.lift (Call.ofBytes source payload))
  else
    throw (.unknownPayloadType tag.toNat)

/-- The payload with an encoding. -/
def parse (b : Bytes) : Except MessageError Payload := Wire.read reader b

/-- The block that an encoding attests, if it attests one. -/
def parseBlockHash (b : Bytes) : Except MessageError Id :=
  match parse b with
  | .ok (blockHash block) => .ok block
  | .ok (call _) => .error (.payloadMismatch 0 1)
  | .error e => .error e

/-- The call that an encoding holds, if it holds one. -/
def parseCall (b : Bytes) : Except MessageError Call :=
  match parse b with
  | .ok (call c) => .ok c
  | .ok (blockHash _) => .error (.payloadMismatch 1 0)
  | .error e => .error e

end Payload

end Interchain
