import Interchain.Hash.Sha256
import Interchain.Message.Payload
import Interchain.Message.Signers

/-!
# Messages

A `Message` is what a chain says to others, a `SignedMessage` the same with the sum of
signatures over its name and the set of validators whose signatures were added.  Both
carry their encoding; `parse` accepts exactly the encodings.
-/

namespace Interchain

/-- What a chain says to others, with its encoding. -/
structure Message where
  /-- The network of the chain. -/
  network : UInt32
  /-- The chain that speaks. -/
  chain : Id
  /-- The encoding of a payload, or any other bytes. -/
  payload : Bytes
  /-- The encoding. -/
  bytes : Bytes
  written : Wire.write Wire.maxSize
    [Wire.header, .u32 network, .fixed chain.bytes, .counted payload] = .ok bytes
deriving DecidableEq

namespace Message

/-- The message with the given contents, unless it is too large. -/
def make (network : UInt32) (chain : Id) (payload : Bytes) : Except MessageError Message :=
  match h : Wire.write Wire.maxSize
    [Wire.header, .u32 network, .fixed chain.bytes, .counted payload] with
  | .ok bytes => .ok ⟨network, chain, payload, bytes, h⟩
  | .error e => .error e

/-- The name of the message: the digest of its encoding. -/
def id (m : Message) : Id := ⟨sha256 m.bytes⟩

/-- What the message says. -/
def content (m : Message) : Except MessageError Payload := Payload.parse m.payload

/-- The fields after the header. -/
def reader : Wire.Reader Message := do
  let network ← Wire.Reader.u32
  let chain ← Wire.Reader.fixed 32
  let payload ← Wire.Reader.counted
  Wire.Reader.lift (make network ⟨chain⟩ payload)

/-- The message with an encoding. -/
def parse (b : Bytes) : Except MessageError Message := Wire.read reader b

/-- A description with the payload in full. -/
def text (m : Message) : String :=
  s!"UnsignedMessage(NetworkID = {m.network}, SourceChainID = {m.chain.text}, " ++
    s!"Payload = 0x{Hex.encode m.payload})"

/-- A description with the name and without the payload. -/
def debugText (m : Message) : String :=
  "UnsignedMessage \x7b " ++
    s!"id: {m.id.debugText}, network_id: {m.network}, " ++
    s!"source_chain_id: {m.chain.debugText}, payload_len: {m.payload.length}" ++ " \x7d"

end Message

/-- The fields of a signature: a mark of its kind, the signers, the sum of signatures. -/
def signatureFields (signers : Signers) (signature : FixedBytes 96) : List Wire.Field :=
  [.u32 0, .counted signers.bytes, .fixed signature.bytes]

/-- A message with the sum of signatures over its name, with its encoding. -/
structure SignedMessage where
  /-- What was signed. -/
  message : Message
  /-- The validators whose signatures were added. -/
  signers : Signers
  /-- The byte form of the sum. -/
  signature : FixedBytes 96
  /-- The encoding. -/
  bytes : Bytes
  written : Wire.write Wire.maxSize
    (.fixed message.bytes :: signatureFields signers signature) = .ok bytes
deriving DecidableEq

namespace SignedMessage

/-- The message with a signature, unless it is too large. -/
def make (message : Message) (signers : Signers) (signature : FixedBytes 96) :
    Except MessageError SignedMessage :=
  match h : Wire.write Wire.maxSize
    (.fixed message.bytes :: signatureFields signers signature) with
  | .ok bytes => .ok ⟨message, signers, signature, bytes, h⟩
  | .error e => .error e

/-- The name of the message. -/
def id (m : SignedMessage) : Id := m.message.id

/-- The fields of the signature. -/
def signatureReader : Wire.Reader (Signers × FixedBytes 96) := do
  let tag ← Wire.Reader.u32
  if tag ≠ 0 then throw (.unknownSignatureType tag.toNat)
  let b ← Wire.Reader.counted
  let signers ← Wire.Reader.lift (Signers.ofBytes b)
  return (signers, ← Wire.Reader.fixed 96)

/-- The message and the fields of the signature. -/
def reader : Wire.Reader (Message × Signers × FixedBytes 96) := do
  let m ← Message.reader
  return (m, ← signatureReader)

/-- The signed message with an encoding. -/
def parse (b : Bytes) : Except MessageError SignedMessage :=
  match Wire.read reader b with
  | .ok (m, signers, signature) => make m signers signature
  | .error e => .error e

/-- A description of the signature that names the signers only. -/
def signatureDebugText (m : SignedMessage) : String :=
  "BitSetSignature \x7b " ++ s!"signers: {m.signers.text}, .." ++ " \x7d"

end SignedMessage

end Interchain
