import Interchain.Identifier
import Interchain.Scheme

/-!
# What can go wrong with a message

`MessageError` lists the causes for which a message is not read, not attested or not
accepted, and `MessageError.message` gives the wording of each.
-/

namespace Interchain

/-- A field whose width is fixed. -/
inductive FixedField where
  | blockHash
  | sourceAddress
deriving DecidableEq

/-- The name of a field. -/
def FixedField.name : FixedField → String
  | blockHash => "block hash"
  | sourceAddress => "source address"

/-- A cause for which a message is not read, not attested or not accepted. -/
inductive MessageError where
  /-- The input ended inside a field. -/
  | truncated (needed remaining : Nat)
  /-- Bytes were left after the last field. -/
  | trailingBytes (count : Nat)
  | unsupportedVersion (version : Nat)
  | unknownPayloadType (tag : Nat)
  | unknownSignatureType (tag : Nat)
  | tooLarge (size max : Nat)
  | wrongFieldLength (field : FixedField) (expected actual : Nat)
  /-- The signers were not written in the fewest bytes. -/
  | nonCanonicalSigners
  | payloadMismatch (expected actual : Nat)
  | networkMismatch (expected actual : Nat)
  /-- A signer outside the validator set. -/
  | unknownValidator (index setSize : Nat)
  | weightOverflow
  | weightExceedsTotal (signed total : Nat)
  | insufficientWeight (signed total numerator denominator : Nat)
  | invalidQuorum (numerator denominator : Nat)
  | noSigners
  | invalidAggregate
  /-- No validator set is known that far back. -/
  | setUnavailable (height : Nat) (subnet : Id)
  | unknownChain (chain : Id)
  | unreachable (node : NodeId) (reason : String)
  | messageNotFound (message : Id)
  | blockNotAccepted (block : Id)
  | timeout
  /-- A node's signature is not that of the validator. -/
  | forgedSignature (node : NodeId)
  | quorumNotReached (signed total numerator denominator : Nat)
  | disabled
  | configuration (reason : String)
  | crypto (cause : CryptoError)
  | identifier (cause : IdentifierError)
deriving DecidableEq

namespace MessageError

/-- The wording of an error. -/
def message : MessageError → String
  | truncated needed remaining =>
    s!"Truncated input: needed {needed} bytes, {remaining} remaining"
  | trailingBytes count => s!"Trailing bytes after decode: {count}"
  | unsupportedVersion version => s!"Unsupported codec version: {version}"
  | unknownPayloadType tag => s!"Unknown payload type: {tag}"
  | unknownSignatureType tag => s!"Unknown signature type: {tag}"
  | tooLarge size max => s!"Message too large: {size} bytes exceeds {max}"
  | wrongFieldLength field expected actual =>
    s!"Invalid {field.name} length: expected {expected}, got {actual}"
  | nonCanonicalSigners => "Signer bit-vector is not canonical"
  | payloadMismatch expected actual =>
    s!"Payload type mismatch: expected {expected}, got {actual}"
  | networkMismatch expected actual => s!"Network ID mismatch: expected {expected}, got {actual}"
  | unknownValidator index setSize =>
    s!"Unknown validator: signer index {index} but set has {setSize} validators"
  | weightOverflow => "Validator weight overflow"
  | weightExceedsTotal signed total => s!"Signature weight {signed} exceeds total weight {total}"
  | insufficientWeight signed total numerator denominator =>
    s!"Insufficient weight: {signed}/{total} below {numerator}/{denominator}"
  | invalidQuorum numerator denominator => s!"Invalid quorum: {numerator}/{denominator}"
  | noSigners => "No signers"
  | invalidAggregate => "Invalid aggregate signature"
  | setUnavailable height subnet =>
    s!"Validator set unavailable at height {height} for subnet {subnet.text}"
  | unknownChain chain => s!"Unknown chain: {chain.text}"
  | unreachable node reason => s!"Validator {node.text} unreachable: {reason}"
  | messageNotFound m => s!"Message not found: {m.text}"
  | blockNotAccepted block => s!"Block not accepted: {block.text}"
  | timeout => "Request timed out"
  | forgedSignature node => s!"Invalid signature from validator {node.text}"
  | quorumNotReached signed total numerator denominator =>
    s!"Quorum not reached: {signed}/{total} below {numerator}/{denominator}"
  | disabled => "Warp API disabled"
  | configuration reason => s!"Invalid configuration: {reason}"
  | crypto cause => s!"Crypto error: {cause.message}"
  | identifier cause => s!"Identifier error: {cause.message}"

/-- Whether asking the same node again may help. -/
def isTransient : MessageError → Bool
  | unreachable .. | messageNotFound _ | blockNotAccepted _ | timeout => true
  | _ => false

/-- A short label of the cause. -/
def label : MessageError → String
  | unreachable .. => "unreachable"
  | messageNotFound _ => "message_not_found"
  | blockNotAccepted _ => "block_not_accepted"
  | timeout => "timeout"
  | forgedSignature _ => "invalid_signature"
  | crypto _ => "crypto"
  | _ => "other"

end MessageError

end Interchain
