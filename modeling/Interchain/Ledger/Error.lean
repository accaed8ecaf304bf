import Interchain.Message.Error

/-!
# What can go wrong on a chain

`ChainError` lists the causes for which a call, a transaction or an exchange with a chain
fails, and `ChainError.text` gives the wording of each.
-/

namespace Interchain

/-- A part of encoded data that reaches past its end. -/
inductive EncodedPart where
  | word
  | tuple
  | bytes
deriving DecidableEq

/-- The name of a part. -/
def EncodedPart.name : EncodedPart → String
  | word => "word"
  | tuple => "tuple offset"
  | bytes => "bytes data"

/-- A reason not to make sense of what was given or answered. -/
inductive InputFault where
  | outOfBounds (part : EncodedPart)
  /-- A number for which 32 bits are too few. -/
  | tooWide (value : Nat)
  | notABool (value : Nat)
  /-- An address behind bytes that are not zero. -/
  | dirtyAddress
  | sendReverted (reason : String)
  | unexpectedLogs (block : Id) (count : Nat)
  | noSources
  | scripted (call : String)
deriving DecidableEq

/-- The wording of a reason. -/
def InputFault.message : InputFault → String
  | outOfBounds part => s!"{part.name} out of bounds"
  | tooWide value => s!"value {value} does not fit in uint32"
  | notABool value => s!"invalid bool {value}"
  | dirtyAddress => "dirty address word"
  | sendReverted reason => s!"sendWarpMessage reverted: {reason}"
  | unexpectedLogs block count =>
    s!"expected one warp log in block {block.text}, found {count}"
  | noSources => "no source nodes"
  | scripted call => s!"scripted {call} failure"

/-- A reason why bytes are not those of a packed predicate. -/
inductive PackingFault where
  | brokenWord (length : Nat)
  | allZero
  | wrongDelimiter (found : UInt8)
  | longPadding
deriving DecidableEq

/-- The wording of a reason. -/
def PackingFault.message : PackingFault → String
  | brokenWord length => s!"length {length} is not a multiple of 32"
  | allZero => "all zero bytes"
  | wrongDelimiter found => s!"expected delimiter 0xff, found 0x{Hex.encode [found]}"
  | longPadding => "padding longer than one word"

/-- Something that is waited for. -/
inductive Awaited where
  | newHead
  | heights
deriving DecidableEq

/-- The name of what is waited for. -/
def Awaited.name : Awaited → String
  | newHead => "new block head"
  | heights => "nodes to reach height"

/-- A cause for which a call, a transaction or an exchange with a chain fails. -/
inductive ChainError where
  | inputTooShort (expected actual : Nat)
  | invalidInput (fault : InputFault)
  | unknownSelector (selector : Bytes)
  | outOfGas (required limit : Nat)
  | gasOverflow
  /-- A call that may not change anything was to send a message. -/
  | writeProtection
  | invalidPacking (fault : PackingFault)
  | invalidPredicate (index : Nat) (reason : String)
  | intrinsicGasTooLow (required limit : Nat)
  | nonceMismatch (account : Address) (expected actual : Nat)
  | wrongChain (expected actual : Nat)
  | receiptNotFound (transaction : Id)
  | subscriptionClosed
  | timeout (awaited : Awaited)
  | message (cause : MessageError)
deriving DecidableEq

namespace ChainError

/-- The wording of an error. -/
def text : ChainError → String
  | inputTooShort expected actual => s!"invalid input length: expected {expected}, got {actual}"
  | invalidInput fault => s!"invalid input: {fault.message}"
  | unknownSelector selector => s!"unknown function selector: 0x{Hex.encode selector}"
  | outOfGas required limit => s!"precompile out of gas: required {required}, limit {limit}"
  | gasOverflow => "gas overflow"
  | writeProtection => "write protection: state-changing call in read-only context"
  | invalidPacking fault => s!"invalid predicate encoding: {fault.message}"
  | invalidPredicate index reason => s!"predicate {index} failed verification: {reason}"
  | intrinsicGasTooLow required limit =>
    s!"intrinsic gas too low: required {required}, limit {limit}"
  | nonceMismatch account expected actual =>
    s!"nonce mismatch for {account.text}: expected {expected}, got {actual}"
  | wrongChain expected actual => s!"wrong chain id: expected {expected}, got {actual}"
  | receiptNotFound transaction => s!"receipt not found: {transaction.text}"
  | subscriptionClosed => "new head subscription closed"
  | timeout awaited => s!"timed out waiting for {awaited.name}"
  | message cause => s!"warp error: {cause.message}"

/-- A result about messages as one about a chain. -/
def ofMessage {α : Type} (x : Except MessageError α) : Except ChainError α :=
  x.mapError .message

end ChainError

end Interchain
