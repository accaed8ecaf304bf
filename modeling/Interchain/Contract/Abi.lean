import Interchain.Hash.Keccak256
import Interchain.Ledger.Error
import Interchain.Message.Basic

/-!
# Calls and their results as words

Arguments and results are sequences of words of 32 bytes.  A byte string stands behind
the fixed words, at an offset that one of them gives, as its length and its bytes, padded
to whole words.  What is encoded here decodes again whatever follows it.
-/

namespace Interchain

namespace Abi

/-! ### Words -/

/-- The word of a number. -/
def natWord (n : Nat) : Bytes := Bytes.ofNat 32 n

/-- The word of a truth value. -/
def boolWord (b : Bool) : Bytes := natWord b.toNat

/-- The length and the bytes of a byte string, padded to whole words. -/
def bytesTail (b : Bytes) : Bytes :=
  natWord b.length ++ b ++ Bytes.zeros ((32 - b.length % 32) % 32)

/-- A byte string as the only argument. -/
def bytesArgument (b : Bytes) : Bytes := natWord 32 ++ bytesTail b

/-- The word at a position. -/
def wordAt (data : Bytes) (position : Nat) : Except ChainError (FixedBytes 32) :=
  match data.slice? position 32 with
  | some w => .ok (.fit 32 w)
  | none => .error (.invalidInput (.outOfBounds .word))

/-- The number in the word at a position, for which 32 bits are enough. -/
def uint32At (data : Bytes) (position : Nat) : Except ChainError UInt32 := do
  let n := (← wordAt data position).toNat
  if n < UInt32.size then return .ofNat n else throw (.invalidInput (.tooWide n))

/-- The truth value in the word at a position. -/
def boolAt (data : Bytes) (position : Nat) : Except ChainError Bool := do
  let n ← uint32At data position
  if n = 0 then return false
  else if n = 1 then return true
  else throw (.invalidInput (.notABool n.toNat))

/-- The address in the word at a position. -/
def addressAt (data : Bytes) (position : Nat) : Except ChainError Address := do
  let w ← wordAt data position
  if w.bytes.take 12 ≠ Bytes.zeros 12 then throw (.invalidInput .dirtyAddress)
  return ⟨.fit 20 (w.bytes.drop 12)⟩

/-- The byte string whose offset is in the word at a position. -/
def bytesAt (data : Bytes) (position : Nat) : Except ChainError Bytes := do
  let offset := (← uint32At data position).toNat
  let length := (← uint32At data offset).toNat
  match data.slice? (offset + 32) length with
  | some b => return b
  | none => throw (.invalidInput (.outOfBounds .bytes))

/-! ### Calls -/

/-- The four bytes that name a function. -/
def selector (signature : String) : Bytes := (keccak256 (Bytes.ofText signature)).bytes.take 4

/-- The name of the function that sends a message. -/
def sendSelector : Bytes := selector "sendWarpMessage(bytes)"

/-- The name of the function that reads a verified call. -/
def readCallSelector : Bytes := selector "getVerifiedWarpMessage(uint32)"

/-- The name of the function that reads a verified block. -/
def readBlockSelector : Bytes := selector "getVerifiedWarpBlockHash(uint32)"

/-- The name of the function that tells the name of the chain. -/
def chainNameSelector : Bytes := selector "getBlockchainID()"

/-- The first topic of the announcement of a message. -/
def sendTopic : FixedBytes 32 :=
  keccak256 (Bytes.ofText "SendWarpMessage(address,bytes32,bytes)")

/-- A call of one of the functions. -/
inductive Function where
  /-- Sends a message with a payload. -/
  | send (payload : Bytes)
  /-- Reads the call in the verified message with an index. -/
  | readCall (index : UInt32)
  /-- Reads the block in the verified message with an index. -/
  | readBlock (index : UInt32)
  /-- Tells the name of the chain. -/
  | chainName
deriving DecidableEq

namespace Function

/-- The name of the function. -/
def name : Function → String
  | send _ => "sendWarpMessage"
  | readCall _ => "getVerifiedWarpMessage"
  | readBlock _ => "getVerifiedWarpBlockHash"
  | chainName => "getBlockchainID"

/-- The data of a call. -/
def encode : Function → Bytes
  | send payload => sendSelector ++ bytesArgument payload
  | readCall index => readCallSelector ++ natWord index.toNat
  | readBlock index => readBlockSelector ++ natWord index.toNat
  | chainName => chainNameSelector

/-- The call with the given data. -/
def decode (input : Bytes) : Except ChainError Function :=
  if input.length < 4 then .error (.inputTooShort 4 input.length)
  else
    let name := input.take 4
    let arguments := input.drop 4
    if name = sendSelector then send <$> bytesAt arguments 0
    else if name = readCallSelector then readCall <$> uint32At arguments 0
    else if name = readBlockSelector then readBlock <$> uint32At arguments 0
    else if name = chainNameSelector then .ok chainName
    else .error (.unknownSelector name)

end Function

/-! ### Results -/

/-- A call as it is read on another chain. -/
structure VerifiedCall where
  chain : Id
  sender : Address
  payload : Bytes
deriving DecidableEq

/-- A block as it is read on another chain. -/
structure VerifiedBlock where
  chain : Id
  block : Id
deriving DecidableEq

instance : Inhabited VerifiedCall := ⟨.zero, .zero, []⟩

instance : Inhabited VerifiedBlock := ⟨.zero, .zero⟩

/-- A call, and whether it is one. -/
def encodeCall (c : VerifiedCall) (valid : Bool) : Bytes :=
  natWord 64 ++ boolWord valid ++ c.chain.bytes ++ c.sender.toWord.bytes ++ natWord 96 ++
    bytesTail c.payload

/-- The call in a result, and whether it is one. -/
def decodeCall (data : Bytes) : Except ChainError (VerifiedCall × Bool) := do
  let offset := (← uint32At data 0).toNat
  let valid ← boolAt data 32
  if data.length < offset then throw (.invalidInput (.outOfBounds .tuple))
  let tuple := data.drop offset
  let chain ← wordAt tuple 0
  let sender ← addressAt tuple 32
  let payload ← bytesAt tuple 64
  return (⟨⟨chain⟩, sender, payload⟩, valid)

/-- A block, and whether it is one. -/
def encodeBlock (b : VerifiedBlock) (valid : Bool) : Bytes :=
  b.chain.bytes ++ b.block.bytes ++ boolWord valid

/-- The block in a result, and whether it is one. -/
def decodeBlock (data : Bytes) : Except ChainError (VerifiedBlock × Bool) := do
  let chain ← wordAt data 0
  let block ← wordAt data 32
  let valid ← boolAt data 64
  return (⟨⟨chain⟩, ⟨block⟩⟩, valid)

/-- The name in a result. -/
def decodeName (data : Bytes) : Except ChainError Id := Id.mk <$> wordAt data 0

/-- The message in the data of its announcement. -/
def decodeAnnounced (data : Bytes) : Except ChainError Message := do
  ChainError.ofMessage (Message.parse (← bytesAt data 0))

end Abi

end Interchain
