import Interchain.Contract.Abi
import Interchain.Ledger.PredicateCheck

/-!
# The messenger contract

The contract behind which messages are sent and read.  It sends a message in the name of
its caller and shows the messages that the enclosing transaction proved by predicates.
-/

namespace Interchain

/-- The contract on one chain. -/
structure Messenger where
  network : UInt32
  chain : Id

/-- The circumstances of a call. -/
structure CallContext where
  caller : Address
  /-- Whether the call may not change anything. -/
  readOnly : Bool
  /-- The predicates of the enclosing transaction. -/
  predicates : PredicateResults

/-- What a call comes to. -/
structure CallResult where
  gasUsed : Nat
  output : Bytes
  announcements : List Announcement := []
deriving DecidableEq

namespace Messenger

/-- Sends a message with a payload in the name of the caller. -/
def send (m : Messenger) (ctx : CallContext) (payload : Bytes) (limit : Nat) :
    Except ChainError CallResult := do
  let gasUsed ← Gas.send payload.length
  Gas.charge gasUsed limit
  if ctx.readOnly then throw .writeProtection
  let call ← ChainError.ofMessage (Call.make ctx.caller payload)
  let message ← ChainError.ofMessage (Message.make m.network m.chain call.bytes)
  return {
    gasUsed
    output := message.id.bytes
    announcements := [{
      topics := [Abi.sendTopic, ctx.caller.toWord, message.id.toFixedBytes]
      data := Abi.bytesArgument message.bytes }] }

/-- The verified message with an index, if the transaction has a predicate there, and the
price of reading it. -/
def verified (ctx : CallContext) (index : UInt32) (limit : Nat) :
    Except ChainError (Option SignedMessage × Nat) := do
  Gas.charge Gas.readBase limit
  match ctx.predicates[index.toNat]? with
  | none => return (none, Gas.readBase)
  | some (.error e) => throw (.invalidPredicate index.toNat e.text)
  | some (.ok m) =>
    let gasUsed ← Gas.read m.bytes.length
    Gas.charge gasUsed limit
    return (some m, gasUsed)

/-- The call in the verified message with an index. -/
def readCall (ctx : CallContext) (index : UInt32) (limit : Nat) :
    Except ChainError CallResult := do
  let (found, gasUsed) ← verified ctx index limit
  match found with
  | none => return { gasUsed, output := Abi.encodeCall default false }
  | some m =>
    let call ← ChainError.ofMessage (Payload.parseCall m.message.payload)
    let c : Abi.VerifiedCall := ⟨m.message.chain, call.source, call.payload⟩
    return { gasUsed, output := Abi.encodeCall c true }

/-- The block in the verified message with an index. -/
def readBlock (ctx : CallContext) (index : UInt32) (limit : Nat) :
    Except ChainError CallResult := do
  let (found, gasUsed) ← verified ctx index limit
  match found with
  | none => return { gasUsed, output := Abi.encodeBlock default false }
  | some m =>
    let block ← ChainError.ofMessage (Payload.parseBlockHash m.message.payload)
    return { gasUsed, output := Abi.encodeBlock ⟨m.message.chain, block⟩ true }

/-- Executes a call within a limit of gas. -/
def execute (m : Messenger) (ctx : CallContext) (input : Bytes) (limit : Nat) :
    Except ChainError CallResult := do
  match ← Abi.Function.decode input with
  | .send payload => m.send ctx payload limit
  | .readCall index => readCall ctx index limit
  | .readBlock index => readBlock ctx index limit
  | .chainName =>
    Gas.charge Gas.chainName limit
    return { gasUsed := Gas.chainName, output := m.chain.bytes }

end Messenger

end Interchain
