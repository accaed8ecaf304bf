import Interchain.Moment
import Interchain.Relay.ChainAccess
import Interchain.Round.Aggregation

/-!
# The relayer

A relayer carries a message from one chain to another.  It sends the message and waits
for the block that holds it, waits until all nodes of the source have that block, has the
message attested, and delivers it with the attestation as a predicate.
-/

namespace Interchain

/-- How a relayer goes about its work. -/
structure RelayConfig where
  sendGas : UInt64 := 200000
  deliverGas : UInt64 := 5000000
  feeCap : UInt256 := 225000000000
  tipCap : UInt256 := 1000000000
  /-- How long to wait for a block. -/
  headTimeout : Nat := 30000
  /-- How long to wait for nodes to reach a height. -/
  heightTimeout : Nat := 30000
  /-- The pause before asking a node for its height again. -/
  pollInterval : Nat := 50

/-- A message on its chain. -/
structure Sent where
  message : Message
  /-- The message that its block was accepted. -/
  blockMessage : Message
  block : Header
  receipt : Receipt

/-- A message carried from one chain to another. -/
structure Relayed where
  sent : Sent
  attested : Attested
  /-- The receipt of the delivery. -/
  receipt : Receipt

namespace RelayConfig

variable {σ : Type}

/-- Waits for the block of a transaction, at most so many announcements long. -/
def awaitBlock (chain : ChainAccess σ) (reader : Nat) (transaction : Id) (deadline : Nat) :
    (announcements : Nat) → Action σ (Header × Receipt)
  | 0 => throw (.timeout .newHead)
  | n + 1 => do
    match ← chain.receive reader deadline with
    | .silent => throw (.timeout .newHead)
    | .closed => throw .subscriptionClosed
    | .lagged _ => awaitBlock chain reader transaction deadline n
    | .head h =>
      match ← ExceptT.lift (chain.receipt transaction).run with
      | .ok r =>
        if r.block = h.hash then return (h, r)
        else awaitBlock chain reader transaction deadline n
      | .error _ => awaitBlock chain reader transaction deadline n

/-- Sends a transaction and waits for its block, until a deadline that may be at any time. -/
def submit (c : RelayConfig) (clock : Clock σ) (chain : ChainAccess σ) (reader : Nat)
    (t : Transaction) : Action σ (Header × Receipt) := do
  let transaction ← chain.submit t
  let s ← get
  awaitBlock chain reader transaction (clock.now s + c.headTimeout) (chain.backlog reader s + 1)

/-- The transaction of an account that calls the messenger. -/
def transaction (c : RelayConfig) (chain : ChainAccess σ) (sender : Address) (nonce gas : UInt64)
    (data : Bytes) : Transaction :=
  { chain := chain.number
    nonce
    sender
    recipient := messengerAddress
    gas
    feeCap := c.feeCap
    tipCap := c.tipCap
    value := 0
    data
    accessList := [] }

/-- Reads back the message that was sent in a block. -/
def readBack (chain : ChainAccess σ) (block : Header) (receipt : Receipt) : Action σ Sent := do
  if !receipt.successful then
    throw (.invalidInput (.sendReverted (receipt.revertReason.getD "")))
  match ← chain.logs block.hash messengerAddress with
  | [log] =>
    let message ← Abi.decodeAnnounced log.data
    let blockMessage ← ChainError.ofMessage
      (Message.make message.network chain.name (Payload.blockHash block.hash).bytes)
    return { message, blockMessage, block, receipt }
  | logs => throw (.invalidInput (.unexpectedLogs block.hash logs.length))

/-- Sends a message and reads it back from the chain. -/
def send (c : RelayConfig) (clock : Clock σ) (chain : ChainAccess σ) (sender : Address)
    (payload : Bytes) : Action σ Sent := do
  let reader ← chain.subscribe
  let nonce ← chain.nonceOf sender
  let t := c.transaction chain sender nonce c.sendGas (Abi.Function.send payload).encode
  let (block, receipt) ← c.submit clock chain reader t
  readBack chain block receipt

/-- Asks for the height of a chain until it is reached, at most so often, and not again once
the time is up. -/
def awaitHeight (c : RelayConfig) (clock : Clock σ) (chain : ChainAccess σ) (height : UInt64)
    (deadline : Nat) : (polls : Nat) → Action σ Unit
  | 0 => throw (.timeout .heights)
  | n + 1 => do
    if height ≤ (← chain.height) then return
    if deadline ≤ clock.now (← get) then throw (.timeout .heights)
    modify (clock.sleep c.pollInterval)
    awaitHeight c clock chain height deadline n

/-- Waits until all chains have reached a height, one after another, until a deadline for all of
them that may be at any time. -/
def awaitHeights (c : RelayConfig) (clock : Clock σ) (chains : List (ChainAccess σ))
    (height : UInt64) : Action σ Unit := do
  let deadline := clock.now (← get) + c.heightTimeout
  let pauses := c.heightTimeout / max 1 (min c.pollInterval Moment.longestPause) + 1
  for chain in chains do
    let changes := chain.heightChanges (← get)
    c.awaitHeight clock chain height deadline (changes + pauses + 1)

/-- Delivers a signed message with a call of the messenger. -/
def deliver (c : RelayConfig) (clock : Clock σ) (chain : ChainAccess σ) (sender : Address)
    (data : Bytes) (signed : SignedMessage) : Action σ Receipt := do
  let reader ← chain.subscribe
  let nonce ← chain.nonceOf sender
  let t := (c.transaction chain sender nonce c.deliverGas data).withPredicate messengerAddress
    signed.bytes
  return (← c.submit clock chain reader t).2

/-- Carries a payload from one chain, seen through its nodes, to another. -/
def relay (c : RelayConfig) (clock : Clock σ) (sources : List (ChainAccess σ))
    (destination : ChainAccess σ) (attest : Message → StateM σ (Except MessageError Attested))
    (sender : Address) (payload : Bytes) : Action σ Relayed := do
  let source :: _ := sources | throw (.invalidInput .noSources)
  let sent ← c.send clock source sender payload
  c.awaitHeights clock sources sent.block.number
  let attested ← ChainError.ofMessage (← attest sent.message)
  let receipt ← c.deliver clock destination sender (Abi.Function.readCall 0).encode
    attested.message
  return { sent, attested, receipt }

end RelayConfig

end Interchain
