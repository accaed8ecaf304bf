import Interchain.Contract.Messenger
import Interchain.Table

/-!
# A chain

A chain takes one transaction after another.  One that is not admitted leaves no trace;
any other is executed and sealed into a block of its own, which is accepted at once.
`Chain.perform` admits and executes a transaction and `Chain.withBlock` seals it.
-/

namespace Interchain

/-- What does not change about a chain. -/
structure ChainConfig where
  network : UInt32
  /-- The name of the chain, and of the block that it starts with. -/
  name : Id
  /-- The subnet that validates the chain. -/
  subnet : Id
  /-- The number that transactions have to carry. -/
  number : UInt256
  /-- What is asked of incoming messages. -/
  quorum : Quorum

/-- The header of the block that a chain starts with. -/
def ChainConfig.genesis (c : ChainConfig) : Header := ⟨0, c.name, .zero⟩

/-- A chain. -/
structure Chain where
  config : ChainConfig
  /-- The header of the last block. -/
  head : Header := config.genesis
  /-- The blocks that were accepted. -/
  accepted : List Id := [config.name]
  /-- The accounts that sent transactions, with the number of these. -/
  nonces : Table Address UInt64 := {}
  /-- The receipts of the sealed transactions, by their names. -/
  receipts : Table Id Receipt := {}
  /-- The logs of the sealed blocks, by their names. -/
  blockLogs : Table Id (List Log) := {}

/-- What execution comes to. -/
structure Execution where
  successful : Bool
  gasUsed : Nat
  announcements : List Announcement := []
  revertReason : Option String := none

namespace Chain

/-- Whether a block was accepted. -/
def isAccepted (c : Chain) (block : Id) : Bool := c.accepted.contains block

/-- The number of transactions that an account sent. -/
def nonceOf (c : Chain) (a : Address) : UInt64 := (c.nonces.get? a).getD 0

/-- The contract on the chain. -/
def messenger (c : Chain) : Messenger := ⟨c.config.network, c.config.name⟩

/-! ### Stages -/

/-- Whether a transaction is meant for the chain and next in turn for its sender. -/
def checkTurn (c : Chain) (t : Transaction) : Except ChainError Unit := do
  if t.chain ≠ c.config.number then
    throw (.wrongChain c.config.number.toNat t.chain.toNat)
  if t.nonce ≠ c.nonceOf t.sender then
    throw (.nonceMismatch t.sender (c.nonceOf t.sender).toNat t.nonce.toNat)

/-- The price of a transaction before execution, if its gas covers it. -/
def intrinsicGas (t : Transaction) (predicates : List Bytes) : Except ChainError Nat := do
  let gas ← predicates.foldlM (fun acc p => do Gas.checked (acc + (← Predicate.gas p)))
    Gas.transaction
  if t.gas.toNat < gas then throw (.intrinsicGasTooLow gas t.gas.toNat)
  return gas

/-- The price of a transaction before execution, if it is admitted. -/
def admission (c : Chain) (t : Transaction) : Except ChainError Nat := do
  c.checkTurn t
  intrinsicGas t (t.predicatesFor messengerAddress)

/-- What the predicates of a transaction come to. -/
def checkPredicates {Key Sig : Type} [AggregateScheme Key Sig] (c : Chain) (d : Directory Key)
    (predicates : List Bytes) : PredicateResults :=
  if predicates.isEmpty then []
  else
    match PredicateView.load d c.config.network c.config.subnet c.config.quorum predicates with
    | .ok view => view.checkAll predicates
    | .error e => .allFailed predicates.length (.message e)

/-- Executes a transaction whose price so far is `intrinsic`. -/
def execute (c : Chain) (t : Transaction) (intrinsic : Nat) (results : PredicateResults) :
    Execution :=
  if t.recipient ≠ messengerAddress then { successful := true, gasUsed := intrinsic }
  else
    let ctx : CallContext := { caller := t.sender, readOnly := false, predicates := results }
    match c.messenger.execute ctx t.data (t.gas.toNat - intrinsic) with
    | .ok r =>
      { successful := true
        gasUsed := intrinsic + r.gasUsed
        announcements := r.announcements }
    | .error e => { successful := false, gasUsed := t.gas.toNat, revertReason := some e.text }

/-- What the execution of a transaction comes to, if it is admitted. -/
def perform {Key Sig : Type} [AggregateScheme Key Sig] (c : Chain) (d : Directory Key)
    (t : Transaction) : Except ChainError Execution := do
  let intrinsic ← c.admission t
  return c.execute t intrinsic (c.checkPredicates d (t.predicatesFor messengerAddress))

/-- The receipt of a transaction in the next block. -/
def receiptFor (c : Chain) (t : Transaction) (x : Execution) : Receipt :=
  let header := c.head.child [t.hash]
  { transaction := t.hash
    successful := x.successful
    gasUsed := x.gasUsed
    logs := x.announcements.map fun a =>
      ⟨messengerAddress, a.topics, a.data, header.hash, header.number, t.hash⟩
    block := header.hash
    number := header.number
    revertReason := x.revertReason }

/-- The chain with a block for a transaction. -/
def withBlock (c : Chain) (t : Transaction) (x : Execution) : Chain :=
  let header := c.head.child [t.hash]
  let r := c.receiptFor t x
  { c with
    head := header
    accepted := c.accepted.insert header.hash
    nonces := c.nonces.put t.sender (c.nonceOf t.sender + 1)
    receipts := c.receipts.put t.hash r
    blockLogs := c.blockLogs.put header.hash r.logs }

/-! ### Queries -/

/-- The receipt of a transaction. -/
def receipt (c : Chain) (transaction : Id) : Except ChainError Receipt :=
  match c.receipts.get? transaction with
  | some r => .ok r
  | none => .error (.receiptNotFound transaction)

/-- The logs of an account in a block. -/
def logs (c : Chain) (block : Id) (address : Address) : List Log :=
  ((c.blockLogs.get? block).getD []).filter (·.address = address)

end Chain

namespace Receipt

/-- The messages that a transaction sent. -/
def sent (r : Receipt) : List Message :=
  (r.logs.filter (·.topics.head? = some Abi.sendTopic)).filterMap fun l =>
    (Abi.decodeAnnounced l.data).toOption

end Receipt

end Interchain
