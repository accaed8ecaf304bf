import Interchain.Ledger.Chain

/-!
# Dealing with a chain

A `ChainAccess` is what can be asked of a chain from outside, and a `Feed` how a chain
announces its blocks: a reader who falls more than a fixed number of headers behind loses
the oldest and is told how many.
-/

namespace Interchain

/-- A computation that may fail and changes the state of the world. -/
abbrev Action (σ α : Type) := ExceptT ChainError (StateM σ) α

/-- What a reader of announced headers is told. -/
inductive HeadEvent where
  | head (h : Header)
  /-- So many headers were lost. -/
  | lagged (missed : Nat)
  /-- There will be no more headers. -/
  | closed
  /-- No header came. -/
  | silent
deriving DecidableEq

/-- The headers that were announced. -/
structure Feed where
  /-- The headers, latest first. -/
  sent : List Header := []
  /-- Whether there will be no more. -/
  closed : Bool := false

namespace Feed

/-- The number of headers that are kept for readers. -/
def capacity : Nat := 64

/-- The feed with one more header. -/
def send (f : Feed) (h : Header) : Feed := { f with sent := h :: f.sent }

/-- What a reader is told next who has been told of so many headers, and how many these
are then. -/
def receive (f : Feed) (position : Nat) : HeadEvent × Nat :=
  let waiting := f.sent.length - position
  if capacity < waiting then (.lagged (waiting - capacity), f.sent.length - capacity)
  else
    match waiting, f.sent[waiting - 1]? with
    | _ + 1, some h => (.head h, position + 1)
    | _, _ => (if f.closed then .closed else .silent, position)

end Feed

/-- What can be asked of a chain from outside, in a world of states `σ`. -/
structure ChainAccess (σ : Type) where
  /-- The name of the chain. -/
  name : Id
  /-- The number that transactions have to carry. -/
  number : UInt256
  /-- A new reader of the headers to come. -/
  subscribe : StateM σ Nat
  /-- The number of transactions that an account sent. -/
  nonceOf : Address → Action σ UInt64
  /-- Sends a transaction and tells its name. -/
  submit : Transaction → Action σ Id
  /-- What a reader is told next, waiting for it no longer than to the given time. -/
  receive : (reader : Nat) → (deadline : Nat) → StateM σ HeadEvent
  /-- A bound on how often a reader can be told something before it has to wait in vain. -/
  backlog : (reader : Nat) → σ → Nat
  /-- The receipt of a transaction. -/
  receipt : Id → Action σ Receipt
  /-- The logs of an account in a block. -/
  logs : Id → Address → Action σ (List Log)
  /-- The number of the last block. -/
  height : Action σ UInt64
  /-- A bound on how often the height changes when it is asked for and no time passes. -/
  heightChanges : σ → Nat

/-- How time passes in a world of states `σ`. -/
structure Clock (σ : Type) where
  now : σ → Nat
  /-- The state after a pause. -/
  sleep : Nat → σ → σ

end Interchain
