import Interchain.Moment
import Interchain.Relay.ChainAccess

/-!
# Fronts of chains

A front stands between a chain and those who use it, and misbehaves in ways that are laid
down beforehand: it announces headers late, falsely or not at all, forgets receipts,
misreports heights and logs, and lets calls fail.
-/

namespace Interchain

/-- A call that a front can let fail. -/
inductive ChainCall where
  | nonce
  | send
  | logs
  | height
deriving DecidableEq

/-- The name of a call. -/
def ChainCall.name : ChainCall → String
  | nonce => "nonce"
  | send => "send"
  | logs => "logs"
  | height => "height"

/-- A front. -/
structure Front where
  /-- The number of false headers before that of a sent transaction. -/
  decoys : Nat := 0
  /-- Whether the header of a sent transaction is kept back. -/
  silent : Bool := false
  /-- The time until the header of a sent transaction is announced, whether or not it is to
  be kept back; `0` for at once. -/
  headDelay : Nat := 0
  /-- Whether there are no more headers after a sent transaction. -/
  closes : Bool := false
  /-- The number of receipts that will not be found. -/
  lostReceipts : Nat := 0
  /-- The heights to be told, the last of which repeats; those of the chain if there are
  none. -/
  heights : List UInt64 := []
  /-- The data of the logs to be told, instead of those of the chain. -/
  logs : Option (List Bytes) := none
  /-- The call that fails. -/
  failing : Option ChainCall := none
  /-- How often the height was asked for. -/
  polls : Nat := 0
  feed : Feed := {}
  /-- The headers to be announced later, with the times for it. -/
  scheduled : List (Nat × Header) := []

namespace Front

/-- The front after everything was announced that was to be announced before a time. -/
def flush (time : Nat) (f : Front) : Front :=
  let due := f.scheduled.filter (·.1 < time)
  { f with
    feed := due.foldl (fun feed e => feed.send e.2) f.feed
    scheduled := f.scheduled.filter (time ≤ ·.1) }

/-- A header like that of a block, but with a hash that no block has. -/
def decoy (head : Header) : Header := { head with hash := ⟨.replicate 32 0xde⟩ }

/-- The front after a transaction was sent, for which its chain has a new head. -/
def announce (m : Moment) (head : Header) (f : Front) : Front :=
  let f := f.flush m.othersUpTo
  if f.feed.closed then f
  else
    let feed := (List.replicate f.decoys (decoy head)).foldl Feed.send f.feed
    let feed := if f.silent || 0 < f.headDelay then feed else feed.send head
    { f with
      feed := { feed with closed := f.closes }
      scheduled :=
        if 0 < f.headDelay then f.scheduled ++ [(m.after f.headDelay, head)] else f.scheduled }

/-- The headers that were announced, to which more are to come as long as any are
scheduled. -/
def visible (f : Front) : Feed :=
  { f.feed with closed := f.feed.closed && f.scheduled.isEmpty }

/-- The time of the next announcement. -/
def nextDue? (f : Front) : Option Nat := (f.scheduled.map (·.1)).min?

/-- The failure of a call, if the front lets it fail. -/
def check (f : Front) (call : ChainCall) : Except ChainError Unit :=
  if f.failing = some call then .error (.invalidInput (.scripted call.name)) else .ok ()

/-- The logs of a block in the words of the front, where it has any. -/
def scriptedLogs (f : Front) (block : Id) (address : Address) : Option (List Log) :=
  f.logs.map fun ls => ls.map fun data => ⟨address, [], data, block, 0, .zero⟩

/-- The height in the words of the front, where it has any, and what is left to be told. -/
def tellHeight (f : Front) : Option UInt64 × Front :=
  match f.heights with
  | [] => (none, f)
  | [h] => (some h, f)
  | h :: rest => (some h, { f with heights := rest })

end Front

end Interchain
