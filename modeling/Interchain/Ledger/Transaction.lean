import Interchain.Hash.Keccak256
import Interchain.Identifier

/-!
# Transactions and blocks

A transaction carries an access list whose storage keys can hold predicates.  Its hash
commits to all of its fields; a block's hash commits to its parent, its number and its
transactions.
-/

namespace Interchain

/-- An unsigned number of 256 bits. -/
abbrev UInt256 := BitVec 256

/-- The 32 bytes of a number, most significant first. -/
def UInt256.word (x : UInt256) : Bytes := Bytes.ofNat 32 x.toNat

/-- A key of a contract's storage. -/
abbrev StorageKey := FixedBytes 32

/-- An entry of an access list. -/
structure AccessEntry where
  address : Address
  keys : List StorageKey
deriving DecidableEq

/-- The account behind which messages are sent and read. -/
def messengerAddress : Address :=
  ⟨2 :: Bytes.zeros 18 ++ [5], by simp [Bytes.zeros]⟩

/-- A transaction. -/
structure Transaction where
  chain : UInt256
  nonce : UInt64
  sender : Address
  recipient : Address
  gas : UInt64
  feeCap : UInt256
  tipCap : UInt256
  value : UInt256
  data : Bytes
  accessList : List AccessEntry
deriving DecidableEq

namespace AccessEntry

/-- The address, the number of keys and the keys. -/
def encoding (e : AccessEntry) : Bytes :=
  e.address.bytes ++ Bytes.ofNat 8 e.keys.length ++ e.keys.flatMap (·.bytes)

end AccessEntry

namespace Transaction

/-- The bytes that the hash is taken of. -/
def encoding (t : Transaction) : Bytes :=
  t.chain.word ++ Bytes.ofUInt64 t.nonce ++ t.sender.bytes ++ t.recipient.bytes ++
    Bytes.ofUInt64 t.gas ++ t.feeCap.word ++ t.tipCap.word ++ t.value.word ++
    Bytes.ofNat 8 t.data.length ++ t.data ++ t.accessList.flatMap (·.encoding)

/-- The name of the transaction. -/
def hash (t : Transaction) : Id := ⟨keccak256 t.encoding⟩

end Transaction

/-- What a chain announces of a block. -/
structure Header where
  number : UInt64
  hash : Id
  parent : Id
deriving DecidableEq

namespace Header

/-- The header of the next block, with the given transactions. -/
def child (h : Header) (transactions : List Id) : Header :=
  let number := h.number + 1
  { number
    hash := ⟨keccak256 (h.hash.bytes ++ Bytes.ofUInt64 number ++
      transactions.flatMap (·.bytes))⟩
    parent := h.hash }

end Header

/-- What a call announces. -/
structure Announcement where
  topics : List (FixedBytes 32)
  data : Bytes
deriving DecidableEq

/-- An announcement with its place on the chain. -/
structure Log where
  address : Address
  topics : List (FixedBytes 32)
  data : Bytes
  block : Id
  number : UInt64
  transaction : Id
deriving DecidableEq

/-- What became of a transaction. -/
structure Receipt where
  transaction : Id
  successful : Bool
  gasUsed : Nat
  logs : List Log
  block : Id
  number : UInt64
  revertReason : Option String
deriving DecidableEq

end Interchain
