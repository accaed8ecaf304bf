import Interchain.Message.Basic
import Interchain.Node.SignatureCache

/-!
# A node that attests

A node keeps the messages that its chain sent and signs them on request, as well as the
blocks that its chain accepted.  Its signer is bound to one chain of one network.
-/

namespace Interchain

/-- A key bound to one chain of one network. -/
structure Signer (Key Sig : Type) where
  network : UInt32
  chain : Id
  key : Key
  /-- The signature of the key over a message. -/
  sign : Bytes → Sig

/-- The byte form of the signature over the name of a message, if it is one of the signer's
chain. -/
def Signer.attest {Key Sig : Type} [AggregateScheme Key Sig] (s : Signer Key Sig)
    (m : Message) : Except MessageError (FixedBytes 96) :=
  if m.network ≠ s.network then .error (.networkMismatch s.network.toNat m.network.toNat)
  else if m.chain ≠ s.chain then .error (.unknownChain m.chain)
  else .ok (AggregateScheme.encodeSig Key (s.sign m.id.bytes))

/-- What a node may be asked to sign. -/
inductive SignatureRequest where
  | message (name : Id)
  | block (name : Id)
deriving DecidableEq

/-- A node of a chain. -/
structure Attestor (Key Sig : Type) where
  network : UInt32
  chain : Id
  signer : Signer Key Sig
  cache : SignatureCache
  /-- The messages that the chain sent, by name, latest first. -/
  messages : List (Id × Message) := []
  /-- How often the signer was asked. -/
  signings : Nat := 0

namespace Attestor

variable {Key Sig : Type} [AggregateScheme Key Sig]

/-- A fresh signature over a message, which the cache keeps. -/
def signFresh (a : Attestor Key Sig) (name : Id) (m : Message) :
    Except MessageError (FixedBytes 96) × Attestor Key Sig :=
  let a := { a with signings := a.signings + 1 }
  match a.signer.attest m with
  | .ok signature => (.ok signature, { a with cache := a.cache.put name signature })
  | .error e => (.error e, a)

/-- A signature over a message, from the cache if it is there. -/
def sign (a : Attestor Key Sig) (m : Message) :
    Except MessageError (FixedBytes 96) × Attestor Key Sig :=
  match a.cache.get? m.id with
  | some signature => (.ok signature, a)
  | none => a.signFresh m.id m

/-- The node with a message that its chain sent, unless it cannot be signed. -/
def addMessage (a : Attestor Key Sig) (m : Message) :
    Except MessageError Unit × Attestor Key Sig :=
  let name := m.id
  match a.signFresh name m with
  | (.ok _, a) => (.ok (), { a with messages := (name, m) :: a.messages })
  | (.error e, a) => (.error e, a)

omit [AggregateScheme Key Sig] in
/-- The message with a name. -/
def message (a : Attestor Key Sig) (name : Id) : Except MessageError Message :=
  match a.messages.lookup name with
  | some m => .ok m
  | none => .error (.messageNotFound name)

omit [AggregateScheme Key Sig] in
/-- The message that a block of the chain was accepted. -/
def blockMessage (a : Attestor Key Sig) (block : Id) : Except MessageError Message :=
  Message.make a.network a.chain (Payload.blockHash block).bytes

/-- The node's answer to a request, where `accepted` tells the blocks of its chain. -/
def answer (a : Attestor Key Sig) (accepted : Id → Bool) :
    SignatureRequest → Except MessageError (FixedBytes 96) × Attestor Key Sig
  | .message name =>
    match a.message name with
    | .ok m => a.sign m
    | .error e => (.error e, a)
  | .block name =>
    if !accepted name then (.error (.blockNotAccepted name), a)
    else
      match a.blockMessage name with
      | .ok m => a.sign m
      | .error e => (.error e, a)

end Attestor

end Interchain
