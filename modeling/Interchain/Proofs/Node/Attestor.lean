import Interchain.Node.Attestor
import Interchain.Proofs.Node.SignatureCache
import Interchain.Proofs.RoundTrip

/-!
# What a node attests

`Attestor.Attests` says of a node that it keeps messages of its chain with certain names,
and that whatever its cache keeps is its signature over the name for which it is kept.  A
node stays so whatever it is asked, and answers by its signature exactly if it keeps the
message, or if the block was accepted; what the cache forgot makes no difference.
-/

namespace Interchain

variable {Key Sig : Type} [AggregateScheme Key Sig]

/-- A node of a chain, with its key, that was not handed a message yet. -/
def Attestor.ofChain (network : UInt32) (chain : Id) (key : Key) (sign : Bytes → Sig)
    (capacity : Nat) : Attestor Key Sig where
  network := network
  chain := chain
  signer := ⟨network, chain, key, sign⟩
  cache := .ofCapacity capacity

namespace Attestor

/-- The signature over the name of a message, in its byte form. -/
def signature (Key : Type) {Sig : Type} [AggregateScheme Key Sig] (sign : Bytes → Sig)
    (name : Id) : FixedBytes 96 :=
  AggregateScheme.encodeSig Key (sign name.bytes)

/-- The node is one of the chain, keeps the messages with the names that are held, and its cache
keeps its signatures only. -/
structure Attests (a : Attestor Key Sig) (network : UInt32) (chain : Id) (sign : Bytes → Sig)
    (Held : Id → Prop) : Prop where
  network_eq : a.network = network
  chain_eq : a.chain = chain
  signer_network : a.signer.network = network
  signer_chain : a.signer.chain = chain
  signer_sign : a.signer.sign = sign
  cached : ∀ name s, a.cache.get? name = some s → s = signature Key sign name
  own : ∀ e ∈ a.messages, e.2.id = e.1 ∧ e.2.network = network ∧ e.2.chain = chain
  held : ∀ name, Held name ↔ ∃ e ∈ a.messages, e.1 = name

variable {a : Attestor Key Sig} {network : UInt32} {chain : Id} {sign : Bytes → Sig}
  {Held : Id → Prop}

/-- A new node holds nothing. -/
theorem attests_ofChain (network : UInt32) (chain : Id) (key : Key) (sign : Bytes → Sig)
    (capacity : Nat) :
  (ofChain network chain key sign capacity).Attests network chain sign fun _ => False
  := by
  constructor <;> simp [ofChain, SignatureCache.ofCapacity, SignatureCache.get?, Table.get?]

/-- What is held may be said in other words. -/
theorem Attests.congr (h : a.Attests network chain sign Held) {Held' : Id → Prop}
    (hh : ∀ name, Held' name ↔ Held name) :
  a.Attests network chain sign Held'
  := { h with held := fun name => (hh name).trans (h.held name) }

namespace Attests

variable (h : a.Attests network chain sign Held)

include h

/-- A fresh signature over a message of the chain is the node's, and the cache may keep it. -/
theorem signFresh {m : Message} (hn : m.network = network) (hc : m.chain = chain) :
  ∃ cache, a.signFresh m.id m
      = (.ok (signature Key sign m.id), { a with signings := a.signings + 1, cache }) ∧
    ∀ name s, cache.get? name = some s → s = signature Key sign name
  := by
  have hattest : a.signer.attest m = .ok (signature Key sign m.id) := by
    rw [Signer.attest, if_neg (not_not.mpr (hn.trans h.signer_network.symm)),
      if_neg (not_not.mpr (hc.trans h.signer_chain.symm)), h.signer_sign]
    rfl
  use a.cache.put m.id (signature Key sign m.id)
  constructor
  · rw [Attestor.signFresh]
    simp only [hattest]
  · intro name s hs
    obtain ⟨rfl, rfl⟩ | hs := SignatureCache.get?_put_cases hs
    · rfl
    · exact h.cached name s hs

/-- The signature over a message of the chain is the node's, whether or not the cache kept it. -/
theorem sign_eq {m : Message} (hn : m.network = network) (hc : m.chain = chain) :
  (a.sign m).1 = .ok (signature Key sign m.id) ∧
  (a.sign m).2.Attests network chain sign Held
  := by
  rw [Attestor.sign]
  cases hget : a.cache.get? m.id with
  | some s =>
      rw [h.cached m.id s hget]
      exact ⟨rfl, h⟩
  | none =>
      obtain ⟨cache, hfresh, hcache⟩ := h.signFresh hn hc
      rw [hfresh]
      exact ⟨rfl, { h with cached := hcache }⟩

/-- A node that is handed a message of its chain holds it too. -/
theorem addMessage {m : Message} (hn : m.network = network) (hc : m.chain = chain) :
  (a.addMessage m).2.Attests network chain sign fun name => m.id = name ∨ Held name
  := by
  obtain ⟨cache, hfresh, hcache⟩ := h.signFresh hn hc
  rw [Attestor.addMessage, hfresh]
  refine { h with cached := hcache, own := ?_, held := ?_ }
  · rw [List.forall_mem_cons]
    exact ⟨⟨rfl, hn, hc⟩, h.own⟩
  · intro name
    show m.id = name ∨ Held name ↔ ∃ e ∈ (m.id, m) :: a.messages, e.1 = name
    rw [List.exists_mem_cons_iff, h.held]

/-- A node finds exactly the messages that it holds. -/
theorem message_cases (name : Id) :
  (Held name ∧ ∃ m, a.message name = .ok m ∧ m.id = name ∧ m.network = network ∧
    m.chain = chain) ∨
  (¬ Held name ∧ ∃ e, a.message name = .error e)
  := by
  rw [Attestor.message]
  cases hlookup : a.messages.lookup name with
  | some m =>
      left
      have hmem : (name, m) ∈ a.messages := Table.mem_of_lookup_eq_some hlookup
      exact ⟨(h.held name).mpr ⟨(name, m), hmem, rfl⟩, m, rfl, h.own (name, m) hmem⟩
  | none =>
      right
      refine ⟨?_, _, rfl⟩
      intro hheld
      obtain ⟨e, he, rfl⟩ := (h.held name).mp hheld
      exact bne_iff_ne.mp (List.lookup_eq_none_iff.mp hlookup e he) rfl

/-- A node answers a request for a message by its signature if it holds the message, and
otherwise with an error. -/
theorem answer_message (accepted : Id → Bool) (name : Id) (s : FixedBytes 96) :
  (a.answer accepted (.message name)).1 = .ok s ↔ Held name ∧ s = signature Key sign name
  := by
  rw [answer]
  obtain ⟨hheld, m, hm, rfl, hn, hc⟩ | ⟨hheld, e, he⟩ := h.message_cases name
  · rw [hm]
    simp only [(h.sign_eq hn hc).1, Except.ok.injEq, hheld, true_and, eq_comm]
  · rw [he]
    simp [hheld]

omit [AggregateScheme Key Sig] h in
/-- The attestation of a block can always be put together. -/
theorem exists_blockMessage (network : UInt32) (chain block : Id) :
  ∃ m, Message.make network chain (Payload.blockHash block).bytes = .ok m
  := by
  apply Message.exists_make
  simp only [Payload.bytes, Wire.header, Wire.Field.bytes, Bytes.ofUInt16, Bytes.ofUInt32,
    List.length_append, Bytes.length_ofNat, block.length_eq, Wire.maxSize]
  omega

/-- A node answers a request for a block by its signature over the attestation of the block if
the block was accepted, and otherwise with an error. -/
theorem answer_block (accepted : Id → Bool) (block : Id) (s : FixedBytes 96) :
  (a.answer accepted (.block block)).1 = .ok s
    ↔ accepted block = true ∧
      ∃ m, Message.make network chain (Payload.blockHash block).bytes = .ok m ∧
        s = signature Key sign m.id
  := by
  obtain ⟨m, hm⟩ := exists_blockMessage network chain block
  obtain ⟨hn, hc, -⟩ := (Message.make_eq_ok_iff ..).mp hm
  rw [answer]
  cases accepted block with
  | false => simp
  | true =>
      simp only [Bool.not_true, Bool.false_eq_true, if_false, blockMessage, h.network_eq,
        h.chain_eq, hm, (h.sign_eq hn hc).1, Except.ok.injEq, true_and, exists_eq_left', eq_comm]

/-- A node stays as it is in all that it attests, whatever it is asked. -/
theorem answer (accepted : Id → Bool) (r : SignatureRequest) :
  (a.answer accepted r).2.Attests network chain sign Held
  := by
  cases r with
  | message name =>
      rw [Attestor.answer]
      obtain ⟨-, m, hm, -, hn, hc⟩ | ⟨-, e, he⟩ := h.message_cases name
      · rw [hm]
        exact (h.sign_eq hn hc).2
      · rw [he]
        exact h
  | block block =>
      obtain ⟨m, hm⟩ := exists_blockMessage network chain block
      obtain ⟨hn, hc, -⟩ := (Message.make_eq_ok_iff ..).mp hm
      rw [Attestor.answer]
      cases accepted block with
      | false => exact h
      | true =>
          simp only [Bool.not_true, Bool.false_eq_true, if_false, blockMessage, h.network_eq,
            h.chain_eq, hm]
          exact (h.sign_eq hn hc).2

end Attests

end Attestor

end Interchain
