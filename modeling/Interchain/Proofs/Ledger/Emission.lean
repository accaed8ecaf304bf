import Interchain.Proofs.Messenger
import Interchain.Simulation.Sequencer

/-!
# What transactions send

A transaction sends a message if it was executed successfully by the messenger as a call to
send a payload; the message is then that of its sender's call with this payload.  Exactly
these messages are told to those who follow the chain: a call announces nothing else, and
what it announces is read back from its receipt.
-/

namespace Interchain

/-- A message is the one of a chain in which an account calls with a payload. -/
def Message.IsCall (m : Message) (config : ChainConfig) (sender : Address) (payload : Bytes) :
    Prop :=
  ∃ call, Call.make sender payload = .ok call ∧
    Message.make config.network config.name call.bytes = .ok m

/-- Such a message is read as the call. -/
theorem Message.IsCall.parse_payload {m : Message} {config : ChainConfig} {sender : Address}
    {payload : Bytes} (h : m.IsCall config sender payload) :
  m.chain = config.name ∧ ∃ call, Payload.parse m.payload = .ok (.call call) ∧
    call.source = sender ∧ call.payload = payload
  := by
  obtain ⟨call, hcall, hm⟩ := h
  obtain ⟨-, hchain, hpayload⟩ := (Message.make_eq_ok_iff ..).mp hm
  use hchain, call
  rw [hpayload]
  exact ⟨Payload.parse_call call, (Call.make_eq_ok_iff ..).mp hcall⟩

/-- The transaction sent a message: it was a successful call to send a payload, and the message
is the call of its sender with this payload. -/
structure Sealing.Sends (a : Sealing) (config : ChainConfig) (m : Message) : Prop where
  successful : a.execution.successful = true
  recipient : a.transaction.recipient = messengerAddress
  emitted : ∃ payload call, Abi.Function.decode a.transaction.data = .ok (.send payload) ∧
    Call.make a.transaction.sender payload = .ok call ∧
    Message.make config.network config.name call.bytes = .ok m

namespace Chain

variable {c : Chain} {t : Transaction} {x : Execution}

/-- Nothing is sent where nothing is announced. -/
theorem sent_of_no_announcements (h : x.announcements = []) :
  (c.receiptFor t x).sent = []
  := by
  rw [Receipt.sent, receiptFor, h]
  rfl

/-- The message is read back from its announcement. -/
theorem sent_of_announcement {sender : Address} {m : Message}
    (h : x.announcements = [Messenger.announcement sender m]) :
  (c.receiptFor t x).sent = [m]
  := by
  have htopic (l : Log) (hl : l.topics = (Messenger.announcement sender m).topics) :
      [l].filter (·.topics.head? = some Abi.sendTopic) = [l] := by
    rw [List.filter_cons_of_pos, List.filter_nil]
    rw [hl]
    exact decide_eq_true rfl
  rw [Receipt.sent, receiptFor, h]
  dsimp only
  rw [List.map_singleton, htopic _ rfl, List.filterMap_cons]
  simp only [Messenger.announcement, Abi.decodeAnnounced_bytesArgument]
  rfl

/-- Exactly the messages that a transaction sent are told to those who follow the chain. -/
theorem mem_sent_iff {intrinsic : Nat} {results : PredicateResults}
    (hx : x = c.execute t intrinsic results) (block : Header) (m : Message) :
  m ∈ (c.receiptFor t x).sent ↔ Sealing.Sends ⟨t, x, block⟩ c.config m
  := by
  have hnone (hannouncements : x.announcements = [])
      (hsends : ¬ Sealing.Sends ⟨t, x, block⟩ c.config m) :
      m ∈ (c.receiptFor t x).sent ↔ Sealing.Sends ⟨t, x, block⟩ c.config m := by
    rw [sent_of_no_announcements hannouncements]
    exact ⟨fun h => absurd h List.not_mem_nil, fun h => absurd h hsends⟩
  rw [execute] at hx
  by_cases hrecipient : t.recipient = messengerAddress
  swap
  · rw [if_pos hrecipient] at hx
    apply hnone (by rw [hx])
    intro hsends
    exact hrecipient hsends.recipient
  rw [if_neg (not_not.mpr hrecipient)] at hx
  dsimp only at hx
  split at hx
  · next r hr =>
    by_cases hsend : ∃ payload, Abi.Function.decode t.data = .ok (.send payload)
    · obtain ⟨payload, hdecode⟩ := hsend
      rw [Messenger.execute, hdecode] at hr
      obtain ⟨call, message, hcall, hmessage, hannouncements⟩ := Messenger.announcements_send hr
      have hx' : x.announcements = [Messenger.announcement t.sender message] := by
        rw [hx, hannouncements]
      rw [sent_of_announcement hx', List.mem_singleton]
      constructor
      · rintro rfl
        exact ⟨by rw [hx], hrecipient, payload, call, hdecode, hcall, hmessage⟩
      · rintro ⟨-, -, payload', call', hdecode', hcall', hmessage'⟩
        rw [hdecode] at hdecode'
        cases hdecode'
        rw [hcall] at hcall'
        cases hcall'
        exact Except.ok.inj (hmessage'.symm.trans hmessage)
    · have hannouncements := Messenger.announcements_of_not_send hr (not_exists.mp hsend)
      apply hnone (by rw [hx, hannouncements])
      rintro ⟨-, -, payload, call, hdecode, -⟩
      exact hsend ⟨payload, hdecode⟩
  · apply hnone (by rw [hx])
    intro hsends
    have hsuccessful := hsends.successful
    rw [hx] at hsuccessful
    cases hsuccessful

/-- A call that sends a payload and is executed successfully announces one message, the call of
its sender with this payload. -/
theorem announcements_of_send {intrinsic : Nat} {results : PredicateResults} {payload : Bytes}
    (hx : x = c.execute t intrinsic results) (hsuccessful : x.successful = true)
    (hrecipient : t.recipient = messengerAddress)
    (hdata : t.data = (Abi.Function.send payload).encode) (hlength : payload.length < 2 ^ 256) :
  Abi.Function.decode t.data = .ok (.send payload) ∧
  ∃ m : Message, m.IsCall c.config t.sender payload ∧
    x.announcements = [Messenger.announcement t.sender m]
  := by
  rw [hx] at hsuccessful
  obtain ⟨r, hr, hannouncements⟩ := execute_of_successful hrecipient hsuccessful
  rw [Messenger.execute] at hr
  obtain ⟨f, hdecode, hr⟩ := bind_eq_ok_iff.mp hr
  obtain rfl := Abi.Function.eq_of_decode_encode_send hlength (hdata ▸ hdecode)
  use hdecode
  obtain ⟨call, m, hcall, hm, hannounced⟩ := Messenger.announcements_send hr
  rw [hx, hannouncements]
  exact ⟨m, ⟨call, hcall, hm⟩, hannounced⟩

/-- A call that sends a payload is executed successfully if there is gas for it and the payload
is not too long. -/
theorem successful_of_send (intrinsic : Nat) (results : PredicateResults) {payload : Bytes}
    (hrecipient : t.recipient = messengerAddress)
    (hdata : t.data = (Abi.Function.send payload).encode)
    (hgas : 41500 + 8 * payload.length ≤ t.gas.toNat - intrinsic)
    (hsize : payload.length + 76 ≤ Wire.maxSize) :
  (c.execute t intrinsic results).successful = true
  := by
  have hdecode : Abi.Function.decode t.data = .ok (.send payload) := by
    rw [hdata, ← List.append_nil (Abi.Function.encode _)]
    apply Abi.Function.decode_encode
    rintro _ ⟨⟩
    rw [Wire.maxSize] at hsize
    rw [UInt32.size]
    omega
  obtain ⟨r, hr⟩ := c.messenger.exists_send ⟨t.sender, false, results⟩ hgas rfl hsize
  have hexecute : c.messenger.execute ⟨t.sender, false, results⟩ t.data
      (t.gas.toNat - intrinsic) = .ok r := by
    rw [Messenger.execute, hdecode]
    exact hr
  rw [execute, if_neg (not_not.mpr hrecipient)]
  dsimp only
  rw [hexecute]

end Chain

end Interchain
