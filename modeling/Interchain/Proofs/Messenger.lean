import Interchain.Proofs.Exposure
import Interchain.Proofs.Ledger.Admission

/-!
# Calls of the messenger

A call that sends a payload announces one message, which wraps the payload in the name of its
caller, and it does so under three conditions: that the limit of gas covers its price, that the
call may change something and that the message is not too long.  No other call announces
anything.  `Messenger.execute_send` says all this of the data of calls, from which the payload is
decoded, and of those of the announcement, from which the message is.

A call that comes to something has used the gas that `Abi.Function.cost` says, which is within
its limit: this is `Messenger.gasUsed_of_execute`.
-/

namespace Interchain

namespace Messenger

/-! ### Sending -/

/-- The message is the one in which an account calls with a payload. -/
def Wraps (m : Messenger) (caller : Address) (payload : Bytes) (message : Message) : Prop :=
  ∃ call, Call.make caller payload = .ok call ∧
    Message.make m.network m.chain call.bytes = .ok message

/-- The announcement of a message of an account. -/
def announcement (sender : Address) (m : Message) : Announcement where
  topics := [Abi.sendTopic, sender.toWord, m.id.toFixedBytes]
  data := Abi.bytesArgument m.bytes

variable {m : Messenger} {ctx : CallContext} {payload : Bytes} {limit : Nat} {r : CallResult}

/-- The length of the encoding of a message that wraps a payload. -/
theorem Wraps.length_bytes {caller : Address} {message : Message}
    (h : m.Wraps caller payload message) :
  message.bytes.length = payload.length + 76
  := by
  obtain ⟨call, hcall, hmessage⟩ := h
  obtain ⟨-, hpayload⟩ := (Call.make_eq_ok_iff ..).mp hcall
  obtain ⟨-, -, hbytes⟩ := (Message.make_eq_ok_iff ..).mp hmessage
  rw [message.length_bytes, hbytes, call.length_bytes, hpayload]

/-- A payload is wrapped exactly if the message does not get too long. -/
theorem exists_wraps_iff (m : Messenger) (caller : Address) (payload : Bytes) :
  (∃ message, m.Wraps caller payload message) ↔ payload.length + 76 ≤ Wire.maxSize
  := by
  constructor
  · rintro ⟨message, h⟩
    rw [← h.length_bytes]
    apply message.length_bytes_le
  · intro h
    have hfits : payload.length + 34 ≤ Wire.maxSize := by omega
    obtain ⟨call, hcall⟩ := Call.exists_make caller hfits
    have hlength : call.bytes.length + 42 ≤ Wire.maxSize := by
      rw [call.length_bytes, ((Call.make_eq_ok_iff ..).mp hcall).2]
      omega
    obtain ⟨message, hmessage⟩ := Message.exists_make m.network m.chain hlength
    use message, call

/-- A call that sends comes to something if there is gas for it, it may change something and the
payload can be wrapped, and to nothing but the announcement of the message that wraps it. -/
theorem send_eq_ok_iff :
  m.send ctx payload limit = .ok r
    ↔ 41500 + 8 * payload.length ≤ limit ∧ ctx.readOnly = false ∧
      ∃ message, m.Wraps ctx.caller payload message ∧
        r = ⟨41500 + 8 * payload.length, message.id.bytes, [announcement ctx.caller message]⟩
  := by
  rw [send]
  constructor
  · intro h
    obtain ⟨gas, hprice, h⟩ := bind_eq_ok_iff.mp h
    obtain ⟨rfl, -⟩ := (Gas.checked_eq_ok_iff ..).mp hprice
    obtain ⟨_, hcharge, h⟩ := bind_eq_ok_iff.mp h
    use (Gas.charge_eq_ok_iff ..).mp hcharge
    by_cases hreadOnly : ctx.readOnly = true
    · rw [if_pos hreadOnly] at h
      cases h
    · rw [if_neg hreadOnly] at h
      obtain ⟨call, hcall, h⟩ := bind_eq_ok_iff.mp h
      obtain ⟨message, hmessage, h⟩ := bind_eq_ok_iff.mp h
      cases h
      use Bool.eq_false_of_not_eq_true hreadOnly, message
      exact ⟨⟨call, mapError_eq_ok_iff.mp hcall, mapError_eq_ok_iff.mp hmessage⟩, rfl⟩
  · rintro ⟨hgas, hreadOnly, message, hwraps, rfl⟩
    have hsize := (m.exists_wraps_iff ctx.caller payload).mp ⟨message, hwraps⟩
    have hprice : Gas.send payload.length = .ok (41500 + 8 * payload.length) := by
      apply (Gas.checked_eq_ok_iff ..).mpr
      rw [Wire.maxSize] at hsize
      rw [UInt64.size]
      exact ⟨rfl, by omega⟩
    have hcharge : Gas.charge (41500 + 8 * payload.length) limit = .ok () :=
      (Gas.charge_eq_ok_iff ..).mpr hgas
    obtain ⟨call, hcall, hmessage⟩ := hwraps
    rw [hprice]
    simp only [Bind.bind, Except.bind, hcharge, hreadOnly, ChainError.ofMessage, hcall, hmessage,
      Except.mapError]
    rfl

/-- A call that sends announces the message of its caller with the payload. -/
theorem announcements_send (h : m.send ctx payload limit = .ok r) :
  ∃ call message, Call.make ctx.caller payload = .ok call ∧
    Message.make m.network m.chain call.bytes = .ok message ∧
    r.announcements = [announcement ctx.caller message]
  := by
  obtain ⟨-, -, message, ⟨call, hcall, hmessage⟩, rfl⟩ := send_eq_ok_iff.mp h
  use call, message

/-- A call that sends a payload comes to something if there is gas for it, the call may change
something and the payload is not too long. -/
theorem exists_send (m : Messenger) (ctx : CallContext)
    (hgas : 41500 + 8 * payload.length ≤ limit) (hreadOnly : ctx.readOnly = false)
    (hsize : payload.length + 76 ≤ Wire.maxSize) :
  ∃ r, m.send ctx payload limit = .ok r
  := by
  obtain ⟨message, hwraps⟩ := (m.exists_wraps_iff ctx.caller payload).mpr hsize
  exact ⟨_, send_eq_ok_iff.mpr ⟨hgas, hreadOnly, message, hwraps, rfl⟩⟩

/-! ### All calls -/

/-- A call that does not send announces nothing. -/
theorem announcements_of_not_send {input : Bytes} (h : m.execute ctx input limit = .ok r)
    (hf : ∀ payload, Abi.Function.decode input ≠ .ok (.send payload)) :
  r.announcements = []
  := by
  obtain ⟨f, hdecode, h⟩ := bind_eq_ok_iff.mp h
  cases f with
  | send payload => exact absurd hdecode (hf payload)
  | readCall index =>
      cases (readCall_eq_ok_iff ..).mp h with
      | absent => rfl
      | present => rfl
  | readBlock index =>
      cases (readBlock_eq_ok_iff ..).mp h with
      | absent => rfl
      | present => rfl
  | chainName =>
      obtain ⟨-, -, h⟩ := bind_eq_ok_iff.mp h
      cases h
      rfl

/-- A call that may not change anything announces nothing. -/
theorem announcements_of_readOnly {input : Bytes} (hreadOnly : ctx.readOnly = true)
    (h : m.execute ctx input limit = .ok r) :
  r.announcements = []
  := by
  apply announcements_of_not_send h
  intro payload hdecode
  rw [execute, hdecode] at h
  obtain ⟨-, hchanges, -⟩ := send_eq_ok_iff.mp h
  rw [hreadOnly] at hchanges
  cases hchanges

/-- The data of a call that sends are executed as such a call. -/
theorem execute_encode_send (m : Messenger) (ctx : CallContext) (limit : Nat)
    (hlength : payload.length < 2 ^ 32) :
  m.execute ctx (Abi.Function.send payload).encode limit = m.send ctx payload limit
  := by
  have hdecode : Abi.Function.decode ((Abi.Function.send payload).encode ++ [])
      = .ok (.send payload) := by
    apply Abi.Function.decode_encode
    rintro _ ⟨⟩
    exact hlength
  rw [List.append_nil] at hdecode
  rw [execute, hdecode]
  rfl

/-- The data of a call that sends a payload come to something exactly if the limit covers the
price, the call may change something and the message is not too long.  What they come to is one
announcement, from which the message that wraps the payload is decoded and which names the caller
and the message, and the name of the message.  A call that may not change anything announces
nothing, whatever its data. -/
theorem execute_send (m : Messenger) (ctx : CallContext) (payload : Bytes) (limit : Nat)
    (hlength : payload.length < 2 ^ 32) :
  let sent := m.execute ctx (Abi.Function.send payload).encode limit
  ((∃ r, sent = .ok r)
    ↔ 41500 + 8 * payload.length ≤ limit ∧ ctx.readOnly = false ∧
      payload.length + 76 ≤ Wire.maxSize) ∧
  (∀ r, sent = .ok r → ∃ message a,
    m.Wraps ctx.caller payload message ∧ message.bytes.length = payload.length + 76 ∧
    r.announcements = [a] ∧ Abi.decodeAnnounced a.data = .ok message ∧
    a.topics = [Abi.sendTopic, ctx.caller.toWord, message.id.toFixedBytes] ∧
    r.output = message.id.bytes) ∧
  ∀ input limit r, ctx.readOnly = true → m.execute ctx input limit = .ok r →
    r.announcements = []
  := by
  intro sent
  have hsent : sent = m.send ctx payload limit := m.execute_encode_send ctx limit hlength
  rw [hsent]
  refine ⟨?_, ?_, fun _ _ _ => announcements_of_readOnly⟩
  · rw [← m.exists_wraps_iff ctx.caller]
    constructor
    · rintro ⟨r, h⟩
      obtain ⟨hgas, hreadOnly, message, hwraps, -⟩ := send_eq_ok_iff.mp h
      use hgas, hreadOnly, message
    · rintro ⟨hgas, hreadOnly, message, hwraps⟩
      exact ⟨_, send_eq_ok_iff.mpr ⟨hgas, hreadOnly, message, hwraps, rfl⟩⟩
  · intro r h
    obtain ⟨-, -, message, hwraps, rfl⟩ := send_eq_ok_iff.mp h
    use message, announcement ctx.caller message, hwraps, hwraps.length_bytes, rfl
    exact ⟨Abi.decodeAnnounced_bytesArgument message, rfl, rfl⟩

/-- A payload of more than a word, which is padded to two, is sent at its price and not for less. -/
theorem execute_send_padded :
  let payload : Bytes := (List.range 33).map UInt8.ofNat
  let m : Messenger := ⟨1, .zero⟩
  let ctx : CallContext := ⟨⟨.replicate 20 1⟩, false, []⟩
  payload.length < 2 ^ 32 ∧
  (Abi.Function.send payload).encode = Abi.sendSelector ++
    (Abi.natWord 32 ++ (Abi.natWord 33 ++ payload ++ Bytes.zeros 31)) ∧
  (¬ ∃ r, m.execute ctx (Abi.Function.send payload).encode 41763 = .ok r) ∧
  ∃ r message a,
    m.execute ctx (Abi.Function.send payload).encode 41764 = .ok r ∧
    m.Wraps ctx.caller payload message ∧ message.bytes.length = 109 ∧ r.announcements = [a] ∧
    Abi.decodeAnnounced a.data = .ok message ∧
    a.topics = [Abi.sendTopic, ctx.caller.toWord, message.id.toFixedBytes] ∧
    r.output = message.id.bytes
  := by
  intro payload m ctx
  have hcount : payload.length = 33 := rfl
  have hlength : payload.length < 2 ^ 32 := by
    rw [hcount]
    norm_num
  obtain ⟨hless, -⟩ := m.execute_send ctx payload 41763 hlength
  obtain ⟨hexists, hresult, -⟩ := m.execute_send ctx payload 41764 hlength
  rw [hcount] at hless hexists
  obtain ⟨r, hr⟩ := hexists.mpr (by decide)
  obtain ⟨message, a, hwraps, hsize, hsent⟩ := hresult r hr
  rw [hcount] at hsize
  refine ⟨hlength, ?_, ?_, r, message, a, hr, hwraps, hsize, hsent⟩
  · rw [Abi.Function.encode, Abi.bytesArgument, Abi.bytesTail, hcount]
  · rw [hless]
    decide

end Messenger

/-! ### Prices -/

/-- The results show these messages, each at its place, wherever they are no errors. -/
structure PredicateResults.Show (results : PredicateResults)
    (messages : Nat → Option SignedMessage) : Prop where
  absent : ∀ i, results[i]? = none → messages i = none
  present : ∀ i m, results[i]? = some (.ok m) → messages i = some m

/-- Results show the messages that they are. -/
theorem PredicateResults.exists_show (results : PredicateResults) :
  ∃ messages, results.Show messages
  := by
  use fun i => results[i]?.bind Except.toOption
  constructor
  · intro i hi
    rw [hi]
    rfl
  · intro i m hi
    rw [hi]
    rfl

namespace Abi.Function

/-- The price of reading a message, or of being told that there is none. -/
def readCost : Option SignedMessage → Nat
  | none => Gas.readBase
  | some m => Gas.readBase + 100 * m.bytes.length

/-- The price of a call where some messages can be read. -/
def cost (messages : Nat → Option SignedMessage) : Abi.Function → Nat
  | send payload => 41500 + 8 * payload.length
  | readCall i => readCost (messages i.toNat)
  | readBlock i => readCost (messages i.toNat)
  | chainName => Gas.chainName

end Abi.Function

namespace Messenger

variable {messages : Nat → Option SignedMessage}

/-- Reading uses the gas for the message that is read, and there is enough of it. -/
theorem Reads.gasUsed_eq {α : Type} [Inhabited α] {results : PredicateResults}
    {IsReadOf : SignedMessage → α → Prop} {encode : α → Bool → Bytes} {i limit : Nat}
    {r : CallResult} (h : Reads results IsReadOf encode i limit r) (hshow : results.Show messages) :
  r.gasUsed = Abi.Function.readCost (messages i) ∧ r.gasUsed ≤ limit
  := by
  cases h with
  | absent hnone hgas =>
      rw [hshow.absent i hnone]
      exact ⟨rfl, hgas⟩
  | present hm _ hgas =>
      rw [hshow.present i _ hm]
      exact ⟨rfl, hgas⟩

/-- A call uses the gas that its function costs, and there is enough of it. -/
theorem gasUsed_of_execute {m : Messenger} {ctx : CallContext} {input : Bytes} {limit : Nat}
    {r : CallResult} (h : m.execute ctx input limit = .ok r)
    (hshow : ctx.predicates.Show messages) :
  ∃ f, Abi.Function.decode input = .ok f ∧ r.gasUsed = f.cost messages ∧ r.gasUsed ≤ limit
  := by
  obtain ⟨f, hdecode, h⟩ := bind_eq_ok_iff.mp h
  use f, hdecode
  cases f with
  | send payload =>
      obtain ⟨hgas, -, message, -, rfl⟩ := send_eq_ok_iff.mp h
      exact ⟨rfl, hgas⟩
  | readCall i => exact ((readCall_eq_ok_iff ..).mp h).gasUsed_eq hshow
  | readBlock i => exact ((readBlock_eq_ok_iff ..).mp h).gasUsed_eq hshow
  | chainName =>
      obtain ⟨_, hcharge, h⟩ := bind_eq_ok_iff.mp h
      cases h
      exact ⟨rfl, (Gas.charge_eq_ok_iff ..).mp hcharge⟩

end Messenger

end Interchain
