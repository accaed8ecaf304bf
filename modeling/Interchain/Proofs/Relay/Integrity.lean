import Interchain.Proofs.Relay.Quiet

/-!
# What a relayer carries

A relayer that carries a payload from one chain to another and is done with it emitted the
message of the sender and the payload on the source, had this message attested, and delivered
it: either the destination accepted the signed message and its messenger showed the sender and
the payload, or the delivery failed.  `RelayConfig.relay_carries` says so of chains that others
use at the same time.
-/

namespace Interchain

variable {σ Key Sig : Type}

/-- The chain at a site sealed a transaction since an earlier state. -/
def World.HasSealed (w : World Key Sig) (i : Nat) (s₀ : Site) (a : Sealing) : Prop :=
  ∃ done s, w.sites[i]? = some s ∧ s₀.GrowsTo done s ∧ a ∈ done

theorem World.HasSealed.of_growsTo {w w' : World Key Sig} {i : Nat} {s₀ : Site} {a : Sealing}
    (h : w.HasSealed i s₀ a) (hg : w.GrowsTo w') :
  w'.HasSealed i s₀ a
  := by
  obtain ⟨done, s, hs, hgrown, ha⟩ := h
  obtain ⟨later, s', hs', hgrown'⟩ := hg.sites hs
  exact ⟨_, s', hs', hgrown.trans hgrown', List.mem_append_left _ ha⟩

namespace RelayConfig

/-! ### Growth -/

section Grows

variable {world : σ → World Key Sig} {c : RelayConfig} {clock : Clock σ} {chain : ChainAccess σ}

theorem grows_submit (h : chain.Grows world) (reader : Nat) (t : Transaction) :
  Grows world (c.submit clock chain reader t).run
  := by
  apply (h.submit t).run_bind
  intro transaction s
  apply grows_awaitBlock h reader transaction _ _ s

theorem grows_submitNext {α : Type} {sender : Address} {f : UInt64 → Transaction}
    {g : Header × Receipt → Action σ α} (h : chain.Grows world)
    (hg : ∀ found, Grows world (g found).run) :
  Grows world (do
    let reader ← chain.subscribe
    let nonce ← chain.nonceOf sender
    let found ← c.submit clock chain reader (f nonce)
    g found : Action σ α).run
  := by
  apply h.subscribe.run_lift.run_bind
  intro reader
  apply (h.nonceOf sender).run_bind
  intro nonce
  apply (grows_submit h reader _).run_bind hg

theorem grows_readBack (h : chain.Grows world) (block : Header) (receipt : Receipt) :
  Grows world (readBack chain block receipt).run
  := by
  rw [readBack]
  split
  · exact .run_except (.error _)
  · apply (h.logs block.hash messengerAddress).run_bind
    intro logs
    split
    · next log =>
      apply (Grows.run_except (Abi.decodeAnnounced log.data)).run_bind
      intro message
      apply (Grows.run_except (ChainError.ofMessage _)).run_bind
      intro blockMessage
      apply Grows.pure
    · exact .run_except (.error _)

theorem grows_send (h : chain.Grows world) (sender : Address) (payload : Bytes) :
  Grows world (c.send clock chain sender payload).run
  := grows_submitNext h fun found => grows_readBack h found.1 found.2

theorem grows_awaitHeight (h : chain.Grows world)
    (hclock : ∀ d s, (world s).GrowsTo (world (clock.sleep d s))) (height : UInt64)
    (deadline polls : Nat) :
  Grows world (c.awaitHeight clock chain height deadline polls).run
  := by
  induction polls with
  | zero => exact .run_except (.error _)
  | succ n ih =>
      apply h.height.run_bind
      intro current
      dsimp only
      split
      · apply Grows.pure
      · apply Grows.run_get_bind
        intro s
        have hrest : Grows world (do
            modify (clock.sleep c.pollInterval)
            c.awaitHeight clock chain height deadline n : Action σ Unit).run :=
          (Grows.modify (hclock _)).run_lift.run_bind fun _ => ih
        split
        · exact (Grows.run_except (.error _)).run_bind fun _ => hrest
        · exact hrest

theorem grows_awaitHeights (hclock : ∀ d s, (world s).GrowsTo (world (clock.sleep d s)))
    {chains : List (ChainAccess σ)} (h : ∀ chain ∈ chains, chain.Grows world) (height : UInt64) :
  Grows world (c.awaitHeights clock chains height).run
  := by
  apply Grows.run_get_bind
  intro s
  apply (Grows.run_forIn _ _).run_bind fun _ => Grows.pure _
  intro chain hchain _
  apply Grows.run_get_bind
  intro s
  apply (grows_awaitHeight (h chain hchain) hclock _ _ _).run_bind
  intro
  apply Grows.pure

theorem grows_deliver (h : chain.Grows world) (sender : Address) (data : Bytes)
    (signed : SignedMessage) :
  Grows world (c.deliver clock chain sender data signed).run
  := grows_submitNext h fun _ => .pure _

end Grows

/-! ### Emission -/

section Chains

variable [AggregateScheme Key Sig] {T : Traffic σ Key Sig} {c : RelayConfig} {client i : Nat}
  {s s' : σ} {s₀ site : Site} {done : List Sealing} {sender : Address}

/-- What is read back of a transaction that calls the messenger to send a payload is the message
of its sender with this payload. -/
theorem readBack_eq_ok {payload : Bytes} {a : Sealing} {o : Sent}
    (h : (readBack (T.access s₀.chain.config client) a.block a.receipt).run s = (.ok o, s'))
    (hserves : (T.world s).Serves client i s₀ done site)
    (hseparates : (T.world s').Separates i s₀) (ha : a ∈ done)
    (hrecipient : a.transaction.recipient = messengerAddress)
    (hdata : a.transaction.data = (Abi.Function.send payload).encode)
    (hlength : payload.length < 2 ^ 256) :
  o.block = a.block ∧ o.receipt = a.receipt ∧
  o.message.IsCall s₀.chain.config a.transaction.sender payload ∧
  a.Sends s₀.chain.config o.message ∧
  Message.make s₀.chain.config.network s₀.chain.config.name
    (Payload.blockHash o.block.hash).bytes = .ok o.blockMessage
  := by
  rw [readBack] at h
  split at h
  · cases h
  · next hsuccessful =>
    obtain ⟨logs, s₁, hlogs, h⟩ := Action.run_bind_eq_ok_iff.mp h
    split at h
    · next log =>
      obtain ⟨message, s₂, hmessage, h⟩ := Action.run_bind_eq_ok_iff.mp h
      obtain ⟨hmessage, rfl⟩ := Action.run_except_eq_ok_iff.mp hmessage
      obtain ⟨blockMessage, s₃, hblock, h⟩ := Action.run_bind_eq_ok_iff.mp h
      obtain ⟨hblockMessage, rfl⟩ := Action.run_except_eq_ok_iff.mp hblock
      cases h
      have hsuccessful : a.execution.successful = true := by
        simpa [Sealing.receipt] using hsuccessful
      obtain ⟨before, c', intrinsic, results, -, hgrown, -, hx, -⟩ :=
        hserves.grown.grown.exists_execute ha
      obtain ⟨hdecode, m, hm, hannouncements⟩ :=
        Chain.announcements_of_send hx hsuccessful hrecipient hdata hlength
      rw [hgrown.config_eq] at hm
      obtain ⟨later, site', hserves', hlogs⟩ := T.logs_of_run_eq hlogs hserves
      rw [hserves'.logs_eq hseparates (List.mem_append_left _ ha), Sealing.receipt,
        hannouncements] at hlogs
      cases hlogs
      rw [Messenger.announcement, Abi.decodeAnnounced_bytesArgument] at hmessage
      cases hmessage
      obtain ⟨call, hmake, hmessage⟩ := hm
      rw [((Message.make_eq_ok_iff ..).mp hmessage).1] at hblockMessage
      exact ⟨rfl, rfl, ⟨call, hmake, hmessage⟩,
        ⟨hsuccessful, hrecipient, payload, call, hdecode, hmake, hmessage⟩,
        mapError_eq_ok_iff.mp hblockMessage⟩
    · cases h

/-- The message that a sealed transaction announced is read back from its block, whatever others
do meanwhile, as long as no hashes collide. -/
theorem exists_readBack {a : Sealing} {m : Message}
    (hserves : (T.world s).Serves client i s₀ done site) (ha : a ∈ done)
    (hseparates : (T.world (T.others s)).Separates i s₀)
    (hsuccessful : a.execution.successful = true)
    (hannouncements : a.execution.announcements
      = [Messenger.announcement a.transaction.sender m]) :
  ∃ o s', o.message = m ∧ o.block = a.block ∧ T.world s' = T.world (T.others s) ∧
    (readBack (T.access s₀.chain.config client) a.block a.receipt).run s = (.ok o, s')
  := by
  obtain ⟨later, site', hserves'⟩ := hserves.of_growsTo (T.grows_others s)
  rcases hlogs : ((T.access s₀.chain.config client).logs a.block.hash messengerAddress).run s
    with ⟨found, s'⟩
  have hrun := T.eq_of_during_eq
    (x := fun _ => (World.logs client a.block.hash messengerAddress).run) hlogs
  rw [World.logs_eq hserves'.client_eq hserves'.site_eq,
    hserves'.logs_eq hseparates (List.mem_append_left _ ha)] at hrun
  obtain ⟨rfl, hworld⟩ := Prod.mk_inj.mp hrun
  obtain ⟨log, hlog, hdecode⟩ := a.logs_receipt hannouncements
  rw [hlog] at hlogs
  obtain ⟨o, hmessage, hblock, hread⟩ :=
    readBack_of_logs (r := a.receipt) hsuccessful hlogs hdecode
  exact ⟨o, s', hmessage, hblock, hworld.symm, hread⟩

/-- A relayer that sends a payload has the message of the sender and the payload emitted in the
block that it tells. -/
theorem send_eq_ok {payload : Bytes} {o : Sent}
    (h : (c.send T.clock (T.access s₀.chain.config client) sender payload).run s = (.ok o, s'))
    (hserves : (T.world s).Serves client i s₀ done site) (hlength : payload.length < 2 ^ 256)
    (hseparates : (T.world s').Separates i s₀) :
  o.message.IsCall s₀.chain.config sender payload ∧
  ∃ a, (T.world s').HasSealed i s₀ a ∧ a.Sends s₀.chain.config o.message ∧
    o.block = a.block ∧ o.receipt = a.receipt
  := by
  have hgrows := T.grows_access s₀.chain.config client
  obtain ⟨nonce, s₁, later, site₁, a, hserves₁, ha, ht, -, -, h⟩ :=
    submitNext_eq_ok (fun found => grows_readBack hgrows found.1 found.2) h hserves hseparates
  have ha := List.mem_append_right done ha
  have hsent := readBack_eq_ok h hserves₁ hseparates ha (by rw [ht]; rfl) (by rw [ht]; rfl) hlength
  obtain ⟨hblock, hreceipt, hcall, hsends, -⟩ := hsent
  obtain ⟨later', site', hserves'⟩ := hserves₁.of_growsTo ((grows_readBack hgrows _ _).growsTo h)
  rw [ht] at hcall
  exact ⟨hcall, a, ⟨_, site', hserves'.site_eq, hserves'.grown, List.mem_append_left _ ha⟩,
    hsends, hblock, hreceipt⟩

/-! ### Delivery -/

/-- A signed message was delivered between two states to the chain at a site: it was carried by
a call that reads it.  If this call succeeded, the chain had accepted the message and showed what
it was to show; otherwise it came to nothing and cost all gas. -/
structure Delivered (T : Traffic σ Key Sig) (c : RelayConfig) (s s' : σ) (client i : Nat)
    (s₀ : Site) (sender : Address) (m : SignedMessage) (w : Abi.VerifiedCall) (a : Sealing) :
    Prop where
  sealed : (T.world s').HasSealed i s₀ a
  transaction : ∃ nonce, a.transaction = (c.transaction (T.access s₀.chain.config client) sender
    nonce c.deliverGas (Abi.Function.readCall 0).encode).withPredicate messengerAddress m.bytes
  shown : a.receipt.successful = true → T.Meanwhile s s' i fun s₁ chain =>
    chain.config = s₀.chain.config ∧
      chain.Delivers (T.answers s₁ i) a.transaction a.execution m w
  failed : a.receipt.successful = false →
    a.receipt.logs = [] ∧ a.receipt.gasUsed = c.deliverGas.toNat

/-- What was delivered since a state was delivered since an earlier one. -/
theorem Delivered.of_growsTo {r : σ} {m : SignedMessage} {w : Abi.VerifiedCall} {a : Sealing}
    (h : Delivered T c s s' client i s₀ sender m w a) (hg : (T.world r).GrowsTo (T.world s)) :
  Delivered T c r s' client i s₀ sender m w a
  where
  sealed := h.sealed
  transaction := h.transaction
  shown hsuccessful := (h.shown hsuccessful).mono hg (.refl _) fun _ _ hshown => hshown
  failed := h.failed

/-- A relayer that delivers a signed message with a call tells the receipt of its delivery. -/
theorem deliver_eq_ok {call : Call} {m : SignedMessage} {r : Receipt}
    (h : (c.deliver T.clock (T.access s₀.chain.config client) sender
      (Abi.Function.readCall 0).encode m).run s = (.ok r, s'))
    (hserves : (T.world s).Serves client i s₀ done site)
    (hseparates : (T.world s').Separates i s₀)
    (hcall : Payload.parse m.message.payload = .ok (.call call)) :
  ∃ a, r = a.receipt ∧
    Delivered T c s s' client i s₀ sender m ⟨m.message.chain, call.source, call.payload⟩ a
  := by
  obtain ⟨nonce, s₁, later, site₁, a, hserves₁, ha, ht, hperformed, -, h⟩ :=
    submitNext_eq_ok (fun _ => .pure _) h hserves hseparates
  cases h
  have ha := List.mem_append_right done ha
  refine ⟨a, rfl, ⟨_, site₁, hserves₁.site_eq, hserves₁.grown, ha⟩, ⟨nonce, ht⟩, ?shown, ?failed⟩
  case shown =>
    intro hsuccessful
    obtain ⟨s₁, site', hbefore, hafter, hsite, hx⟩ := hperformed
    obtain ⟨between, _, hserves₂⟩ := hserves.of_growsTo hbefore
    cases hserves₂.site_eq.symm.trans hsite
    refine ⟨s₁, site', hbefore, hafter, hsite, hserves₂.grown.grown.config_eq, ?_⟩
    apply Chain.delivers_of_performUnder hx hsuccessful (by rw [ht]; rfl) (by rw [ht]; rfl) _ hcall
    rw [ht, Transaction.predicatesFor_withPredicate_self]
    rfl
  case failed =>
    intro hfailed
    obtain ⟨before, c', intrinsic, results, -, -, -, hx, -⟩ :=
      hserves₁.grown.grown.exists_execute ha
    have hfailed : a.execution.successful = false := hfailed
    rw [hx] at hfailed
    obtain ⟨e, hfails⟩ := Chain.successful_execute_eq_false_iff.mp hfailed
    rw [Sealing.receipt, hx, hfails.execute_eq, ht]
    exact ⟨rfl, rfl⟩

/-! ### Relaying -/

/-- What a relayer tells of a payload that it carried between two states from the chain at one
site to the chain at another one is so. -/
structure Carried (T : Traffic σ Key Sig) (c : RelayConfig) (s s' : σ) (i : Nat) (source : Site)
    (destination j : Nat) (target : Site) (sender : Address) (payload : Bytes) (o : Relayed) :
    Prop where
  message : o.sent.message.IsCall source.chain.config sender payload
  emitted : ∃ a, (T.world s').HasSealed i source a ∧
    a.Sends source.chain.config o.sent.message ∧
    o.sent.block = a.block ∧ o.sent.receipt = a.receipt
  attested : o.attested.message.message = o.sent.message
  delivered : ∃ a, o.receipt = a.receipt ∧
    Delivered T c s s' destination j target sender o.attested.message
      ⟨source.chain.config.name, sender, payload⟩ a

/-- What a relayer tells of a payload that it carried from one chain to another one is so, whoever
attests the message and whatever others do meanwhile, as long as no hashes collide: the message
was emitted in the block, it is the one that was attested, and what its delivery showed was the
sender and the payload, on the word of the validators of its chain. -/
theorem relay_carries (T : Traffic σ Key Sig) (aggregator : T.Aggregator) (c : RelayConfig)
    {s s' : σ} {i j : Nat} {source target : Site} (clients : List Nat) (destination : Nat)
    (sender : Address) (payload : Bytes) {o : Relayed}
    (hsource : (T.world s).sites[i]? = some source)
    (htarget : (T.world s).sites[j]? = some target)
    (hclients : ∀ k ∈ clients.head?, (T.world s).clients[k]? = some { site := i })
    (hdestination : (T.world s).clients[destination]? = some { site := j })
    (hlength : payload.length < 2 ^ 256)
    (h : (c.relay T.clock (clients.map (T.access source.chain.config))
      (T.access target.chain.config destination) aggregator.attest sender payload).run s
        = (.ok o, s'))
    (hseparates : (T.world s').Separates i source) (hseparates' : (T.world s').Separates j target) :
  Carried T c s s' i source destination j target sender payload o
  := by
  have hgrows (config : ChainConfig) (k : Nat) := T.grows_access config k
  cases clients with
  | nil => cases h
  | cons k clients =>
      have hclient := hclients k rfl
      obtain ⟨sent, s₁, hsent, h⟩ := Action.run_bind_eq_ok_iff.mp h
      obtain ⟨_, s₂, hheights, h⟩ := Action.run_bind_eq_ok_iff.mp h
      obtain ⟨result, s₃, hresult, h⟩ := Action.run_bind_eq_ok_iff.mp h
      obtain ⟨attested, s₄, hattested, h⟩ := Action.run_bind_eq_ok_iff.mp h
      obtain ⟨receipt, s₅, hreceipt, h⟩ := Action.run_bind_eq_ok_iff.mp h
      cases h
      have hresult : aggregator.attest sent.message s₂ = (result, s₃) :=
        Action.run_lift_eq_ok_iff.mp hresult
      obtain ⟨hok, rfl⟩ := Action.run_except_eq_ok_iff.mp hattested
      have hchains : ∀ chain ∈ (k :: clients).map (T.access source.chain.config),
          chain.Grows T.world := by
        intro chain hchain
        obtain ⟨k', -, rfl⟩ := List.mem_map.mp hchain
        apply hgrows
      -- every step lets the world grow, so what one chain sealed stays until the other has sealed
      have hgrown := (grows_send (hgrows _ _) sender payload).growsTo hsent
      have hgrown₁ := (grows_awaitHeights T.grows_sleep hchains _).growsTo hheights
      have hgrown₂ := (aggregator.grows_attest _).growsTo hresult
      have hgrown₃ := (grows_deliver (hgrows _ _) _ _ _).growsTo hreceipt
      have hlater := (hgrown₁.trans hgrown₂).trans hgrown₃
      have hserves : (T.world s).Serves k i source [] source := ⟨hclient, hsource, .refl source⟩
      have hserves' : (T.world s).Serves destination j target [] target :=
        ⟨hdestination, htarget, .refl target⟩
      obtain ⟨done, site, hserves'⟩ :=
        hserves'.of_growsTo ((hgrown.trans hgrown₁).trans hgrown₂)
      obtain ⟨hmessage, a, hsealed, hemitted⟩ :=
        send_eq_ok hsent hserves hlength (hseparates.of_growsTo hlater)
      have hsame : attested.message.message = sent.message := by
        have hattest : (aggregator.attest sent.message s₂).1 = .ok attested := by
          rw [hresult]
          exact mapError_eq_ok_iff.mp hok
        apply Traffic.Aggregator.message_of_attest_eq_ok hattest
      obtain ⟨hchain, call, hcall, rfl, rfl⟩ := hmessage.parse_payload
      rw [← hsame] at hcall hchain
      obtain ⟨a', hreceipt, hdelivered⟩ := deliver_eq_ok hreceipt hserves' hseparates' hcall
      rw [hchain] at hdelivered
      exact ⟨hmessage, ⟨a, hsealed.of_growsTo hlater, hemitted⟩, hsame, a', hreceipt,
        hdelivered.of_growsTo ((hgrown.trans hgrown₁).trans hgrown₂)⟩

end Chains

/-! ### Two chains and a validator -/

/-- The site of a new chain with a name and a number. -/
def newSite (name : Id) (number : UInt256) : Site where
  chain := { config := ⟨1, name, .zero, number, .standard⟩ }

/-- Two new chains, of which the first one is known to have a single validator, and a client for
each. -/
def twoChains : World Residue Residue where
  history := (History.registerChain {} .zero .zero).record .zero 0 [⟨default, some 3, 1⟩]
  sites := [newSite .zero 1, newSite ⟨.replicate 32 1⟩ 2]
  clients := [{ site := 0 }, { site := 1 }]

/-- The second chain accepts messages of the first one that the validator signed. -/
theorem accepts_twoChains {m : SignedMessage} {sig : Residue} (hnetwork : m.message.network = 1)
    (hchain : m.message.chain = .zero) (hsigners : m.signers = .ofList [0])
    (hdecode : AggregateScheme.decodeSig? Residue m.signature = some sig)
    (hverify : AggregateScheme.verify (3 : Residue) m.id.bytes sig = true) :
  (newSite ⟨.replicate 32 1⟩ 2).chain.Accepts (fun _ => twoChains.directoryAt 1) m
  := by
  use 0, .zero, [⟨default, some 3, 1⟩], .sole ⟨3, 1, [default]⟩
  rw [hchain]
  exact ⟨rfl, rfl, rfl, ValidatorSet.ofRecords_sole ..,
    SignedMessage.accepted_sole _ _ hnetwork hsigners hdecode hverify⟩

/-- A call is carried from the first chain to the second one. -/
theorem relay_carries_twoChains :
  let T : Traffic (World Residue Residue) Residue Residue := .quiet
  let c : RelayConfig := {}
  let source := newSite .zero 1
  let target := newSite ⟨.replicate 32 1⟩ 2
  ∃ (aggregator : T.Aggregator) (o : Relayed) (w : World Residue Residue),
    (c.relay T.clock ([0].map (T.access source.chain.config))
      (T.access target.chain.config 1) aggregator.attest .zero [5]).run twoChains = (.ok o, w) ∧
    o.receipt.successful = true ∧ Carried T c twoChains w 0 source 1 1 target .zero [5] o
  := by
  intro T c source target
  have hfits : ([5] : Bytes).length + 34 ≤ Wire.maxSize := by decide
  obtain ⟨call, hcall⟩ := Call.exists_make .zero hfits
  have hlength : call.bytes.length = 35 := by
    rw [call.length_bytes, ((Call.make_eq_ok_iff ..).mp hcall).2]
    rfl
  have hfits : call.bytes.length + 42 ≤ Wire.maxSize := by
    rw [hlength]
    decide
  obtain ⟨message, hmessage⟩ := Message.exists_make 1 .zero hfits
  obtain ⟨hnetwork, hchain, hpayload⟩ := (Message.make_eq_ok_iff ..).mp hmessage
  have hsize : message.bytes.length = 77 := by rw [message.length_bytes, hpayload, hlength]
  have hfits : message.bytes.length + 105 ≤ Wire.maxSize := by
    rw [hsize]
    decide
  obtain ⟨m, rfl, hsigners, sig, hdecode, hverify⟩ :=
    SignedMessage.exists_signed (show (3 : Residue) ≠ 0 by decide) hfits
  let aggregator : T.Aggregator := .delegated ⟨1, .zero, .standard⟩ (fun _ => .sole default 3)
    (fun _ _ w => (.ok m.bytes, w)) (fun _ _ w => .refl w)
  have hattest (w : World Residue Residue) :
      aggregator.attest m.message w = (.ok ⟨m, 1, 1⟩, w) := by
    have hheight : (Directory.sole default (3 : Residue)).height = .ok 0 := rfl
    have hpercent : Quorum.standard.ceilPercent = .ok 67 := rfl
    have hrequest : requestFor m.message = .ok (.message m.message.id) := by
      rw [requestFor, Message.content, hpayload, Payload.parse_call]
      rfl
    have hcheck := Verifier.checkAnswer_sole ⟨1, .zero, .standard⟩ default 0 hnetwork hsigners
      hdecode hverify
    simp only [aggregator, Traffic.Aggregator.attest, Verifier.delegateIn, hheight, hpercent,
      hrequest, Bind.bind, Except.bind, pure, Except.pure, hcheck]
  have hgas : 21002 + Predicate.price (Predicate.pack m.bytes) + 100 * m.bytes.length
      ≤ c.deliverGas.toNat := by
    have hcount : Predicate.signerCount (Predicate.pack m.bytes) = 1 := by
      rw [Predicate.signerCount, Predicate.decode_pack]
      dsimp only
      rw [hsigners]
      rfl
    have hbytes : m.bytes.length = 182 := by
      rw [m.length_bytes, hsize, hsigners]
      rfl
    have hpacked := Predicate.length_pack_le m.bytes
    rw [Predicate.price, hcount]
    show _ ≤ 5000000
    omega
  have hcarried (message : Message) (w : World Residue Residue)
      (h : message.IsCall source.chain.config .zero [5]) :
      ∃ a, aggregator.attest message w = (.ok a, w) ∧ a.message.message = message ∧
        target.chain.Accepts (fun _ => twoChains.directoryAt 1) a.message ∧
        21002 + Predicate.price (Predicate.pack a.message.bytes) + 100 * a.message.bytes.length
          ≤ c.deliverGas.toNat := by
    obtain ⟨call', hcall', hmessage'⟩ := h
    cases hcall.symm.trans hcall'
    cases hmessage.symm.trans hmessage'
    exact ⟨⟨m, 1, 1⟩, hattest w, rfl,
      accepts_twoChains hnetwork hchain hsigners hdecode hverify, hgas⟩
  obtain ⟨o, w, t, x, t', x', hrun, hsuccessful, hsource, htarget⟩ :=
    relay_quiet (c := c) (w := twoChains) (i := 0) (j := 1) [0] 1 .zero [5] aggregator.attest
      rfl rfl (by decide) (by simp [twoChains]) (by simp) rfl (by decide) (by decide) hcarried
  use aggregator, o, w, hrun, hsuccessful
  apply relay_carries T aggregator c [0] 1 .zero [5] rfl rfl
    (by simp [T, Traffic.quiet, twoChains]) rfl (by norm_num) hrun
  · exact World.separates_of_length hsource rfl
  · exact World.separates_of_length htarget rfl

end RelayConfig

end Interchain
