import Interchain.Proofs.Ledger.Delivery
import Interchain.Proofs.Ledger.Emission
import Interchain.Proofs.Relay.Submission

/-!
# A quiet world

In a world in which nobody else does anything a transaction that its chain admits is sealed, and
a relayer that uses the chain directly is told its block and its receipt at once.  So it carries
a payload to another chain if there is gas for it and the other chain accepts the attestation of
the message: `RelayConfig.relay_quiet`.
-/

namespace Interchain

variable {Key Sig : Type}

/-- A reader that was told of all headers but the last one is told this one. -/
theorem Feed.receive_send (f : Feed) (b : Header) :
  (f.send b).receive f.sent.length = (.head b, f.sent.length + 1)
  := by
  have hwaiting : (f.send b).sent.length - f.sent.length = 1 := by
    rw [send, List.length_cons]
    omega
  rw [receive]
  simp only [hwaiting]
  rfl

/-- The receipt of a transaction that sent one message has one log, from which it is decoded. -/
theorem Sealing.logs_receipt (a : Sealing) {m : Message}
    (h : a.execution.announcements = [Messenger.announcement a.transaction.sender m]) :
  ∃ log, a.receipt.logs = [log] ∧ Abi.decodeAnnounced log.data = .ok m
  := by
  rw [receipt, h]
  exact ⟨_, rfl, Abi.decodeAnnounced_bytesArgument m⟩

namespace World

/-- Only the chain at a site changed of what a relayer deals with. -/
structure Advances (w : World Key Sig) (i : Nat) (s : Site) (w' : World Key Sig) : Prop where
  sites_eq : w'.sites = w.sites.set i s
  clients_eq : w'.clients = w.clients
  history_eq : w'.history = w.history

variable {w w' : World Key Sig} {i : Nat} {s s' : Site}

theorem Advances.getElem?_sites (h : w.Advances i s' w') (hsite : w.sites[i]? = some s) :
  w'.sites[i]? = some s'
  := by
  rw [h.sites_eq]
  exact List.getElem?_set_self (List.getElem?_eq_some_iff.mp hsite).1

end World

namespace RelayConfig

variable [AggregateScheme Key Sig] {c : RelayConfig} {k i : Nat} {w : World Key Sig} {s : Site}

/-- A relayer that waits for the last block is told it at once. -/
theorem awaitBlock_quiet (config : ChainConfig) {reader : Nat} {t : Transaction} {x : Execution}
    (hclient : w.clients[k]? = some { site := i })
    (hsite : w.sites[i]? = some (s.withBlock t x))
    (hr : w.readers[reader]? = some ⟨k, s.feed.sent.length, false⟩) (deadline n : Nat) :
  ∃ m readers,
    (awaitBlock (Traffic.quiet.access config k) reader t.hash deadline (n + 1)).run w
      = (.ok ((s.chain.withBlock t x).head, s.chain.receiptFor t x),
          { w with toMoment := m, readers })
  := by
  obtain ⟨m, hreceive⟩ := World.receive_eq hclient hsite hr deadline
  rw [Site.withBlock, s.feed.receive_send] at hreceive
  let readers := w.readers.set reader ⟨k, s.feed.sent.length + 1, false⟩
  let w' : World Key Sig := { w with toMoment := m, readers }
  have hfound : ((Traffic.quiet.access config k).receipt t.hash).run w'
        = (.ok (s.chain.receiptFor t x), w') := by
    apply (World.receipt_eq (w := w') hclient hsite t.hash).trans
    rw [Site.withBlock, Chain.receipt, Chain.withBlock, Table.get?_put, if_pos rfl]
  use m, readers
  rw [awaitBlock_of_found hreceive hfound]
  apply if_pos rfl

/-- A relayer that has a transaction sealed is told its block and its receipt. -/
theorem submit_quiet (config : ChainConfig) {reader : Nat} {t : Transaction} {x : Execution}
    (hclient : w.clients[k]? = some { site := i }) (hsite : w.sites[i]? = some s)
    (hr : w.readers[reader]? = some ⟨k, s.feed.sent.length, false⟩)
    (hx : s.chain.performUnder (fun _ => w.directoryAt i) t = .ok x) :
  ∃ w', w.Advances i (s.withBlock t x) w' ∧
    (c.submit Traffic.quiet.clock (Traffic.quiet.access config k) reader t).run w
      = (.ok ((s.chain.withBlock t x).head, s.chain.receiptFor t x), w')
  := by
  obtain ⟨stations, hsealed⟩ := World.sealed_eq (w := w.onMoment Moment.step) hsite t x
  let w₁ : World Key Sig :=
    { w.onMoment Moment.step with stations, sites := w.sites.set i (s.withBlock t x) }
  have hsend : ((Traffic.quiet.access config k).submit t).run w = (.ok t.hash, w₁) := by
    rw [Traffic.submit_access_quiet, World.sendUnder_run hclient hsite rfl, hx]
    dsimp only
    rw [hsealed]
    rfl
  have hsite₁ : w₁.sites[i]? = some (s.withBlock t x) :=
    List.getElem?_set_self (List.getElem?_eq_some_iff.mp hsite).1
  obtain ⟨m, readers, hwait⟩ := awaitBlock_quiet config (w := w₁) hclient hsite₁ hr
    (Traffic.quiet.clock.now w₁ + c.headTimeout)
    ((Traffic.quiet.access config k).backlog reader w₁)
  refine ⟨{ w₁ with toMoment := m, readers }, ⟨rfl, rfl, rfl⟩, ?_⟩
  rw [submit, Action.run_bind_of_ok hsend, Action.run_get_bind]
  exact hwait

/-- A relayer that has the next transaction of an account sealed goes on with its block and its
receipt. -/
theorem submitNext_quiet {α : Type} (config : ChainConfig) {sender : Address}
    (f : UInt64 → Transaction) (g : Header × Receipt → Action (World Key Sig) α)
    {x : Execution} (hclient : w.clients[k]? = some { site := i }) (hsite : w.sites[i]? = some s)
    (hx : s.chain.performUnder (fun _ => w.directoryAt i) (f (s.chain.nonceOf sender)) = .ok x) :
  let chain : ChainAccess (World Key Sig) := Traffic.quiet.access config k
  ∃ w', w.Advances i (s.withBlock (f (s.chain.nonceOf sender)) x) w' ∧
    (do
      let reader ← chain.subscribe
      let nonce ← chain.nonceOf sender
      let found ← c.submit Traffic.quiet.clock chain reader (f nonce)
      g found : Action (World Key Sig) α).run w
      = (g ((s.chain.withBlock (f (s.chain.nonceOf sender)) x).head,
          s.chain.receiptFor (f (s.chain.nonceOf sender)) x)).run w'
  := by
  intro chain
  let w₁ : World Key Sig := { w with readers := w.readers ++ [⟨k, s.feed.sent.length, false⟩] }
  have hreader : (liftM ((Traffic.quiet.access config k).subscribe) :
      Action (World Key Sig) Nat).run w = (.ok w.readers.length, w₁) :=
    Action.run_lift_eq_ok_iff.mpr (World.subscribe_eq hclient hsite)
  have hnonce : ((Traffic.quiet.access config k).nonceOf sender).run w₁
      = (.ok (s.chain.nonceOf sender), w₁) := World.nonceOf_eq (w := w₁) hclient hsite sender
  have hr : w₁.readers[w.readers.length]? = some ⟨k, s.feed.sent.length, false⟩ :=
    List.getElem?_concat_length
  obtain ⟨w', hadvances, hsubmit⟩ :=
    submit_quiet config (c := c) (w := w₁) hclient hsite hr hx
  refine ⟨w', ⟨hadvances.sites_eq, hadvances.clients_eq, hadvances.history_eq⟩, ?_⟩
  rw [Action.run_bind_of_ok hreader, Action.run_bind_of_ok hnonce, Action.run_bind_of_ok hsubmit]

omit [AggregateScheme Key Sig] in
/-- What a transaction sent is read back if its announcement is found. -/
theorem readBack_of_logs {σ : Type} {chain : ChainAccess σ} {st st' : σ} {b : Header} {r : Receipt}
    {log : Log} {m : Message} (hsuccessful : r.successful = true)
    (hlogs : (chain.logs b.hash messengerAddress).run st = (.ok [log], st'))
    (hdecode : Abi.decodeAnnounced log.data = .ok m) :
  ∃ o : Sent, o.message = m ∧ o.block = b ∧ (readBack chain b r).run st = (.ok o, st')
  := by
  have hlength : (Payload.blockHash b.hash).bytes.length + 42 ≤ Wire.maxSize := by
    rw [Payload.length_blockHash, Wire.maxSize]
    omega
  obtain ⟨blockMessage, hblockMessage⟩ := Message.exists_make m.network chain.name hlength
  have hblockMessage : ChainError.ofMessage (Message.make m.network chain.name
      (Payload.blockHash b.hash).bytes) = .ok blockMessage := mapError_eq_ok_iff.mpr hblockMessage
  use ⟨m, blockMessage, b, r⟩, rfl, rfl
  rw [readBack, if_neg (by rw [hsuccessful]; exact Bool.false_ne_true),
    Action.run_bind_of_ok hlogs]
  dsimp only
  rw [Action.run_check_bind hdecode, Action.run_check_bind hblockMessage]
  rfl

/-- What a transaction sent is read back from the last block. -/
theorem readBack_quiet (config : ChainConfig) {t : Transaction} {x : Execution} {m : Message}
    (hclient : w.clients[k]? = some { site := i })
    (hsite : w.sites[i]? = some (s.withBlock t x)) (hsuccessful : x.successful = true)
    (hannouncements : x.announcements = [Messenger.announcement t.sender m]) :
  ∃ o : Sent, o.message = m ∧ o.block = (s.chain.withBlock t x).head ∧
    (readBack (Traffic.quiet.access config k) (s.chain.withBlock t x).head
      (s.chain.receiptFor t x)).run w = (.ok o, w)
  := by
  have hlogs : ((Traffic.quiet.access config k).logs (s.chain.withBlock t x).head.hash
      messengerAddress).run w = (.ok (s.chain.receiptFor t x).logs, w) := by
    apply (World.logs_eq hclient hsite ..).trans
    rw [Site.withBlock, Chain.logs, Chain.withBlock, Table.get?_put, if_pos rfl]
    rw [Option.getD_some, List.filter_eq_self.mpr]
    intro l hl
    obtain ⟨_, -, rfl⟩ := List.mem_map.mp hl
    exact decide_eq_true rfl
  let a : Sealing := ⟨t, x, (s.chain.withBlock t x).head⟩
  obtain ⟨log, hlog, hdecode⟩ := a.logs_receipt hannouncements
  rw [show (s.chain.receiptFor t x).logs = [log] from hlog] at hlogs
  exact readBack_of_logs hsuccessful hlogs hdecode

omit [AggregateScheme Key Sig] in
/-- The transaction with which a relayer sends a payload is admitted if there is gas for it, and
it is executed successfully if the payload is not too long. -/
theorem executes_send {σ : Type} (chain : ChainAccess σ) {s : Chain} (sender : Address)
    {payload : Bytes} (hnumber : chain.number = s.config.number)
    (hgas : 62500 + 8 * payload.length ≤ c.sendGas.toNat)
    (hsize : payload.length + 76 ≤ Wire.maxSize) (results : PredicateResults) :
  let t := c.transaction chain sender (s.nonceOf sender) c.sendGas
    (Abi.Function.send payload).encode
  let x := s.execute t 21000 results
  s.admission t = .ok 21000 ∧ x.successful = true ∧
  ∃ m : Message, m.IsCall s.config sender payload ∧
    x.announcements = [Messenger.announcement sender m]
  := by
  intro t x
  have hleft : 41500 + 8 * payload.length ≤ t.gas.toNat - 21000 := by
    show _ ≤ c.sendGas.toNat - _
    omega
  have hx : x = s.execute t 21000 results := rfl
  have hrecipient : t.recipient = messengerAddress := rfl
  have hdata : t.data = (Abi.Function.send payload).encode := rfl
  have hsuccessful : x.successful = true :=
    s.successful_of_send 21000 results hrecipient hdata hleft hsize
  have hlength : payload.length < 2 ^ 256 := by
    rw [Wire.maxSize] at hsize
    norm_num
    omega
  obtain ⟨-, m, hm, hannouncements⟩ :=
    Chain.announcements_of_send hx hsuccessful hrecipient hdata hlength
  refine ⟨?_, hsuccessful, m, hm, hannouncements⟩
  apply (s.admission_eq_ok_iff ..).mpr
  have hprice : t.price = 21000 := rfl
  use hnumber, rfl, rfl
  rw [hprice]
  show 21000 ≤ c.sendGas.toNat
  omega

/-- A relayer that sends a payload for which there is gas, and which is not too long, has the
message of the sender and the payload emitted. -/
theorem send_quiet {sender : Address} {payload : Bytes}
    (hclient : w.clients[k]? = some { site := i }) (hsite : w.sites[i]? = some s)
    (hgas : 62500 + 8 * payload.length ≤ c.sendGas.toNat)
    (hsize : payload.length + 76 ≤ Wire.maxSize) :
  ∃ t x o w', w.Advances i (s.withBlock t x) w' ∧
    o.message.IsCall s.chain.config sender payload ∧ o.block = (s.chain.withBlock t x).head ∧
    (c.send Traffic.quiet.clock (Traffic.quiet.access s.chain.config k) sender payload).run w
      = (.ok o, w')
  := by
  let f (nonce : UInt64) : Transaction :=
    c.transaction (Traffic.quiet.access s.chain.config k : ChainAccess (World Key Sig)) sender
      nonce c.sendGas (Abi.Function.send payload).encode
  let t := f (s.chain.nonceOf sender)
  obtain ⟨hadmission, hsuccessful, m, hm, hannouncements⟩ := executes_send (c := c)
    (Traffic.quiet.access s.chain.config k : ChainAccess (World Key Sig)) sender rfl hgas hsize
    ((s.chain.inquire (t.predicatesFor messengerAddress)).resolve fun _ => w.directoryAt i)
  have hx := (s.chain.performUnder_eq_ok_iff (fun _ => w.directoryAt i) t _).mpr
    ⟨21000, hadmission, rfl⟩
  obtain ⟨w', hadvances, hrun⟩ := submitNext_quiet s.chain.config (c := c) f
    (fun found => readBack (Traffic.quiet.access s.chain.config k) found.1 found.2)
    hclient hsite hx
  have hclient' : w'.clients[k]? = some { site := i } := by
    rw [hadvances.clients_eq, hclient]
  have hsite' := hadvances.getElem?_sites hsite
  obtain ⟨o, rfl, hblock, hread⟩ := readBack_quiet s.chain.config hclient' hsite' hsuccessful
    hannouncements
  exact ⟨t, _, o, w', hadvances, hm, hblock, hrun.trans hread⟩

/-- A relayer that waits for a height that was reached goes on at once. -/
theorem awaitHeight_quiet (config : ChainConfig) {height : UInt64}
    (hclient : w.clients[k]? = some { site := i }) (hsite : w.sites[i]? = some s)
    (hheight : height ≤ s.chain.head.number) (deadline n : Nat) :
  (c.awaitHeight Traffic.quiet.clock (Traffic.quiet.access config k) height deadline (n + 1)).run w
    = (.ok (), w)
  := by
  have hrun : ((Traffic.quiet.access config k).height).run w = (.ok s.chain.head.number, w) :=
    World.height_eq hclient hsite
  rw [awaitHeight, Action.run_bind_of_ok hrun, if_pos hheight]
  rfl

/-- A relayer that waits until all nodes reached a height, and they did, goes on at once. -/
theorem awaitHeights_quiet (config : ChainConfig) {clients : List Nat} {height : UInt64}
    (hclients : ∀ k ∈ clients, w.clients[k]? = some { site := i })
    (hsite : w.sites[i]? = some s) (hheight : height ≤ s.chain.head.number) :
  (c.awaitHeights Traffic.quiet.clock (clients.map (Traffic.quiet.access config)) height).run w
    = (.ok (), w)
  := by
  rw [awaitHeights, Action.run_get_bind]
  apply Action.run_bind_of_ok
  apply Action.run_forIn_of_ok
  intro chain hchain
  obtain ⟨k, hk, rfl⟩ := List.mem_map.mp hchain
  rw [Action.run_get_bind,
    Action.run_bind_of_ok (awaitHeight_quiet config (hclients k hk) hsite hheight ..)]
  rfl

/-- A relayer that delivers a signed message which the chain accepts, with gas for it, has the
call in it shown. -/
theorem deliver_quiet (sender : Address) {m : SignedMessage} {call : Call}
    (hclient : w.clients[k]? = some { site := i }) (hsite : w.sites[i]? = some s)
    (haccepts : s.chain.Accepts (fun _ => w.directoryAt i) m)
    (hcall : Payload.parse m.message.payload = .ok (.call call))
    (hgas : 21002 + Predicate.price (Predicate.pack m.bytes) + 100 * m.bytes.length
      ≤ c.deliverGas.toNat) :
  ∃ t x w', w.Advances i (s.withBlock t x) w' ∧ x.successful = true ∧
    (c.deliver Traffic.quiet.clock (Traffic.quiet.access s.chain.config k) sender
      (Abi.Function.readCall 0).encode m).run w = (.ok (s.chain.receiptFor t x), w')
  := by
  let f (nonce : UInt64) : Transaction :=
    (c.transaction (Traffic.quiet.access s.chain.config k : ChainAccess (World Key Sig)) sender
      nonce c.deliverGas (Abi.Function.readCall 0).encode).withPredicate messengerAddress m.bytes
  let t := f (s.chain.nonceOf sender)
  have hpredicates : t.predicatesFor messengerAddress = [Predicate.pack m.bytes] :=
    Transaction.predicatesFor_withPredicate_self ..
  have hprice : t.price = 21000 + Predicate.price (Predicate.pack m.bytes) := by
    rw [Transaction.price, hpredicates]
    rfl
  have hadmission : s.chain.admission t = .ok t.price := by
    apply (s.chain.admission_eq_ok_iff ..).mpr
    use rfl, rfl, rfl
    rw [hprice]
    show _ ≤ c.deliverGas.toNat
    omega
  have hx := (s.chain.performUnder_eq_ok_iff (fun _ => w.directoryAt i) t _).mpr
    ⟨_, hadmission, rfl⟩
  have hleft : Gas.readBase + 100 * m.bytes.length ≤ t.gas.toNat - t.price := by
    rw [hprice, Gas.readBase]
    show _ ≤ c.deliverGas.toNat - _
    omega
  have hsuccessful := Chain.successful_of_accepts t.price haccepts rfl rfl hpredicates hcall hleft
  obtain ⟨w', hadvances, hrun⟩ := submitNext_quiet s.chain.config (c := c) f
    (fun found => pure found.2) hclient hsite hx
  exact ⟨t, _, w', hadvances, hsuccessful, hrun⟩

/-- A relayer in a quiet world, with gas for what it does, carries a payload that is not too long
from one chain to another one, if its message is attested by validators that the other chain
accepts. -/
theorem relay_quiet {j : Nat} {source target : Site} (clients : List Nat) (destination : Nat)
    (sender : Address) (payload : Bytes) (attest : World.Collector Key Sig)
    (hsource : w.sites[i]? = some source) (htarget : w.sites[j]? = some target) (hij : i ≠ j)
    (hclients : ∀ k ∈ clients, w.clients[k]? = some { site := i }) (hne : clients ≠ [])
    (hdestination : w.clients[destination]? = some { site := j })
    (hsend : 62500 + 8 * payload.length ≤ c.sendGas.toNat)
    (hsize : payload.length + 76 ≤ Wire.maxSize)
    (hattest : ∀ m w', m.IsCall source.chain.config sender payload →
      ∃ a, attest m w' = (.ok a, w') ∧ a.message.message = m ∧
        target.chain.Accepts (fun _ => w.directoryAt j) a.message ∧
        21002 + Predicate.price (Predicate.pack a.message.bytes) + 100 * a.message.bytes.length
          ≤ c.deliverGas.toNat) :
  ∃ o w' t x t' x',
    (c.relay Traffic.quiet.clock (clients.map (Traffic.quiet.access source.chain.config))
      (Traffic.quiet.access target.chain.config destination) attest sender payload).run w
      = (.ok o, w') ∧
    o.receipt.successful = true ∧ w'.sites[i]? = some (source.withBlock t x) ∧
    w'.sites[j]? = some (target.withBlock t' x')
  := by
  cases clients with
  | nil => exact absurd rfl hne
  | cons k clients =>
      obtain ⟨t, x, sent, w₁, hadvances, hmessage, hblock, hsent⟩ :=
        send_quiet (hclients k List.mem_cons_self) hsource hsend hsize
      have hsource₁ := hadvances.getElem?_sites hsource
      have htarget₁ : w₁.sites[j]? = some target := by
        rw [hadvances.sites_eq, List.getElem?_set_ne hij, htarget]
      have hdestination₁ : w₁.clients[destination]? = some { site := j } := by
        rw [hadvances.clients_eq, hdestination]
      have hdirectory : w₁.directoryAt j = w.directoryAt j := by
        rw [World.directoryAt, World.directoryAt, htarget, htarget₁]
        simp only [World.directoryOf, World.directory, hadvances.history_eq]
      have hclients₁ : ∀ k' ∈ k :: clients, w₁.clients[k']? = some { site := i } := by
        rw [hadvances.clients_eq]
        exact hclients
      have hheight : sent.block.number ≤ (source.chain.withBlock t x).head.number := by
        rw [hblock]
        apply UInt64.le_refl
      have hheights := awaitHeights_quiet source.chain.config (c := c) hclients₁ hsource₁ hheight
      obtain ⟨a, hattested, hsame, haccepts, hgas⟩ := hattest sent.message w₁ hmessage
      obtain ⟨-, call, hcall, -⟩ := hmessage.parse_payload
      rw [← hsame] at hcall
      rw [← hdirectory] at haccepts
      obtain ⟨t', x', w₂, hadvances', hsuccessful, hdelivered⟩ :=
        deliver_quiet sender hdestination₁ htarget₁ haccepts hcall hgas
      have hsource₂ : w₂.sites[i]? = some (source.withBlock t x) := by
        rw [hadvances'.sites_eq, List.getElem?_set_ne hij.symm, hsource₁]
      refine ⟨⟨sent, a, target.chain.receiptFor t' x'⟩, w₂, t, x, t', x', ?_, hsuccessful, hsource₂,
        hadvances'.getElem?_sites htarget₁⟩
      apply (Action.run_bind_of_ok hsent).trans
      apply (Action.run_bind_of_ok hheights).trans
      apply (Action.run_bind_of_ok (Action.run_lift_eq_ok_iff.mpr hattested)).trans
      apply (Action.run_check_bind (mapError_eq_ok_iff.mpr rfl)).trans
      apply (Action.run_bind_of_ok hdelivered).trans
      rfl

end RelayConfig

end Interchain
