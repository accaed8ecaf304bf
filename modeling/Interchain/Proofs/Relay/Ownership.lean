import Interchain.Proofs.Keccak256
import Interchain.Proofs.Relay.Rush

/-!
# What a relayer tells of a message is its own

Several accounts, or several relayers of one account, may send to a chain at the same time, and
their blocks come in between the steps of a relayer that sends a payload.  If it is done with it,
what it tells is nevertheless of the transaction that it sent: the receipt, the block, which holds
this transaction alone, the message of the sender and the payload, and the message of the block.
`RelayConfig.send_owns` says so for any traffic on the chain.
-/

namespace Interchain

variable {σ Key Sig : Type}

/-- A transaction is sealed once. -/
theorem World.Serves.eq_of_transaction_eq {w : World Key Sig} {client i : Nat} {s₀ s : Site}
    {done : List Sealing} (h : w.Serves client i s₀ done s) (hw : w.Separates i s₀)
    {a b : Sealing} (ha : a ∈ done) (hb : b ∈ done)
    (heq : a.transaction.hash = b.transaction.hash) :
  a = b
  := by
  obtain ⟨hlength, hc⟩ := hw h.site_eq h.grown
  apply List.inj_on_of_nodup_map (h.grown.grown.nodup_hashes hlength hc) ha hb heq

/-- The block of a sealed transaction holds this transaction alone. -/
theorem Site.GrowsTo.exists_parent {s s' : Site} {done : List Sealing} (h : s.GrowsTo done s')
    {a : Sealing} (ha : a ∈ done) :
  ∃ parent : Header, a.block = parent.child [a.transaction.hash]
  := by
  obtain ⟨k, hk⟩ := List.getElem?_of_mem ha
  obtain ⟨parent, -, hblock⟩ := h.grown.linked hk
  use parent, hblock

namespace RelayConfig

variable [AggregateScheme Key Sig]

/-- What a relayer tells of a payload that it sent between two states is what became of its own
transaction. -/
structure Owns (T : Traffic σ Key Sig) (c : RelayConfig) (s s' : σ) (client i : Nat) (s₀ : Site)
    (sender : Address) (payload : Bytes) (o : Sent) (a : Sealing) : Prop where
  transaction : ∃ nonce, a.transaction = c.transaction (T.access s₀.chain.config client) sender
    nonce c.sendGas (Abi.Function.send payload).encode
  submitted : T.Submitted s₀.chain.config client s s' i s₀ a
  receipt : o.receipt = a.receipt
  successful : o.receipt.successful = true
  block : o.block = a.block
  sole : ∃ parent : Header, o.block = parent.child [a.transaction.hash]
  message : o.message.IsCall s₀.chain.config sender payload
  blockMessage : Message.make s₀.chain.config.network s₀.chain.config.name
    (Payload.blockHash o.block.hash).bytes = .ok o.blockMessage

/-- What a relayer tells of a payload that it sent is of its own transaction, whatever others, or
others in the name of the same account, send to the chain meanwhile, as long as no hashes
collide.  No other transaction has this block or this receipt. -/
theorem send_owns (T : Traffic σ Key Sig) (c : RelayConfig) {s s' : σ} {i : Nat} {site : Site}
    (client : Nat) (sender : Address) (payload : Bytes) {o : Sent}
    (hclient : (T.world s).clients[client]? = some { site := i })
    (hsite : (T.world s).sites[i]? = some site) (hlength : payload.length < 2 ^ 256)
    (h : (c.send T.clock (T.access site.chain.config client) sender payload).run s = (.ok o, s'))
    (hseparates : (T.world s').Separates i site) :
  ∃ done site' a, (T.world s').Serves client i site done site' ∧ a ∈ done ∧
    Owns T c s s' client i site sender payload o a ∧
    site'.chain.receipt a.transaction.hash = .ok o.receipt ∧
    ∀ b ∈ done, b.block.hash = o.block.hash ∨ b.transaction.hash = o.receipt.transaction → b = a
  := by
  have hgrows := T.grows_access site.chain.config client
  have hreads (found : Header × Receipt) := grows_readBack hgrows found.1 found.2
  obtain ⟨nonce, s₁, later, site₁, a, hserves₁, ha, ht, -, hsubmitted, h⟩ :=
    submitNext_eq_ok hreads h ⟨hclient, hsite, .refl site⟩ hseparates
  rw [List.nil_append] at hserves₁
  obtain ⟨hblock, hreceipt, hmessage, hsends, hblockMessage⟩ :=
    readBack_eq_ok h hserves₁ hseparates ha (by rw [ht]; rfl) (by rw [ht]; rfl) hlength
  have hgrown := (hreads (a.block, a.receipt)).growsTo h
  obtain ⟨later', site', hserves'⟩ := hserves₁.of_growsTo hgrown
  have ha' := List.mem_append_left later' ha
  refine ⟨_, site', a, hserves', ha', ?owns, ?found, ?unique⟩
  case owns =>
    constructor
    case transaction => use nonce
    case submitted => apply hsubmitted.mono (.refl _) hgrown
    case receipt => exact hreceipt
    case successful =>
      rw [hreceipt]
      exact hsends.successful
    case block => exact hblock
    case sole =>
      rw [hblock]
      apply hserves'.grown.exists_parent ha'
    case message => rwa [ht] at hmessage
    case blockMessage => exact hblockMessage
  case found =>
    rw [hreceipt]
    apply hserves'.receipt_eq hseparates ha'
  case unique =>
    rw [hblock, hreceipt]
    rintro b hb (hhash | hhash)
    · apply hserves'.eq_of_hash_eq hseparates hb ha' hhash
    · apply hserves'.eq_of_transaction_eq hseparates hb ha' hhash

/-- No hashes collide if a relayer sends a payload to a new chain and another account two
transactions after it. -/
theorem separates_rushed {w : World Residue Residue} :
  let T : Traffic (World Residue Residue) Residue Residue := .rushing ⟨.replicate 20 1⟩ 0 2
  let c : RelayConfig := {}
  let site := newSite .zero 1
  let t := c.transaction (T.access site.chain.config 0) .zero (site.chain.nonceOf .zero) c.sendGas
    (Abi.Function.send [5]).encode
  w.sites[0]? = some ((site.withBlock t (site.chain.execute t 21000 [])).rushed
    ⟨.replicate 20 1⟩ 2) → w.Separates 0 site
  := by
  intro T c site t hsite
  let x := site.chain.execute t 21000 []
  let site₁ := site.withBlock t x
  let u₁ := site₁.chain.idleTransaction ⟨.replicate 20 1⟩
  let x₁ := site₁.chain.execute u₁ 21000 []
  let site₂ := site₁.withBlock u₁ x₁
  let u₂ := site₂.chain.idleTransaction ⟨.replicate 20 1⟩
  let x₂ := site₂.chain.execute u₂ 21000 []
  let site₃ := site₂.withBlock u₂ x₂
  have hgrown : site.GrowsTo
      ([⟨t, x, site₁.chain.head⟩] ++ ([⟨u₁, x₁, site₂.chain.head⟩] ++ [⟨u₂, x₂, site₃.chain.head⟩]))
      site₃ := by
    have hadmission : site.chain.admission t = .ok 21000 := rfl
    apply (Site.growsTo_withBlock hadmission rfl).trans
    apply (Site.growsTo_withBlock (site₁.chain.admission_idleTransaction _) rfl).trans
    apply Site.growsTo_withBlock (site₂.chain.admission_idleTransaction _) rfl
  have h₁ : site₁.chain.head = site.chain.head.child [t.hash] := rfl
  have h₂ : site₂.chain.head = site₁.chain.head.child [u₁.hash] := rfl
  have h₃ : site₃.chain.head = site₂.chain.head.child [u₂.hash] := rfl
  have hdata : t.data = [0xee, 0x5b, 0x48, 0xeb] ++ Abi.bytesArgument [5] :=
    congrArg (· ++ _) Abi.sendSelector_eq
  have hnodup : [t.hash, u₁.hash, u₂.hash].Nodup ∧
      [site₁.chain.head.hash, site₂.chain.head.hash, site₃.chain.head.hash].Nodup := by
    rw [h₃, h₂, h₁]
    simp only [Header.child, Transaction.hash, keccak256_eq_digest]
    rw [Transaction.encoding, hdata]
    decide +kernel
  exact World.separates_of_nodup hsite rfl hgrown (by norm_num) hnodup.1 hnodup.2

/-- A relayer that sends a payload to the first of two chains owns what it tells, although another
account has two transactions sealed before the relayer looks for the block of its own. -/
theorem send_owns_rushing :
  let T : Traffic (World Residue Residue) Residue Residue := .rushing ⟨.replicate 20 1⟩ 0 2
  let c : RelayConfig := {}
  let site := newSite .zero 1
  ∃ (o : Sent) (w : World Residue Residue) (done : List Sealing) (site' : Site) (a : Sealing),
    (c.send T.clock (T.access site.chain.config 0) .zero [5]).run twoChains = (.ok o, w) ∧
    w.Separates 0 site ∧ w.Serves 0 0 site done site' ∧ done.length = 3 ∧ a ∈ done ∧
    Owns T c twoChains w 0 0 site .zero [5] o a
  := by
  intro T c site
  have hclient : twoChains.clients[0]? = some { site := 0 } := rfl
  have hsite : twoChains.sites[0]? = some site := rfl
  have hgas : 62500 + 8 * ([5] : Bytes).length ≤ c.sendGas.toNat := by decide
  have hsize : ([5] : Bytes).length + 76 ≤ Wire.maxSize := by decide
  obtain ⟨o, w, hrun, hsite'⟩ := send_rushing c .zero ⟨.replicate 20 1⟩ (n := 2)
    hclient hsite rfl hgas hsize (by norm_num) (by decide) fun _ => separates_rushed
  have hseparates : w.Separates 0 site := separates_rushed hsite'
  obtain ⟨done, site', a, hserves, ha, howns, -⟩ :=
    send_owns T c 0 .zero [5] hclient hsite (by norm_num) hrun hseparates
  have hlength : done.length = 3 := by
    cases hsite'.symm.trans hserves.site_eq
    exact (hserves.grown.length_sent.trans (Nat.zero_add _)).symm
  exact ⟨o, w, done, site', a, hrun, hseparates, hserves, hlength, ha, howns⟩

end RelayConfig

end Interchain
