import Interchain.Proofs.Ledger.Turns
import Interchain.Proofs.Scheme

/-!
# The ledger of a chain

However the calls that send transactions to a chain take turns, what the chain keeps and
announces is the ledger of the transactions that it sealed: `Site.Keeps` says what this
means, and `Sequencer.run_keeps` that it always holds as long as numbers of transactions fit
in 64 bits and no two hashes agree by chance.
-/

namespace Interchain

open Sealing

/-- What the chain at a site keeps and announces is the ledger of some sealings. -/
structure Site.Keeps (site : Site) (config : ChainConfig) (done : List Sealing) : Prop where
  /-- The blocks are numbered from one on, and each is the child of the one before it with its
  transaction. -/
  blocks : ∀ k s, done[k]? = some s →
    s.block.number.toNat = k + 1 ∧
    ∃ p, (config.genesis :: done.map (·.block))[k]? = some p ∧
      s.block.parent = p.hash ∧ s.block.hash = (p.child [s.transaction.hash]).hash
  head_eq : site.chain.head = (done.map (·.block)).getLastD config.genesis
  accepted : ∀ block, site.chain.isAccepted block = true ↔
    block = config.genesis.hash ∨ ∃ s ∈ done, s.block.hash = block
  /-- The number of transactions of an account is kept, and they carried the numbers from zero
  on. -/
  nonces : ∀ a, (site.chain.nonceOf a).toNat = (sentBy a done).length ∧
    (sentBy a done).map (·.transaction.nonce.toNat) = List.range (sentBy a done).length
  nodup : (done.map (·.transaction)).Nodup
  /-- There is one receipt for each transaction and no other one. -/
  receipts : site.chain.receipts.entries.map (·.1) = (done.map (·.transaction.hash)).reverse ∧
    (done.map (·.transaction.hash)).Nodup
  /-- The receipt of a transaction is found by its name, tells its block, and has the logs that
  are kept for the block. -/
  receipt : ∀ s ∈ done, ∃ r, site.chain.receipt s.transaction.hash = .ok r ∧
    r.transaction = s.transaction.hash ∧ r.successful = s.execution.successful ∧
    r.block = s.block.hash ∧ r.number = s.block.number ∧
    (∀ l ∈ r.logs, l.transaction = s.transaction.hash ∧ l.block = s.block.hash ∧
      l.number = s.block.number) ∧
    site.chain.blockLogs.get? s.block.hash = some r.logs
  announced : site.feed.sent.reverse = done.map (·.block)

namespace Chain.Grown

variable {config : ChainConfig} {done : List Sealing} {c : Chain}

/-- The numbers that the transactions of an account carried, as natural numbers. -/
theorem toNat_nonces_eq (h : Grown config done c) (hlength : done.length < 2 ^ 64)
    (a : Address) :
  (sentBy a done).map (·.transaction.nonce.toNat) = List.range (sentBy a done).length
  := by
  have hle := length_sentBy_le a done
  calc (sentBy a done).map (·.transaction.nonce.toNat)
      = ((sentBy a done).map (·.transaction.nonce)).map UInt64.toNat := by rw [List.map_map]; rfl
    _ = (List.range (sentBy a done).length).map fun k => (UInt64.ofNat k).toNat := by
        rw [h.nonces_eq, List.map_map]
        rfl
    _ = (List.range (sentBy a done).length).map id := by
        apply List.map_congr_left
        intro k hk
        rw [List.mem_range] at hk
        exact UInt64.toNat_ofNat_of_lt' (Nat.lt_trans (Nat.lt_of_lt_of_le hk hle) hlength)
    _ = List.range (sentBy a done).length := List.map_id _

end Chain.Grown

/-- A chain that grew by some sealings and announced their blocks keeps their ledger. -/
theorem Site.keeps_of_grown {site : Site} {config : ChainConfig} {done : List Sealing}
    (h : Chain.Grown config done site.chain)
    (hsent : site.feed.sent = (done.map (·.block)).reverse) (hlength : done.length < 2 ^ 64)
    (hc : Collisionless done) :
  site.Keeps config done
  := by
  have hhashes := h.nodup_hashes hlength hc
  have hblocks := h.nodup_blocks hlength hc
  constructor
  · intro k s hs
    have hlt := (List.getElem?_eq_some_iff.mp hs).1
    have hnumber : s.block.number = .ofNat (k + 1) := by
      apply h.number_eq
      rw [List.getElem?_cons_succ, List.getElem?_map, hs]
      rfl
    obtain ⟨p, hp, hblock⟩ := h.linked hs
    constructor
    · rw [hnumber]
      exact UInt64.toNat_ofNat_of_lt' (Nat.lt_of_le_of_lt hlt hlength)
    · use p, hp
      rw [hblock]
      exact ⟨rfl, rfl⟩
  · exact h.head_eq
  · exact h.isAccepted_iff
  · intro a
    exact ⟨h.toNat_nonceOf hlength a, h.toNat_nonces_eq hlength a⟩
  · have hpairs : ((done.map (·.transaction)).map fun t => (t.sender, t.nonce)).Nodup := by
      rw [List.map_map]
      exact h.nodup hlength
    exact hpairs.of_map
  · rw [h.receipts_eq hhashes, List.map_reverse, List.map_map]
    exact ⟨rfl, hhashes⟩
  · intro s hs
    refine ⟨s.receipt, h.receipt_eq hhashes hs, rfl, rfl, rfl, rfl, ?_,
      h.get?_blockLogs_eq hblocks hs⟩
    intro l hl
    obtain ⟨a, -, rfl⟩ := List.mem_map.mp hl
    exact ⟨rfl, rfl, rfl⟩
  · rw [hsent, List.reverse_reverse]

namespace Sequencer

variable {Key Sig : Type} [AggregateScheme Key Sig]

/-- Receipts that a chain has after some turns it still has after more of them. -/
theorem receipt_run {s : Sequencer Key Sig} {i : Nat} {config : ChainConfig}
    {done : List Sealing} {site site' : Site} (h : s.Ordered i config done site)
    {turns : List (Turn Key)}
    (h' : (s.run i turns).1.Ordered i config (done ++ (s.run i turns).2) site')
    (hhashes : ((done ++ (s.run i turns).2).map (·.transaction.hash)).Nodup) {name : Id}
    {r : Receipt} (hr : site.chain.receipt name = .ok r) :
  site'.chain.receipt name = .ok r
  := by
  have hhashes' : (done.map (·.transaction.hash)).Nodup := by
    rw [List.map_append] at hhashes
    exact hhashes.of_append_left
  rw [Chain.receipt] at hr
  cases hget : site.chain.receipts.get? name with
  | none =>
      rw [hget] at hr
      cases hr
  | some r' =>
      rw [hget] at hr
      cases hr
      have hmem := (Table.get?_eq_some_iff ..).mp hget
      rw [h.grown.receipts_eq hhashes', List.mem_reverse, List.mem_map] at hmem
      obtain ⟨a, ha, heq⟩ := hmem
      cases heq
      exact h'.grown.receipt_eq hhashes (List.mem_append_left _ ha)

/-- However calls that send transactions to a new chain take turns with one another and with
whatever else happens, the chain keeps the ledger of the transactions that it sealed, and
never forgets or replaces a receipt. -/
theorem run_keeps (w : World Key Sig) (config : ChainConfig) (heightFault : Option MessageError)
    (turns : List (Turn Key)) (hcalls : turns.countP Turn.isSend < 2 ^ 64)
    (hc : Collisionless ((start w config heightFault).run w.sites.length turns).2) :
  let i := w.sites.length
  let s := start w config heightFault
  ∃ site, (s.run i turns).1.world.sites[i]? = some site ∧ site.Keeps config (s.run i turns).2 ∧
    ∀ earlier later, turns = earlier ++ later → ∀ site',
      (s.run i earlier).1.world.sites[i]? = some site' → ∀ name r,
      site'.chain.receipt name = .ok r → site.chain.receipt name = .ok r
  := by
  intro i s
  have hlength : (s.run i turns).2.length < 2 ^ 64 :=
    Nat.lt_of_le_of_lt (length_run_start_le w config heightFault i turns) hcalls
  obtain ⟨site, hsite⟩ := (ordered_start w config heightFault).run turns
  rw [List.nil_append] at hsite
  use site, hsite.site_eq, Site.keeps_of_grown hsite.grown hsite.announced hlength hc
  rintro earlier later rfl site' hsite' name r hr
  obtain ⟨site'', hearlier⟩ := (ordered_start w config heightFault).run earlier
  rw [List.nil_append] at hearlier
  rw [hearlier.site_eq] at hsite'
  cases hsite'
  have hhashes := hsite.grown.nodup_hashes hlength hc
  rw [run_append] at hsite hhashes
  exact receipt_run hearlier hsite hhashes hr

end Sequencer

/-- A transaction with one predicate, which is packed in no bytes. -/
def Transaction.trial : Transaction where
  chain := 0
  nonce := 0
  sender := .zero
  recipient := .zero
  gas := 300000
  feeCap := 0
  tipCap := 0
  value := 0
  data := []
  accessList := [⟨messengerAddress, []⟩]

/-- A chain all of whose names are zero. -/
def ChainConfig.trial : ChainConfig := ⟨1, .zero, .zero, 0, .standard⟩

namespace Sequencer

/-- Two calls send the same transaction.  The first one asks for the height, while the second
one cannot be served; then the transaction is sealed, and the second call is turned away. -/
theorem run_keeps_trial :
  let turns : List (Turn Residue) :=
    [.send .trial, .send .trial, .enter 0, .enter 1, .answer 0 (History.directory {}), .enter 1]
  let s : Sequencer Residue Residue := start {} .trial none
  turns.countP Turn.isSend < 2 ^ 64 ∧ Collisionless (s.run 0 turns).2 ∧
  (s.run 0 turns).1.calls.map Submission.isSealed = [true, false] ∧
  ∃ site, (s.run 0 turns).1.world.sites[0]? = some site ∧ site.Keeps .trial (s.run 0 turns).2
  := by
  intro turns s
  have hcalls : turns.countP Turn.isSend < 2 ^ 64 := by decide
  have hlength : (s.run 0 turns).2.length = 1 := rfl
  obtain ⟨sealing, hsealing⟩ := List.length_eq_one_iff.mp hlength
  have hc : Collisionless (s.run 0 turns).2 := by
    rw [hsealing]
    apply collisionless_singleton
  obtain ⟨site, hsite, hkeeps, -⟩ := run_keeps {} .trial none turns hcalls hc
  exact ⟨hcalls, hc, rfl, site, hsite, hkeeps⟩

end Sequencer

end Interchain
