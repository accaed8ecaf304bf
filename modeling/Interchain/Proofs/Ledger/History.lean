import Interchain.Proofs.Ledger.Growth

/-!
# How a chain came to be

`Chain.Grown` says by which sealings a chain came to be from its first block.  Everything
that the chain keeps is a function of them: the head, the accepted blocks and the numbers of
transactions always, and the receipts and logs as long as no two of the transactions or
blocks have the same hash.
-/

namespace Interchain

namespace Chain

open Sealing

/-- The sealings by which a chain came to be, the first one first. -/
inductive Grown (config : ChainConfig) : List Sealing → Chain → Prop where
  | start : Grown config [] { config }
  /-- A transaction was admitted, executed and sealed. -/
  | grow {done : List Sealing} {c : Chain} {t : Transaction} {intrinsic : Nat}
      {results : PredicateResults} {x : Execution} (h : Grown config done c)
      (ha : c.admission t = .ok intrinsic) (hx : x = c.execute t intrinsic results) :
    Grown config (done ++ [⟨t, x, (c.withBlock t x).head⟩]) (c.withBlock t x)

namespace Grown

variable {config : ChainConfig} {done : List Sealing} {c : Chain}

/-- A chain grew from its first block. -/
theorem grownFrom (h : Grown config done c) :
  GrownFrom { config } done c
  := by
  induction h with
  | start => exact .start
  | grow h ha hx ih => exact .grow ih ha hx

theorem config_eq (h : Grown config done c) :
  c.config = config
  := h.grownFrom.config_eq

/-- The head is the last block. -/
theorem head_eq (h : Grown config done c) :
  c.head = (done.map (·.block)).getLastD config.genesis
  := h.grownFrom.head_eq

/-- Every block is the child of the one before it. -/
theorem linked (h : Grown config done c) {k : Nat} {s : Sealing} (hs : done[k]? = some s) :
  ∃ p, (config.genesis :: done.map (·.block))[k]? = some p ∧
    s.block = p.child [s.transaction.hash]
  := h.grownFrom.linked hs

/-- Blocks are numbered in order. -/
theorem number_eq (h : Grown config done c) {k : Nat} {b : Header}
    (hb : (config.genesis :: done.map (·.block))[k]? = some b) :
  b.number = .ofNat k
  := by
  rw [h.grownFrom.number_eq hb]
  exact UInt64.zero_add _

/-- The accepted blocks are the first one and the sealed ones. -/
theorem isAccepted_iff (h : Grown config done c) (block : Id) :
  c.isAccepted block = true ↔ block = config.name ∨ ∃ s ∈ done, s.block.hash = block
  := by
  rw [h.grownFrom.isAccepted_iff, isAccepted, List.contains_iff_mem, List.mem_singleton]

/-! ### Numbers of transactions -/

/-- The number of transactions that an account sent is counted. -/
theorem nonceOf_eq (h : Grown config done c) (a : Address) :
  c.nonceOf a = .ofNat (sentBy a done).length
  := by
  rw [h.grownFrom.nonceOf_eq]
  exact UInt64.zero_add _

/-- The number of transactions that an account sent is counted exactly as long as it fits. -/
theorem toNat_nonceOf (h : Grown config done c) (hlength : done.length < 2 ^ 64) (a : Address) :
  (c.nonceOf a).toNat = (sentBy a done).length
  := by
  rw [h.nonceOf_eq]
  exact UInt64.toNat_ofNat_of_lt' (Nat.lt_of_le_of_lt (length_sentBy_le a done) hlength)

/-- The transactions of an account carry the numbers in order. -/
theorem nonces_eq (h : Grown config done c) (a : Address) :
  (sentBy a done).map (·.transaction.nonce)
    = (List.range (sentBy a done).length).map UInt64.ofNat
  := by
  rw [h.grownFrom.nonces_eq]
  apply List.map_congr_left
  intro k _
  exact UInt64.zero_add _

/-- No transaction is sealed twice. -/
theorem nodup (h : Grown config done c) (hlength : done.length < 2 ^ 64) :
  (done.map fun s => (s.transaction.sender, s.transaction.nonce)).Nodup
  := h.grownFrom.nodup hlength

/-! ### Hashes -/

/-- The transactions have different hashes. -/
theorem nodup_hashes (h : Grown config done c) (hlength : done.length < 2 ^ 64)
    (hc : Collisionless done) :
  (done.map (·.transaction.hash)).Nodup
  := h.grownFrom.nodup_hashes hlength hc

/-- The blocks have different hashes. -/
theorem nodup_blocks (h : Grown config done c) (hlength : done.length < 2 ^ 64)
    (hc : Collisionless done) :
  (done.map (·.block.hash)).Nodup
  := h.grownFrom.nodup_blocks hlength hc

/-! ### Receipts and logs -/

/-- There is one receipt for each transaction. -/
theorem receipts_eq (h : Grown config done c) (hn : (done.map (·.transaction.hash)).Nodup) :
  c.receipts.entries = (done.map fun s => (s.transaction.hash, s.receipt)).reverse
  := by
  induction h with
  | start => rfl
  | @grow done c t intrinsic results x h ha hx ih =>
      rw [List.map_append, List.map_singleton, ← List.concat_eq_append, List.nodup_concat] at hn
      apply Table.entries_put_concat (ih hn.2) hn.1

/-- A receipt on a chain is that of a transaction that was sealed. -/
theorem exists_sealing (h : Grown config done c) {name : Id} {r : Receipt}
    (hr : c.receipt name = .ok r) :
  ∃ a ∈ done, a.transaction.hash = name ∧ a.receipt = r
  := by
  induction h with
  | start => cases hr
  | @grow done c t intrinsic results x h ha hx ih =>
      rw [receipt, withBlock, Table.get?_put] at hr
      by_cases hname : name = t.hash
      · rw [if_pos hname] at hr
        cases hr
        exact ⟨_, List.mem_append_right _ List.mem_cons_self, hname.symm, rfl⟩
      · rw [if_neg hname] at hr
        obtain ⟨a, ha, heq⟩ := ih hr
        exact ⟨a, List.mem_append_left _ ha, heq⟩

/-- The receipt of a sealed transaction is found by its name. -/
theorem receipt_eq (h : Grown config done c) (hn : (done.map (·.transaction.hash)).Nodup)
    {s : Sealing} (hs : s ∈ done) :
  c.receipt s.transaction.hash = .ok s.receipt
  := h.grownFrom.receipt_eq hn hs

/-- The logs of a sealed block are those in the receipt of its transaction. -/
theorem get?_blockLogs_eq (h : Grown config done c) (hn : (done.map (·.block.hash)).Nodup)
    {s : Sealing} (hs : s ∈ done) :
  c.blockLogs.get? s.block.hash = some s.receipt.logs
  := h.grownFrom.get?_blockLogs_eq hn hs

end Grown

end Chain

end Interchain
