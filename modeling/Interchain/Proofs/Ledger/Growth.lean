import Interchain.Proofs.Ledger.Admission
import Interchain.Proofs.Wire
import Interchain.Simulation.Sequencer

/-!
# How a chain grows

`Chain.GrownFrom` says by which sealings a chain came to be from an earlier state of it.  The
head, the accepted blocks and the numbers of transactions are a function of that state and the
sealings, and so are the receipts and logs of what was sealed, as long as no two of the
transactions or blocks have the same hash.
-/

namespace Interchain

/-! ### Encodings -/

/-- Numbers that fit in 64 bits are told apart by them. -/
theorem eq_of_ofNat_eq {m n : Nat} (hm : m < 2 ^ 64) (hn : n < 2 ^ 64)
    (h : UInt64.ofNat m = .ofNat n) :
  m = n
  := by
  have hnat := congrArg UInt64.toNat h
  rwa [UInt64.toNat_ofNat_of_lt' hm, UInt64.toNat_ofNat_of_lt' hn] at hnat

theorem Address.eq_of_bytes_eq {a b : Address} (h : a.bytes = b.bytes) :
  a = b
  := by
  cases a
  cases b
  congr 1
  apply FixedBytes.ext h

/-- Transactions with the same encoding have the same sender and number. -/
theorem Transaction.eq_of_encoding_eq {t t' : Transaction} (h : t.encoding = t'.encoding) :
  t.sender = t'.sender ∧ t.nonce = t'.nonce
  := by
  simp only [encoding, List.append_assoc] at h
  obtain ⟨-, h⟩ := List.append_inj h (by rw [UInt256.word, UInt256.word, Bytes.length_ofNat,
    Bytes.length_ofNat])
  obtain ⟨hnonce, h⟩ := List.append_inj h (by rw [Bytes.ofUInt64, Bytes.ofUInt64,
    Bytes.length_ofNat, Bytes.length_ofNat])
  obtain ⟨hsender, -⟩ := List.append_inj h (by rw [t.sender.length_eq, t'.sender.length_eq])
  exact ⟨Address.eq_of_bytes_eq hsender, Bytes.ofUInt64_injective hnonce⟩

namespace Sealing

/-- What the hash of the block is taken of. -/
def preimage (s : Sealing) : Bytes :=
  s.block.parent.bytes ++ Bytes.ofUInt64 s.block.number ++ s.transaction.hash.bytes

/-- The receipt of the transaction. -/
def receipt (s : Sealing) : Receipt where
  transaction := s.transaction.hash
  successful := s.execution.successful
  gasUsed := s.execution.gasUsed
  logs := s.execution.announcements.map fun a =>
    ⟨messengerAddress, a.topics, a.data, s.block.hash, s.block.number, s.transaction.hash⟩
  block := s.block.hash
  number := s.block.number
  revertReason := s.execution.revertReason

/-- Blocks of which the hash is taken of the same have the same number. -/
theorem number_eq_of_preimage_eq {s s' : Sealing} (h : s.preimage = s'.preimage) :
  s.block.number = s'.block.number
  := by
  simp only [preimage, List.append_assoc] at h
  obtain ⟨-, h⟩ := List.append_inj h
    (by rw [s.block.parent.length_eq, s'.block.parent.length_eq])
  obtain ⟨hnumber, -⟩ := List.append_inj h (by rw [Bytes.ofUInt64, Bytes.ofUInt64,
    Bytes.length_ofNat, Bytes.length_ofNat])
  apply Bytes.ofUInt64_injective hnumber

/-- The sealings of the transactions of an account. -/
def sentBy (a : Address) (done : List Sealing) : List Sealing :=
  done.filter (·.transaction.sender = a)

theorem sentBy_concat (a : Address) (done : List Sealing) (s : Sealing) :
  sentBy a (done ++ [s])
    = if s.transaction.sender = a then sentBy a done ++ [s] else sentBy a done
  := by
  rw [sentBy, List.filter_append]
  by_cases h : s.transaction.sender = a
  · rw [if_pos h, List.filter_cons_of_pos (by simpa using h)]
    rfl
  · rw [if_neg h, List.filter_cons_of_neg (by simpa using h), List.filter_nil, List.append_nil]
    rfl

theorem length_sentBy_le (a : Address) (done : List Sealing) :
  (sentBy a done).length ≤ done.length
  := List.length_filter_le _ _

/-- No two transactions and no two blocks have the same hash by chance. -/
structure Collisionless (done : List Sealing) : Prop where
  transactions : Set.InjOn keccak256 { b | ∃ s ∈ done, b = s.transaction.encoding }
  blocks : Set.InjOn keccak256 { b | ∃ s ∈ done, b = s.preimage }

/-- Some of the sealings have no more hashes in common than all of them. -/
theorem Collisionless.of_subset {done done' : List Sealing} (h : Collisionless done')
    (hsub : done ⊆ done') :
  Collisionless done
  := by
  constructor
  case transactions =>
    apply Set.InjOn.mono _ h.transactions
    rintro b ⟨a, ha, hb⟩
    exact ⟨a, hsub ha, hb⟩
  case blocks =>
    apply Set.InjOn.mono _ h.blocks
    rintro b ⟨a, ha, hb⟩
    exact ⟨a, hsub ha, hb⟩

/-- A single transaction and block have no hash in common with others. -/
theorem collisionless_singleton (s : Sealing) :
  Collisionless [s]
  := by
  have hsole (f : Sealing → Bytes) : Set.InjOn keccak256 { b | ∃ s' ∈ [s], b = f s' } := by
    rintro a ⟨s₁, h₁, rfl⟩ b ⟨s₂, h₂, rfl⟩ -
    rw [List.mem_singleton.mp h₁, List.mem_singleton.mp h₂]
  exact ⟨hsole _, hsole _⟩

end Sealing

/-! ### Growth -/

namespace Chain

open Sealing

/-- The sealings by which a chain came to be from an earlier state of it, the first one first. -/
inductive GrownFrom (c₀ : Chain) : List Sealing → Chain → Prop where
  | start : GrownFrom c₀ [] c₀
  /-- A transaction was admitted, executed and sealed. -/
  | grow {done : List Sealing} {c : Chain} {t : Transaction} {intrinsic : Nat}
      {results : PredicateResults} {x : Execution} (h : GrownFrom c₀ done c)
      (ha : c.admission t = .ok intrinsic) (hx : x = c.execute t intrinsic results) :
    GrownFrom c₀ (done ++ [⟨t, x, (c.withBlock t x).head⟩]) (c.withBlock t x)

namespace GrownFrom

variable {c₀ c : Chain} {done : List Sealing}

/-- What grew may grow further. -/
theorem trans (h : GrownFrom c₀ done c) {done' : List Sealing} {c' : Chain}
    (h' : GrownFrom c done' c') :
  GrownFrom c₀ (done ++ done') c'
  := by
  induction h' with
  | start => rwa [List.append_nil]
  | grow h' ha hx ih =>
      rw [← List.append_assoc]
      exact .grow ih ha hx

theorem config_eq (h : GrownFrom c₀ done c) :
  c.config = c₀.config
  := by
  induction h with
  | start => rfl
  | grow h ha hx ih => exact ih

/-- The head is the last block. -/
theorem head_eq (h : GrownFrom c₀ done c) :
  c.head = (done.map (·.block)).getLastD c₀.head
  := by
  cases h with
  | start => rfl
  | grow h ha hx => rw [List.map_append, List.map_singleton, List.getLastD_concat]

/-- What was sealed was executed on the chain as it was then. -/
theorem exists_execute (h : GrownFrom c₀ done c) {s : Sealing} (hs : s ∈ done) :
  ∃ before c' intrinsic results, before <+: done ∧ GrownFrom c₀ before c' ∧
    c'.admission s.transaction = .ok intrinsic ∧
    s.execution = c'.execute s.transaction intrinsic results ∧
    s.block = (c'.withBlock s.transaction s.execution).head
  := by
  induction h with
  | start => cases hs
  | @grow done c t intrinsic results x h ha hx ih =>
      obtain hs | hs := List.mem_append.mp hs
      · obtain ⟨before, c', intrinsic', results', hbefore, h'⟩ := ih hs
        exact ⟨before, c', intrinsic', results', hbefore.trans (List.prefix_append _ _), h'⟩
      · rw [List.mem_singleton.mp hs]
        exact ⟨done, c, intrinsic, results, List.prefix_append _ _, h, ha, hx, rfl⟩

/-- Every block is the child of the one before it. -/
theorem linked (h : GrownFrom c₀ done c) {k : Nat} {s : Sealing} (hs : done[k]? = some s) :
  ∃ p, (c₀.head :: done.map (·.block))[k]? = some p ∧ s.block = p.child [s.transaction.hash]
  := by
  induction h with
  | start => simp at hs
  | @grow done c t intrinsic results x h ha hx ih =>
      have hlength : (c₀.head :: done.map (·.block)).length = done.length + 1 := by simp
      rw [List.map_append, ← List.cons_append]
      by_cases hk : k < done.length
      · rw [List.getElem?_append_left hk] at hs
        rw [List.getElem?_append_left (by omega)]
        apply ih hs
      · have hk' := (List.getElem?_eq_some_iff.mp hs).1
        rw [List.length_append, List.length_singleton] at hk'
        obtain rfl : k = done.length := by omega
        rw [List.getElem?_concat_length] at hs
        cases hs
        rw [List.getElem?_append_left (by omega)]
        use c.head
        constructor
        · rw [h.head_eq, List.getLastD_eq_getLast?, ← List.getLast?_cons,
            List.getLast?_eq_getElem?, hlength]
          rfl
        · rfl

/-- The hash of a block is taken of its preimage. -/
theorem hash_eq (h : GrownFrom c₀ done c) {s : Sealing} (hs : s ∈ done) :
  s.block.hash = ⟨keccak256 s.preimage⟩
  := by
  obtain ⟨k, hk⟩ := List.getElem?_of_mem hs
  obtain ⟨p, -, hblock⟩ := h.linked hk
  rw [preimage, hblock]
  simp only [Header.child, List.flatMap_cons, List.flatMap_nil, List.append_nil]

/-- Blocks are numbered in order. -/
theorem number_eq (h : GrownFrom c₀ done c) {k : Nat} {b : Header}
    (hb : (c₀.head :: done.map (·.block))[k]? = some b) :
  b.number = c₀.head.number + .ofNat k
  := by
  induction k generalizing b with
  | zero =>
      cases hb
      exact (UInt64.add_zero _).symm
  | succ k ih =>
      rw [List.getElem?_cons_succ, List.getElem?_map, Option.map_eq_some_iff] at hb
      obtain ⟨s, hs, rfl⟩ := hb
      obtain ⟨p, hp, hblock⟩ := h.linked hs
      rw [hblock, Header.child, ih hp, UInt64.ofNat_add, UInt64.add_assoc]
      rfl

/-- The head is numbered by how many blocks there are. -/
theorem number_head (h : GrownFrom c₀ done c) :
  c.head.number = c₀.head.number + .ofNat done.length
  := by
  induction h with
  | start => exact (UInt64.add_zero _).symm
  | @grow done c t intrinsic results x h ha hx ih =>
      rw [List.length_append, List.length_singleton, UInt64.ofNat_add, ← UInt64.add_assoc, ← ih]
      rfl

/-- The accepted blocks are those from before and the sealed ones. -/
theorem isAccepted_iff (h : GrownFrom c₀ done c) (block : Id) :
  c.isAccepted block = true ↔ c₀.isAccepted block = true ∨ ∃ s ∈ done, s.block.hash = block
  := by
  simp only [isAccepted, List.contains_iff_mem]
  induction h with
  | start => simp
  | @grow done c t intrinsic results x h ha hx ih =>
      rw [withBlock, List.mem_insert_iff, ih]
      simp only [List.mem_append, List.mem_singleton, or_and_right, exists_or, exists_eq_left]
      rw [eq_comm (a := block) (b := (c.head.child [t.hash]).hash)]
      exact or_rotate

/-! ### Numbers of transactions -/

/-- The number of transactions that an account sent is counted. -/
theorem nonceOf_eq (h : GrownFrom c₀ done c) (a : Address) :
  c.nonceOf a = c₀.nonceOf a + .ofNat (sentBy a done).length
  := by
  induction h with
  | start => exact (UInt64.add_zero _).symm
  | @grow done c t intrinsic results x h ha hx ih =>
      rw [nonceOf, withBlock, Table.get?_put, sentBy_concat]
      by_cases hsender : a = t.sender
      · rw [if_pos hsender, if_pos hsender.symm, List.length_append, UInt64.ofNat_add,
          ← UInt64.add_assoc, ← ih, hsender]
        rfl
      · rw [if_neg hsender, if_neg (Ne.symm hsender), ← ih]
        rfl

/-- The transactions of an account carry the numbers in order. -/
theorem nonces_eq (h : GrownFrom c₀ done c) (a : Address) :
  (sentBy a done).map (·.transaction.nonce)
    = (List.range (sentBy a done).length).map fun k => c₀.nonceOf a + .ofNat k
  := by
  induction h with
  | start => rfl
  | @grow done c t intrinsic results x h ha hx ih =>
      obtain ⟨-, hnonce, -⟩ := (c.admission_eq_ok_iff t intrinsic).mp ha
      rw [sentBy_concat]
      by_cases hsender : t.sender = a
      · rw [if_pos hsender, List.map_append, ih, List.length_append, List.length_singleton,
          List.range_succ, List.map_append, List.map_singleton, List.map_singleton, hnonce,
          hsender, h.nonceOf_eq]
      · rw [if_neg hsender, ih]

/-- No transaction is sealed twice. -/
theorem nodup (h : GrownFrom c₀ done c) (hlength : done.length < 2 ^ 64) :
  (done.map fun s => (s.transaction.sender, s.transaction.nonce)).Nodup
  := by
  induction h with
  | start => exact List.nodup_nil
  | @grow done c t intrinsic results x h ha hx ih =>
      obtain ⟨-, hnonce, -⟩ := (c.admission_eq_ok_iff t intrinsic).mp ha
      rw [List.length_append, List.length_singleton] at hlength
      rw [List.map_append, List.map_singleton, ← List.concat_eq_append, List.nodup_concat]
      refine ⟨?_, ih (by omega)⟩
      intro hmem
      obtain ⟨s, hs, hpair⟩ := List.mem_map.mp hmem
      obtain ⟨hsender, hnonce'⟩ := Prod.mk.inj hpair
      have hsent : s ∈ sentBy t.sender done := List.mem_filter.mpr ⟨hs, by simpa using hsender⟩
      have hmem' := List.mem_map_of_mem (f := (·.transaction.nonce)) hsent
      rw [h.nonces_eq, List.mem_map] at hmem'
      obtain ⟨j, hj, hj'⟩ := hmem'
      rw [hnonce', hnonce, h.nonceOf_eq, UInt64.add_right_inj] at hj'
      have hle := length_sentBy_le t.sender done
      rw [List.mem_range] at hj
      have heq := eq_of_ofNat_eq (by omega) (by omega) hj'
      omega

/-! ### Hashes -/

/-- The transactions have different hashes. -/
theorem nodup_hashes (h : GrownFrom c₀ done c) (hlength : done.length < 2 ^ 64)
    (hc : Collisionless done) :
  (done.map (·.transaction.hash)).Nodup
  := by
  have hnodup := h.nodup hlength
  apply hnodup.of_map.map_on
  intro s hs s' hs' heq
  have hencoding : s.transaction.encoding = s'.transaction.encoding := by
    apply hc.transactions ⟨s, hs, rfl⟩ ⟨s', hs', rfl⟩
    exact congrArg Id.toFixedBytes heq
  obtain ⟨hsender, hnonce⟩ := Transaction.eq_of_encoding_eq hencoding
  apply List.inj_on_of_nodup_map hnodup hs hs'
  rw [hsender, hnonce]

/-- The blocks have different numbers. -/
theorem nodup_numbers (h : GrownFrom c₀ done c) (hlength : done.length < 2 ^ 64) :
  (done.map (·.block.number)).Nodup
  := by
  have hnumbers : done.map (·.block.number)
      = (List.range done.length).map fun k => c₀.head.number + UInt64.ofNat (k + 1) := by
    apply List.ext_getElem?
    intro k
    rw [List.getElem?_map, List.getElem?_map]
    cases hk : done[k]? with
    | none =>
        rw [List.getElem?_eq_none_iff] at hk
        rw [List.getElem?_eq_none (by rwa [List.length_range])]
        rfl
    | some s =>
        have hlt := (List.getElem?_eq_some_iff.mp hk).1
        rw [List.getElem?_range hlt, Option.map_some, Option.map_some]
        congr 1
        apply h.number_eq
        rw [List.getElem?_cons_succ, List.getElem?_map, hk]
        rfl
  rw [hnumbers]
  apply List.nodup_range.map_on
  intro j hj k hk heq
  rw [List.mem_range] at hj hk
  exact Nat.succ.inj (eq_of_ofNat_eq (by omega) (by omega) ((UInt64.add_right_inj _).mp heq))

/-- The blocks have different hashes. -/
theorem nodup_blocks (h : GrownFrom c₀ done c) (hlength : done.length < 2 ^ 64)
    (hc : Collisionless done) :
  (done.map (·.block.hash)).Nodup
  := by
  have hnodup := h.nodup_numbers hlength
  apply hnodup.of_map.map_on
  intro s hs s' hs' heq
  rw [h.hash_eq hs, h.hash_eq hs'] at heq
  have hpreimage : s.preimage = s'.preimage := by
    apply hc.blocks ⟨s, hs, rfl⟩ ⟨s', hs', rfl⟩
    exact congrArg Id.toFixedBytes heq
  apply List.inj_on_of_nodup_map hnodup hs hs' (number_eq_of_preimage_eq hpreimage)

/-- If all hashes are different, none are the same by chance. -/
theorem collisionless (h : GrownFrom c₀ done c) (hhashes : (done.map (·.transaction.hash)).Nodup)
    (hblocks : (done.map (·.block.hash)).Nodup) :
  Collisionless done
  := by
  constructor
  case transactions =>
    intro b ⟨s, hs, hb⟩ b' ⟨s', hs', hb'⟩ heq
    rw [hb, hb'] at heq
    have hname : s.transaction.hash = s'.transaction.hash := congrArg Id.mk heq
    rw [hb, hb', List.inj_on_of_nodup_map hhashes hs hs' hname]
  case blocks =>
    intro b ⟨s, hs, hb⟩ b' ⟨s', hs', hb'⟩ heq
    rw [hb, hb'] at heq
    have hname : s.block.hash = s'.block.hash := by
      rw [h.hash_eq hs, h.hash_eq hs', heq]
    rw [hb, hb', List.inj_on_of_nodup_map hblocks hs hs' hname]

/-! ### Receipts and logs -/

/-- A receipt is found by the name of a sealed transaction. -/
theorem exists_receipt (h : GrownFrom c₀ done c) {s : Sealing} (hs : s ∈ done) :
  ∃ r, c.receipt s.transaction.hash = .ok r
  := by
  induction h with
  | start => cases hs
  | @grow done c t intrinsic results x h ha hx ih =>
      rw [receipt, withBlock, Table.get?_put]
      by_cases heq : s.transaction.hash = t.hash
      · rw [if_pos heq]
        exact ⟨_, rfl⟩
      · rw [if_neg heq]
        obtain hs | hs := List.mem_append.mp hs
        · exact ih hs
        · rw [List.mem_singleton.mp hs] at heq
          exact absurd rfl heq

/-- There are no more new receipts than sealed transactions. -/
theorem length_receipts_le (h : GrownFrom c₀ done c) :
  c.receipts.entries.length ≤ c₀.receipts.entries.length + done.length
  := by
  induction h with
  | start => exact Nat.le_refl _
  | @grow done c t intrinsic results x h ha hx ih =>
      rw [List.length_append, List.length_singleton]
      have hput := c.receipts.length_put_le t.hash (c.receiptFor t x)
      rw [withBlock]
      dsimp only
      omega

/-- If there is a new receipt for each of them, the transactions have different hashes. -/
theorem nodup_hashes_of_length_receipts (h : GrownFrom c₀ done c)
    (hlength : c.receipts.entries.length = c₀.receipts.entries.length + done.length) :
  (done.map (·.transaction.hash)).Nodup
  := by
  induction h with
  | start => exact List.nodup_nil
  | @grow done c t intrinsic results x h ha hx ih =>
      rw [List.length_append, List.length_singleton] at hlength
      have hle := h.length_receipts_le
      have hput := c.receipts.length_put_le t.hash (c.receiptFor t x)
      rw [withBlock] at hlength
      dsimp only at hlength
      have hnone := Table.get?_eq_none_of_length_put (t := c.receipts) (k := t.hash)
        (v := c.receiptFor t x) (by omega)
      rw [List.map_append, List.map_singleton, ← List.concat_eq_append, List.nodup_concat]
      refine ⟨?_, ih (by omega)⟩
      intro hmem
      obtain ⟨s, hs, heq⟩ := List.mem_map.mp hmem
      obtain ⟨r, hr⟩ := h.exists_receipt hs
      rw [heq, receipt, hnone] at hr
      cases hr

/-- If the transactions have different hashes, a chain without other receipts has one for each. -/
theorem length_receipts_eq (h : GrownFrom c₀ done c) (hnone : c₀.receipts.entries = [])
    (hn : (done.map (·.transaction.hash)).Nodup) :
  c.receipts.entries.length = done.length
  := by
  have hentries : c.receipts.entries
      = (done.map fun s => (s.transaction.hash, s.receipt)).reverse := by
    induction h with
    | start => exact hnone
    | @grow done c t intrinsic results x h ha hx ih =>
        rw [List.map_append, List.map_singleton, ← List.concat_eq_append, List.nodup_concat] at hn
        apply Table.entries_put_concat (ih hn.2) hn.1
  rw [hentries, List.length_reverse, List.length_map]

/-- The receipt of a sealed transaction is found by its name. -/
theorem receipt_eq (h : GrownFrom c₀ done c) (hn : (done.map (·.transaction.hash)).Nodup)
    {s : Sealing} (hs : s ∈ done) :
  c.receipt s.transaction.hash = .ok s.receipt
  := by
  induction h with
  | start => cases hs
  | @grow done c t intrinsic results x h ha hx ih =>
      rw [List.map_append, List.map_singleton, ← List.concat_eq_append, List.nodup_concat] at hn
      rw [receipt, withBlock, Table.get?_put]
      obtain hs | hs := List.mem_append.mp hs
      · have hne : s.transaction.hash ≠ t.hash := by
          intro heq
          apply hn.1
          rw [← heq]
          exact List.mem_map_of_mem (f := fun s => s.transaction.hash) hs
        rw [if_neg hne]
        apply ih hn.2 hs
      · rw [List.mem_singleton.mp hs, if_pos rfl]
        rfl

/-- The logs of a sealed block are those in the receipt of its transaction. -/
theorem get?_blockLogs_eq (h : GrownFrom c₀ done c) (hn : (done.map (·.block.hash)).Nodup)
    {s : Sealing} (hs : s ∈ done) :
  c.blockLogs.get? s.block.hash = some s.receipt.logs
  := by
  induction h with
  | start => cases hs
  | @grow done c t intrinsic results x h ha hx ih =>
      rw [List.map_append, List.map_singleton, ← List.concat_eq_append, List.nodup_concat] at hn
      rw [withBlock, Table.get?_put]
      obtain hs | hs := List.mem_append.mp hs
      · have hne : s.block.hash ≠ (c.head.child [t.hash]).hash := by
          intro heq
          apply hn.1
          rw [withBlock, ← heq]
          exact List.mem_map_of_mem (f := fun s => s.block.hash) hs
        rw [if_neg hne]
        apply ih hn.2 hs
      · rw [List.mem_singleton.mp hs]
        exact if_pos rfl

end GrownFrom

end Chain

end Interchain
