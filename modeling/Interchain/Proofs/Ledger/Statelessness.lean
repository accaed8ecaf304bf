import Interchain.Proofs.Ledger.Outcome
import Interchain.Proofs.Ledger.Rejection

/-!
# Deliveries leave no state behind

A receipt says what became of a transaction and where on the chain it was sealed.  The former is
the outcome of the transaction, on which nothing has an influence that a chain has accumulated:
two chains with the same configuration, whatever either has sealed before, make the same of
transactions that differ at most in the number of the sender, as long as they are told the same
about validators.  `Sequencer.deliveries_stateless` says so of transactions that are sent to the
two chains, and of all those that the two seal however calls take turns.  So a message that is
delivered again comes to what it came to the first time.
-/

namespace Interchain

variable {Key Sig : Type} [AggregateScheme Key Sig]

/-- Sending a transaction to the chain at a site, where the questions about validators are
answered by some directories in turn, has it sealed with a receipt. -/
def World.Seals (w : World Key Sig) (i : Nat) (t : Transaction) (answers : Nat → Directory Key)
    (r : Receipt) : Prop :=
  ∃ w' site, w.submitUnder i t answers = some (.ok t.hash, w') ∧ w'.sites[i]? = some site ∧
    site.chain.receipt t.hash = .ok r

/-- A transaction that is admitted is sealed, and its receipt says its outcome. -/
theorem World.seals_outcome {w : World Key Sig} {i : Nat} {site : Site}
    (hsite : w.sites[i]? = some site) {t : Transaction} {intrinsic : Nat}
    (ha : site.chain.admission t = .ok intrinsic) (answers : Nat → Directory Key) :
  ∃ r, w.Seals i t answers r ∧ r.outcome = site.chain.config.outcome answers t
  := by
  have hsubmit := submitUnder_eq hsite t answers
  rw [ha] at hsubmit
  dsimp only at hsubmit
  rw [Chain.execute_eq_outcome ha] at hsubmit
  let x := site.chain.config.outcome answers t
  exact ⟨_, ⟨_, _, hsubmit, getElem?_sites_sealed hsite t x,
    (site.advances_withBlock t x).receipt⟩, site.chain.outcome_receiptFor t x⟩

/-- The receipts of transactions that came to their outcome, as one directory answered, differ
only in where they were sealed if the transactions do only in the number of the sender. -/
theorem Sealing.HasOutcome.outcome_receipt_eq {a a' : Sealing} {config : ChainConfig}
    {d : Directory Key} (h : a.HasOutcome config {d}) (h' : a'.HasOutcome config {d})
    (ht : a'.transaction = a.transaction.withNonce a'.transaction.nonce) :
  a.receipt.outcome = a'.receipt.outcome
  := by
  obtain ⟨answers, hanswers, hx⟩ := h
  obtain ⟨answers', hanswers', hx'⟩ := h'
  obtain rfl : answers = answers' := by
    funext k
    rw [Set.mem_singleton_iff.mp (hanswers k), Set.mem_singleton_iff.mp (hanswers' k)]
  rw [a.outcome_receipt, a'.outcome_receipt, hx, hx', ht, config.outcome_withNonce]

namespace Sequencer

/-- Two chains with the same configuration have each sealed whatever was sent to it before.
Transactions that differ at most in the number of the sender, one of which is sent to either and
admitted, have receipts which differ only in where they were sealed, as long as the questions
about validators are answered alike.  And if no call is being served at either chain, so do any
two such transactions that the chains seal from then on, however calls take turns, while one
directory answers. -/
theorem deliveries_stateless (config : ChainConfig) (w w' : World Key Sig)
    (heightFault heightFault' : Option MessageError) (turns turns' : List (Turn Key)) :
  let i := w.sites.length
  let i' := w'.sites.length
  let s := ((start w config heightFault).run i turns).1
  let s' := ((start w' config heightFault').run i' turns').1
  ∃ site site', s.world.sites[i]? = some site ∧ s'.world.sites[i']? = some site' ∧
    (∀ (t : Transaction) (nonce : UInt64) (answers : Nat → Directory Key) (gas gas' : Nat),
      site.chain.admission t = .ok gas →
      site'.chain.admission (t.withNonce nonce) = .ok gas' →
      ∃ r r', s.world.Seals i t answers r ∧ s'.world.Seals i' (t.withNonce nonce) answers r' ∧
        r.outcome = r'.outcome) ∧
    (s.served = none → s'.served = none →
      ∀ (d : Directory Key) (next next' : List (Turn Key)),
      (∀ turn ∈ next ++ next', turn.IsAnsweredFrom {d}) →
      ∀ a ∈ (s.run i next).2 ++ (s'.run i' next').2,
      ∀ a' ∈ (s.run i next).2 ++ (s'.run i' next').2,
      a'.transaction = a.transaction.withNonce a'.transaction.nonce →
      a.receipt.outcome = a'.receipt.outcome)
  := by
  intro i i' s s'
  obtain ⟨site, ho⟩ := (ordered_start w config heightFault).run turns
  obtain ⟨site', ho'⟩ := (ordered_start w' config heightFault').run turns'
  use site, site', ho.site_eq, ho'.site_eq
  constructor
  · intro t nonce answers gas gas' ha ha'
    obtain ⟨r, hr, houtcome⟩ := World.seals_outcome ho.site_eq ha answers
    obtain ⟨r', hr', houtcome'⟩ := World.seals_outcome ho'.site_eq ha' answers
    use r, r', hr, hr'
    rw [houtcome, houtcome', ho.grown.config_eq, ho'.grown.config_eq,
      config.outcome_withNonce]
  · intro hserved hserved' d next next' hturns a ha a' ha' ht
    obtain ⟨hnext, hnext'⟩ := List.forall_mem_append.mp hturns
    have hsealed : ∀ a ∈ (s.run i next).2 ++ (s'.run i' next').2, a.HasOutcome config {d} := by
      intro a ha
      obtain ha | ha := List.mem_append.mp ha
      · apply ho.outcome_run hserved (Set.singleton_nonempty d) hnext a ha
      · apply ho'.outcome_run hserved' (Set.singleton_nonempty d) hnext' a ha
    exact (hsealed a ha).outcome_receipt_eq (hsealed a' ha') ht

/-- A call that reads a broken predicate comes to the same on a new chain and, with the next
number, on one that has sealed a transaction of the account. -/
theorem deliveries_stateless_trial :
  let t : Transaction :=
    { Transaction.trial with
      recipient := messengerAddress
      data := (Abi.Function.readCall 0).encode }
  let s : Sequencer Residue Residue := start {} .trial none
  let turns : List (Turn Residue) := [.send .trial, .enter 0, .answer 0 (History.directory {})]
  let answers (_ : Nat) : Directory Residue := History.directory {}
  (s.run 0 turns).2.length = 1 ∧
  ∃ r r', s.world.Seals 0 t answers r ∧
    (s.run 0 turns).1.world.Seals 0 (t.withNonce 1) answers r' ∧ r.outcome = r'.outcome
  := by
  intro t s turns answers
  obtain ⟨site, site', hsite, hsite', hstateless, -⟩ :=
    deliveries_stateless .trial {} {} none none [] turns
  have ha : site.chain.admission t = .ok 221000 := by
    cases hsite
    rfl
  have ha' : site'.chain.admission (t.withNonce 1) = .ok 221000 := by
    cases hsite'
    rfl
  exact ⟨rfl, hstateless t 1 answers 221000 221000 ha ha'⟩

end Sequencer

end Interchain
