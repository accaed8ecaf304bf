import Interchain.Proofs.Ledger.Inquiry
import Interchain.Proofs.Ledger.Turns

/-!
# What the outcome of a transaction depends on

What execution comes to is a function of what does not change about a chain, of the transaction
and of what is answered about validators: `ChainConfig.outcome` is this function.  However calls
take turns, every transaction that they have sealed comes to this outcome:
`Sequencer.Ordered.outcome_run` says so, and that the answers are those of the directories that
answered in these turns.  A receipt says this outcome, and where on the chain the transaction was
sealed.
-/

namespace Interchain

variable {Key Sig : Type} [AggregateScheme Key Sig]

/-- The transaction with another number of the sender. -/
def Transaction.withNonce (t : Transaction) (nonce : UInt64) : Transaction := { t with nonce }

namespace ChainConfig

/-- What is asked about validators for a transaction. -/
def questions (config : ChainConfig) (t : Transaction) : Inquiry Key PredicateResults :=
  ({ config } : Chain).inquire (t.predicatesFor messengerAddress)

/-- What the execution of a transaction comes to on a chain, if it is admitted and the questions
about validators are answered by some directories in turn. -/
def outcome (config : ChainConfig) (answers : Nat → Directory Key) (t : Transaction) :
    Execution :=
  ({ config } : Chain).execute t t.price ((config.questions t).resolve answers)

/-- The number that a transaction carries does not matter for its outcome. -/
theorem outcome_withNonce (config : ChainConfig) (answers : Nat → Directory Key)
    (t : Transaction) (nonce : UInt64) :
  config.outcome answers (t.withNonce nonce) = config.outcome answers t
  := rfl

end ChainConfig

/-- A transaction comes to its outcome if it is admitted. -/
theorem Chain.execute_eq_outcome {c : Chain} {t : Transaction} {intrinsic : Nat}
    (ha : c.admission t = .ok intrinsic) (answers : Nat → Directory Key) :
  c.execute t intrinsic ((c.inquire (t.predicatesFor messengerAddress)).resolve answers)
    = c.config.outcome answers t
  := by
  obtain ⟨-, -, rfl, -⟩ := (c.admission_eq_ok_iff ..).mp ha
  rfl

/-! ### Receipts -/

/-- What became of a transaction, wherever it was sealed. -/
def Receipt.outcome (r : Receipt) : Execution where
  successful := r.successful
  gasUsed := r.gasUsed
  announcements := r.logs.map fun l => ⟨l.topics, l.data⟩
  revertReason := r.revertReason

/-- A receipt says what execution came to. -/
theorem Chain.outcome_receiptFor (c : Chain) (t : Transaction) (x : Execution) :
  (c.receiptFor t x).outcome = x
  := by
  rw [receiptFor, Receipt.outcome]
  simp only [List.map_map, Function.comp_def, List.map_id']

/-- The receipt of a sealed transaction says what its execution came to. -/
theorem Sealing.outcome_receipt (a : Sealing) :
  a.receipt.outcome = a.execution
  := by
  rw [receipt, Receipt.outcome]
  simp only [List.map_map, Function.comp_def, List.map_id']

/-! ### Answers -/

/-- The directories that come after one that answers first. -/
def Directory.first (d : Directory Key) (answers : Nat → Directory Key) : Nat → Directory Key
  | 0 => d
  | k + 1 => answers k

/-- A question that was answered is answered by the directory that comes first. -/
theorem Inquiry.resolve_answer {α : Type} (q : Inquiry Key α) (d : Directory Key)
    (answers : Nat → Directory Key) :
  (q.answer d).resolve answers = q.resolve (d.first answers)
  := by
  cases q with
  | done result => rfl
  | height next => rfl
  | subnetOf chain next => rfl
  | snapshot height subnet next => rfl

/-- Whatever else some directories answer, it is what they answer to all that is asked for a
transaction. -/
def Inquiry.IsPartOf (q : Inquiry Key PredicateResults) (config : ChainConfig)
    (D : Set (Directory Key)) (t : Transaction) : Prop :=
  ∀ answers, (∀ k, answers k ∈ D) → ∃ answers', (∀ k, answers' k ∈ D) ∧
    q.resolve answers = (config.questions t).resolve answers'

theorem Inquiry.IsPartOf.answer {q : Inquiry Key PredicateResults} {config : ChainConfig}
    {D : Set (Directory Key)} {t : Transaction} (h : q.IsPartOf config D t)
    {d : Directory Key} (hd : d ∈ D) :
  (q.answer d).IsPartOf config D t
  := by
  intro answers hanswers
  rw [resolve_answer]
  apply h
  intro k
  cases k with
  | zero => exact hd
  | succ k => exact hanswers k

/-- Whoever answers a call in a turn is among some directories. -/
def Turn.IsAnsweredFrom (D : Set (Directory Key)) : Turn Key → Prop
  | .answer _ d => d ∈ D
  | _ => True

/-! ### Turns -/

/-- The transaction came to its outcome, as some directories answered. -/
def Sealing.HasOutcome (a : Sealing) (config : ChainConfig) (D : Set (Directory Key)) : Prop :=
  ∃ answers, (∀ k, answers k ∈ D) ∧ a.execution = config.outcome answers a.transaction

namespace Sequencer

variable {s : Sequencer Key Sig} {i : Nat} {config : ChainConfig} {D : Set (Directory Key)}
  {done : List Sealing} {site : Site}

/-- What the calls have still to ask is part of what is asked for their transactions. -/
def Foreseen (s : Sequencer Key Sig) (config : ChainConfig) (D : Set (Directory Key)) : Prop :=
  ∀ {call : Nat} {t : Transaction} {intrinsic : Nat} {q : Inquiry Key PredicateResults},
    s.calls[call]? = some ⟨t, .asking intrinsic q⟩ → q.IsPartOf config D t

/-- Putting a call to something that is foreseen leaves everything foreseen. -/
theorem Foreseen.set {s' : Sequencer Key Sig} (h : s.Foreseen config D) {call : Nat}
    {c : Submission Key} (hs' : s'.calls = s.calls.set call c)
    (hc : ∀ {t intrinsic q}, c = ⟨t, .asking intrinsic q⟩ → q.IsPartOf config D t) :
  s'.Foreseen config D
  := by
  intro call' t intrinsic q hcall'
  rw [hs'] at hcall'
  obtain ⟨-, heq⟩ | ⟨-, hold⟩ := getElem?_calls_set hcall'
  · exact hc heq.symm
  · exact h hold

/-- A call that goes on asks what is foreseen or has its transaction come to its outcome. -/
theorem Foreseen.proceed (h : s.Foreseen config D) (hD : D.Nonempty)
    (hsite : s.world.sites[i]? = some site) (hconfig : site.chain.config = config)
    {call : Nat} {t : Transaction} {intrinsic : Nat}
    (ha : site.chain.admission t = .ok intrinsic) {q : Inquiry Key PredicateResults}
    (hq : q.IsPartOf config D t) :
  (s.proceed i call t intrinsic q).1.Foreseen config D ∧
  ∀ a ∈ (s.proceed i call t intrinsic q).2, a.HasOutcome config D
  := by
  have hasked : Foreseen { s with
      calls := s.calls.set call ⟨t, .asking intrinsic q⟩
      served := some call } config D := by
    apply h.set rfl
    rintro _ _ _ ⟨⟩
    exact hq
  have hnone : ∀ a ∈ (none : Option Sealing), a.HasOutcome config D := by
    rintro _ ⟨⟩
  cases q with
  | done results =>
      rw [Sequencer.proceed]
      simp only [hsite]
      constructor
      · apply h.set rfl
        rintro _ _ _ ⟨⟩
      · rintro _ ⟨⟩
        obtain ⟨d, hd⟩ := hD
        obtain ⟨answers, hanswers, hresults⟩ := hq (fun _ => d) fun _ => hd
        use answers, hanswers
        obtain rfl := hconfig
        rw [← Chain.execute_eq_outcome ha]
        exact congrArg (site.chain.execute t intrinsic) hresults
  | height next => exact ⟨hasked, hnone⟩
  | subnetOf chain next => exact ⟨hasked, hnone⟩
  | snapshot height subnet next => exact ⟨hasked, hnone⟩

/-- A turn leaves everything foreseen, and what it seals comes to its outcome. -/
theorem Foreseen.step (h : s.Foreseen config D) (hD : D.Nonempty)
    (ho : s.Ordered i config done site) {turn : Turn Key} (hturn : turn.IsAnsweredFrom D) :
  (s.step i turn).1.Foreseen config D ∧ ∀ a ∈ (s.step i turn).2, a.HasOutcome config D
  := by
  have hnone : ∀ a ∈ (none : Option Sealing), a.HasOutcome config D := by
    rintro _ ⟨⟩
  have hconfig := ho.grown.config_eq
  cases turn with
  | send t =>
      refine ⟨?_, hnone⟩
      intro call t' intrinsic q hcall
      rw [Sequencer.step, List.getElem?_append] at hcall
      split at hcall
      · exact h hcall
      · have hmem := List.mem_of_getElem? hcall
        rw [List.mem_singleton] at hmem
        cases hmem
  | enter call =>
      rw [Sequencer.step]
      split
      · next t site' hserved hcall hsite =>
        rw [ho.site_eq] at hsite
        cases hsite
        cases ha : site.chain.admission t with
        | error e =>
            refine ⟨?_, hnone⟩
            apply h.set rfl
            rintro _ _ _ ⟨⟩
        | ok intrinsic =>
            apply h.proceed hD ho.site_eq hconfig ha
            intro answers hanswers
            use answers, hanswers
            obtain rfl := hconfig
            rfl
      · exact ⟨h, hnone⟩
  | answer call d =>
      rw [Sequencer.step]
      split
      · next t intrinsic q hcall =>
        apply h.proceed hD ho.site_eq hconfig (ho.exclusive hcall).2
        exact (h hcall).answer hturn
      · exact ⟨h, hnone⟩
  | follow station => exact ⟨h, hnone⟩
  | request station r =>
      rw [Sequencer.step]
      split
      · exact ⟨h, hnone⟩
      · exact ⟨h, hnone⟩

/-- Whatever is sealed in any number of turns comes to its outcome. -/
theorem Foreseen.run (h : s.Foreseen config D) (hD : D.Nonempty)
    (ho : s.Ordered i config done site) {turns : List (Turn Key)}
    (hturns : ∀ turn ∈ turns, turn.IsAnsweredFrom D) :
  ∀ a ∈ (s.run i turns).2, a.HasOutcome config D
  := by
  induction turns generalizing s done site with
  | nil =>
      intro a ha
      cases ha
  | cons turn turns ih =>
      obtain ⟨hstep, hsealed⟩ := h.step hD ho (hturns turn List.mem_cons_self)
      obtain ⟨site', ho'⟩ := ho.took (s.took_step i turn)
      intro a ha
      rw [run_cons, List.mem_append, Option.mem_toList] at ha
      obtain ha | ha := ha
      · exact hsealed a ha
      · apply ih hstep ho' (fun turn hturn => hturns turn (List.mem_cons_of_mem _ hturn)) a ha

/-- While no call is served, there is nothing to ask. -/
theorem Ordered.foreseen (h : s.Ordered i config done site) (hserved : s.served = none) :
  s.Foreseen config D
  := by
  intro call t intrinsic q hcall
  have hasking := (h.exclusive hcall).1
  rw [hserved] at hasking
  cases hasking

/-- However calls take turns after a moment at which none is served, every transaction that is
sealed comes to its outcome, where the directories that answer in these turns answer all
questions. -/
theorem Ordered.outcome_run (h : s.Ordered i config done site) (hserved : s.served = none)
    (hD : D.Nonempty) {turns : List (Turn Key)} (hturns : ∀ turn ∈ turns, turn.IsAnsweredFrom D) :
  ∀ a ∈ (s.run i turns).2, a.HasOutcome config D
  := by
  have hforeseen : s.Foreseen config D := h.foreseen hserved
  apply hforeseen.run hD h hturns

/-- Whoever answers, every transaction that is sealed comes to an outcome. -/
theorem Ordered.exists_outcome_run (h : s.Ordered i config done site) (hserved : s.served = none)
    (turns : List (Turn Key)) {a : Sealing} (ha : a ∈ (s.run i turns).2) :
  ∃ answers : Nat → Directory Key, a.execution = config.outcome answers a.transaction
  := by
  have hD : (Set.univ : Set (Directory Key)).Nonempty := ⟨History.directory {}, Set.mem_univ _⟩
  have hturns : ∀ turn ∈ turns, turn.IsAnsweredFrom Set.univ := by
    intro turn _
    cases turn with
    | answer call d => exact Set.mem_univ d
    | _ => trivial
  obtain ⟨answers, -, hx⟩ := h.outcome_run hserved hD hturns a ha
  use answers

end Sequencer

end Interchain
