import Interchain.Proofs.Exposure
import Interchain.Proofs.Ledger.Sequencing

/-!
# Rejected and failed transactions

A transaction that is sent while nobody else sends one is either refused and changes
nothing, or executed and sealed into one block, whatever is answered about validators.
`Sequencer.submitUnder_run` says which, that execution is unsuccessful exactly if the messenger
comes to an error, and that a transaction whose execution failed leaves nothing but its block,
its receipt and its number.  `Sequencer.run_uninterrupted` relates this to the turns of a call.
-/

namespace Interchain

/-- What sealing one transaction changes about the chain at a site. -/
structure Site.Advances (site site' : Site) (t : Transaction) (x : Execution) : Prop where
  head_eq : site'.chain.head = site.chain.head.child [t.hash]
  config_eq : site'.chain.config = site.chain.config
  accepted : ∀ block, site'.chain.isAccepted block = true ↔
    block = (site.chain.head.child [t.hash]).hash ∨ site.chain.isAccepted block = true
  /-- Only the sender's number of transactions changes. -/
  nonces : ∀ a, site'.chain.nonceOf a
    = if a = t.sender then site.chain.nonceOf a + 1 else site.chain.nonceOf a
  receipt : site'.chain.receipt t.hash = .ok (site.chain.receiptFor t x)
  receipts : ∀ name, name ≠ t.hash → site'.chain.receipt name = site.chain.receipt name
  logs : ∀ block, site'.chain.blockLogs.get? block
    = if block = (site.chain.head.child [t.hash]).hash then some (site.chain.receiptFor t x).logs
      else site.chain.blockLogs.get? block
  announced : site'.feed.sent = site.chain.head.child [t.hash] :: site.feed.sent

/-- A transaction that failed used all of its gas, left no logs, and the error is told. -/
structure Receipt.IsFailure (r : Receipt) (t : Transaction) (e : ChainError) : Prop where
  successful_eq : r.successful = false
  logs_eq : r.logs = []
  gasUsed_eq : r.gasUsed = t.gas.toNat
  reason_eq : r.revertReason = some e.text

/-- A block for a transaction is all that is new. -/
theorem Site.advances_withBlock (site : Site) (t : Transaction) (x : Execution) :
  site.Advances (site.withBlock t x) t x
  := by
  rw [Site.withBlock]
  constructor
  · rfl
  · rfl
  · intro block
    simp only [Chain.isAccepted, List.contains_iff_mem, Chain.withBlock, List.mem_insert_iff]
  · intro a
    rw [Chain.nonceOf, Chain.withBlock, Table.get?_put]
    by_cases ha : a = t.sender
    · rw [if_pos ha, if_pos ha, ha]
      rfl
    · rw [if_neg ha, if_neg ha]
      rfl
  · rw [Chain.receipt, Chain.withBlock, Table.get?_put, if_pos rfl]
  · intro name hname
    rw [Chain.receipt, Chain.withBlock, Table.get?_put, if_neg hname]
    rfl
  · intro block
    rw [Chain.withBlock, Table.get?_put]
  · rfl

/-- A receipt for a failed execution is one of a failure. -/
theorem Chain.Fails.isFailure_receiptFor {c : Chain} {t : Transaction} {intrinsic : Nat}
    {results : PredicateResults} {e : ChainError} (h : c.Fails t intrinsic results e) :
  (c.receiptFor t (c.execute t intrinsic results)).IsFailure t e
  := by
  rw [h.execute_eq]
  constructor
  case successful_eq => rfl
  case logs_eq => rfl
  case gasUsed_eq => rfl
  case reason_eq => rfl

namespace World

variable {Key Sig : Type} [AggregateScheme Key Sig]

/-- Nobody is handed anything if there are no logs. -/
theorem sealed_of_no_logs {w : World Key Sig} {i : Nat} {site : Site}
    (hsite : w.sites[i]? = some site) {t : Transaction} {x : Execution}
    (h : (site.chain.receiptFor t x).logs = []) :
  w.sealed i t x = { w with sites := w.sites.set i (site.withBlock t x) }
  := by
  have hsent : (site.chain.receiptFor t x).sent = [] := by
    rw [Receipt.sent, h]
    rfl
  rw [sealed, hsite]
  simp only [handAll, hsent, List.foldl_nil, Site.withBlock]

/-- Sending a transaction that is not admitted changes nothing; any other one is sealed. -/
theorem submitUnder_eq {w : World Key Sig} {i : Nat} {site : Site}
    (hsite : w.sites[i]? = some site) (t : Transaction) (answers : Nat → Directory Key) :
  w.submitUnder i t answers
    = some (match site.chain.admission t with
      | .error e => (.error e, w)
      | .ok intrinsic =>
        (.ok t.hash, w.sealed i t (site.chain.execute t intrinsic
          ((site.chain.inquire (t.predicatesFor messengerAddress)).resolve answers))))
  := by
  rw [submitUnder, hsite]
  simp only [Option.bind_eq_bind, Option.bind_some, Chain.performUnder]
  cases site.chain.admission t with
  | error e => rfl
  | ok intrinsic => rfl

end World

namespace Sequencer

variable {Key Sig : Type} [AggregateScheme Key Sig]

open Sealing

/-- A transaction that is sent to a chain which sealed some transactions is refused, without a
trace, if it is for another chain, does not carry the number of its sender's transactions, or
has less gas than its price.  Otherwise it is executed with the results that its predicates have
if the questions about validators are answered as given, whatever the answers are, and exactly
one block is sealed for it.  The execution is unsuccessful exactly if the messenger comes to an
error, and then it changes the site of the chain only and the receipt tells the error. -/
theorem submitUnder_run (w : World Key Sig) (config : ChainConfig)
    (heightFault : Option MessageError) (turns : List (Turn Key))
    (hblocks : ((start w config heightFault).run w.sites.length turns).2.length < 2 ^ 64)
    (t : Transaction) (answers : Nat → Directory Key) :
  let i := w.sites.length
  let world := ((start w config heightFault).run i turns).1.world
  let done := ((start w config heightFault).run i turns).2
  let rejected := t.chain ≠ config.number ∨ t.nonce.toNat ≠ (sentBy t.sender done).length ∨
    t.gas.toNat < t.price
  ∃ site, world.sites[i]? = some site ∧
    (rejected → ∃ e, world.submitUnder i t answers = some (.error e, world)) ∧
    (¬ rejected →
      let results := (site.chain.inquire (t.predicatesFor messengerAddress)).resolve answers
      let x := site.chain.execute t t.price results
      ∃ world' site', world.submitUnder i t answers = some (.ok t.hash, world') ∧
        world'.sites[i]? = some site' ∧ site.Advances site' t x ∧
        (x.successful = false ↔ ∃ e, site.chain.Fails t t.price results e) ∧
        ∀ e, site.chain.Fails t t.price results e →
          (site.chain.receiptFor t x).IsFailure t e ∧
          world' = { world with sites := world.sites.set i site' })
  := by
  intro i world done rejected
  obtain ⟨site, h⟩ := (ordered_start w config heightFault).run turns
  rw [List.nil_append] at h
  have hsite : world.sites[i]? = some site := h.site_eq
  have hgrown : Chain.Grown config done site.chain := h.grown
  have hlength : done.length < 2 ^ 64 := hblocks
  have hnonce : t.nonce = site.chain.nonceOf t.sender
      ↔ t.nonce.toNat = (sentBy t.sender done).length := by
    rw [← UInt64.toNat_inj, hgrown.toNat_nonceOf hlength]
  have hadmitted (gas : Nat) : site.chain.admission t = .ok gas ↔ ¬ rejected ∧ gas = t.price := by
    rw [Chain.admission_eq_ok_iff, hnonce, hgrown.config_eq]
    simp only [rejected, not_or, not_not, Nat.not_lt, and_assoc]
    tauto
  use site, hsite
  rw [World.submitUnder_eq hsite]
  constructor
  · intro hrejected
    cases ha : site.chain.admission t with
    | error e => exact ⟨e, rfl⟩
    | ok gas => exact absurd hrejected ((hadmitted gas).mp ha).1
  · intro hfits results x
    rw [(hadmitted t.price).mpr ⟨hfits, rfl⟩]
    refine ⟨_, _, rfl, World.getElem?_sites_sealed hsite t x, site.advances_withBlock t x,
      Chain.successful_execute_eq_false_iff, ?_⟩
    intro e hfails
    have hfailure := hfails.isFailure_receiptFor
    exact ⟨hfailure, World.sealed_of_no_logs hsite hfailure.logs_eq⟩

/-- On a chain that sealed a transaction, the same transaction is refused.  A call of the same
account that reads a broken predicate, while no question about validators is answered, is sealed
as a failure. -/
theorem submitUnder_run_unanswered :
  let s : Sequencer Residue Residue := start {} .trial none
  let turns : List (Turn Residue) := [.send .trial, .enter 0, .answer 0 (History.directory {})]
  let world := (s.run 0 turns).1.world
  let silent : Directory Residue :=
    ⟨.error .timeout, fun _ => .error .timeout, fun _ _ => .error .timeout⟩
  let t : Transaction :=
    { Transaction.trial with
      nonce := 1
      recipient := messengerAddress
      data := (Abi.Function.readCall 0).encode }
  let e : ChainError := .invalidPredicate 0 (ChainError.message .timeout).text
  (s.run 0 turns).2.length < 2 ^ 64 ∧
  (∃ e, world.submitUnder 0 .trial (fun _ => silent) = some (.error e, world)) ∧
  ∃ site site' x, world.sites[0]? = some site ∧
    world.submitUnder 0 t (fun _ => silent)
      = some (.ok t.hash, { world with sites := world.sites.set 0 site' }) ∧
    site.Advances site' t x ∧ (site.chain.receiptFor t x).IsFailure t e
  := by
  intro s turns world silent t e
  have hlength : (s.run 0 turns).2.length = 1 := rfl
  have hblocks : (s.run 0 turns).2.length < 2 ^ 64 := by
    rw [hlength]
    norm_num
  refine ⟨hblocks, ?refused, ?failed⟩
  case refused =>
    obtain ⟨site, -, hrejected, -⟩ :=
      submitUnder_run {} .trial none turns hblocks .trial fun _ => silent
    apply hrejected (.inr (.inl _))
    exact Nat.zero_ne_one
  case failed =>
    obtain ⟨site, hsite, -, hfits⟩ :=
      submitUnder_run {} .trial none turns hblocks t fun _ => silent
    obtain ⟨world', site', hsubmit, hsite', hadvances, -, hfailed⟩ := hfits (by
      rintro (hchain | hnonce | hgas)
      · exact hchain rfl
      · exact hnonce rfl
      · exact absurd hgas (by decide))
    have hfails : site.chain.Fails t t.price [.error (.message .timeout)] e := by
      use rfl
      have hdata : t.data = (Abi.Function.readCall 0).encode ++ [] := (List.append_nil _).symm
      have hcharge : Gas.charge Gas.readBase (t.gas.toNat - t.price) = .ok () :=
        (Gas.charge_eq_ok_iff ..).mpr (by decide)
      rw [hdata, (site.chain.messenger.execute_encode_append ..).1, Messenger.readCall,
        Messenger.verified, hcharge]
      rfl
    cases hsite
    obtain ⟨hfailure, rfl⟩ := hfailed e hfails
    exact ⟨_, site', _, rfl, hsubmit, hadvances, hfailure⟩

/-! ### Turns of a call that is not interrupted -/

/-- The turns in which a call is answered so many questions, by some directories in turn. -/
def answersTo (call : Nat) (answers : Nat → Directory Key) (n : Nat) : List (Turn Key) :=
  (List.range n).map fun k => .answer call (answers k)

theorem answersTo_succ (call : Nat) (answers : Nat → Directory Key) (n : Nat) :
  answersTo call answers (n + 1)
    = .answer call (answers 0) :: answersTo call (fun k => answers (k + 1)) n
  := by
  rw [answersTo, List.range_succ_eq_map, List.map_cons, List.map_map]
  rfl

/-- A call whose transaction is not admitted is turned away when it begins to be served. -/
theorem step_enter_of_error {s : Sequencer Key Sig} {i call : Nat} {t : Transaction}
    {site : Site} {e : ChainError} (hserved : s.served = none)
    (hcall : s.calls[call]? = some ⟨t, .waiting⟩) (hsite : s.world.sites[i]? = some site)
    (ha : site.chain.admission t = .error e) :
  s.step i (.enter call)
    = ({ s with calls := s.calls.set call ⟨t, .returned (.error e)⟩ }, none)
  := by
  simp only [step, hserved, hcall, hsite, ha]

/-- Any other call goes on with what it has to ask. -/
theorem step_enter_of_ok {s : Sequencer Key Sig} {i call : Nat} {t : Transaction} {site : Site}
    {intrinsic : Nat} (hserved : s.served = none) (hcall : s.calls[call]? = some ⟨t, .waiting⟩)
    (hsite : s.world.sites[i]? = some site) (ha : site.chain.admission t = .ok intrinsic) :
  s.step i (.enter call)
    = s.proceed i call t intrinsic (site.chain.inquire (t.predicatesFor messengerAddress))
  := by
  simp only [step, hserved, hcall, hsite, ha]

/-- The state to which a call comes once some directories in turn have answered all that it
asks. -/
def Completes (i call : Nat) (answers : Nat → Directory Key) (s s' : Sequencer Key Sig) : Prop :=
  ∃ n, (s.run i (answersTo call answers n)).1 = s'

/-- A call that asks something goes on with the answer. -/
theorem Completes.of_asking {i call : Nat} {answers : Nat → Directory Key}
    {s s' : Sequencer Key Sig} {t : Transaction} {intrinsic : Nat}
    {q : Inquiry Key PredicateResults}
    (hcall : s.calls[call]? = some ⟨t, .asking intrinsic q⟩)
    (h : Completes i call (fun k => answers (k + 1))
      (s.proceed i call t intrinsic (q.answer (answers 0))).1 s') :
  Completes i call answers s s'
  := by
  obtain ⟨n, hn⟩ := h
  use n + 1
  rw [answersTo_succ, run_cons, step, hcall]
  exact hn

/-- A call that has a question to ask waits for the answer and goes on with it. -/
theorem Completes.of_asked {w w' : World Key Sig} {calls : List (Submission Key)}
    {served : Option Nat} {i call : Nat} {answers : Nat → Directory Key} {t : Transaction}
    {intrinsic : Nat} {q : Inquiry Key PredicateResults} {c : Submission Key}
    (hcall : call < calls.length)
    (hasked : proceed { world := w, calls, served } i call t intrinsic q
      = ({ world := w
           calls := calls.set call ⟨t, .asking intrinsic q⟩
           served := some call }, none))
    (h : Completes i call (fun k => answers (k + 1))
      (proceed { world := w
                 calls := calls.set call ⟨t, .asking intrinsic q⟩
                 served := some call } i call t intrinsic (q.answer (answers 0))).1
      { world := w', calls := (calls.set call ⟨t, .asking intrinsic q⟩).set call c }) :
  Completes i call answers (proceed { world := w, calls, served } i call t intrinsic q).1
    { world := w', calls := calls.set call c }
  := by
  rw [List.set_set] at h
  rw [hasked]
  apply Completes.of_asking _ h
  apply List.getElem?_set_self hcall

/-- A call that is answered all its questions has its transaction sealed as if the questions
were answered at once. -/
theorem completes_proceed {w : World Key Sig} {i : Nat} {site : Site}
    (hsite : w.sites[i]? = some site) {call : Nat} {t : Transaction} {intrinsic : Nat}
    (q : Inquiry Key PredicateResults) (answers : Nat → Directory Key)
    {calls : List (Submission Key)} (hcall : call < calls.length) (served : Option Nat) :
  Completes i call answers
    (proceed { world := w, calls, served } i call t intrinsic q).1
    { world := w.sealed i t (site.chain.execute t intrinsic (q.resolve answers))
      calls := calls.set call ⟨t, .returned (.ok t.hash)⟩ }
  := by
  induction q generalizing answers calls served with
  | done results =>
      use 0
      rw [proceed]
      simp only [hsite]
      rfl
  | height next ih =>
      apply Completes.of_asked hcall rfl
      apply ih
      rwa [List.length_set]
  | subnetOf chain next ih =>
      apply Completes.of_asked hcall rfl
      apply ih
      rwa [List.length_set]
  | snapshot height subnet next ih =>
      apply Completes.of_asked hcall rfl
      apply ih
      rwa [List.length_set]

/-- A call that is made and served while nothing else happens comes to what sending the
transaction at once comes to. -/
theorem run_uninterrupted {s : Sequencer Key Sig} {i : Nat} {site : Site}
    (hserved : s.served = none) (hsite : s.world.sites[i]? = some site) (t : Transaction)
    (answers : Nat → Directory Key) :
  ∃ n result world, s.world.submitUnder i t answers = some (result, world) ∧
    (s.run i (.send t :: .enter s.calls.length :: answersTo s.calls.length answers n)).1
      = { world, calls := s.calls ++ [⟨t, .returned result⟩] }
  := by
  let call := s.calls.length
  let calls := s.calls ++ [({ transaction := t } : Submission Key)]
  have hget : calls[call]? = some ⟨t, .waiting⟩ := List.getElem?_concat_length
  have hset (c : Submission Key) : calls.set call c = s.calls ++ [c] := by
    rw [List.set_append_right _ _ (Nat.le_refl _), Nat.sub_self]
    rfl
  have hcall : call < calls.length := by
    rw [List.length_append]
    exact Nat.lt_succ_self _
  rw [World.submitUnder_eq hsite]
  cases ha : site.chain.admission t with
  | error e =>
      refine ⟨0, .error e, s.world, rfl, ?_⟩
      have henter := step_enter_of_error (s := { s with calls }) hserved hget hsite ha
      rw [run_cons, run_cons, step, henter, ← hset ⟨t, .returned (.error e)⟩, ← hserved]
      rfl
  | ok intrinsic =>
      obtain ⟨n, hn⟩ := completes_proceed hsite
        (site.chain.inquire (t.predicatesFor messengerAddress)) answers hcall none
      refine ⟨n, .ok t.hash, _, rfl, ?_⟩
      have henter := step_enter_of_ok (s := { s with calls }) hserved hget hsite ha
      rw [run_cons, run_cons, step, henter, ← hset ⟨t, .returned (.ok t.hash)⟩]
      simp only [hserved]
      exact hn

end Sequencer

end Interchain
