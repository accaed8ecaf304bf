import Interchain.Ledger.Inquiry
import Interchain.Proofs.Checks
import Interchain.Simulation.Sequencer

/-!
# Questions answered by one directory

If one directory answers all questions, asking them one after another comes to the same as
reading the directory at once: `Chain.resolve_inquire` says so of the predicates of a
transaction, and `World.submit_eq_submitUnder` of sending it.
-/

namespace Interchain

namespace Inquiry

variable {Key α β : Type} (d : Directory Key)

/-- Questions asked with a result are answered after those for the result, by the directories
that come then. -/
theorem exists_resolve_bind (q : Inquiry Key α) (f : α → Inquiry Key β)
    (answers : Nat → Directory Key) :
  ∃ n, (q >>= f).resolve answers = (f (q.resolve answers)).resolve fun k => answers (k + n)
  := by
  show ∃ n, (q.bind f).resolve answers = _
  induction q generalizing answers with
  | done result => exact ⟨0, rfl⟩
  | height next ih =>
      obtain ⟨n, h⟩ := ih (answers 0).height fun k => answers (k + 1)
      exact ⟨n + 1, h⟩
  | subnetOf chain next ih =>
      obtain ⟨n, h⟩ := ih ((answers 0).subnetOf chain) fun k => answers (k + 1)
      exact ⟨n + 1, h⟩
  | snapshot height subnet next ih =>
      obtain ⟨n, h⟩ := ih ((answers 0).snapshot height subnet) fun k => answers (k + 1)
      exact ⟨n + 1, h⟩

theorem resolve_bind (q : Inquiry Key α) (f : α → Inquiry Key β) :
  (q >>= f).resolve (fun _ => d) = (f (q.resolve fun _ => d)).resolve fun _ => d
  := by
  obtain ⟨-, h⟩ := q.exists_resolve_bind f fun _ => d
  exact h

theorem resolve_map (q : Inquiry Key α) (f : α → β) :
  (f <$> q).resolve (fun _ => d) = f (q.resolve fun _ => d)
  := resolve_bind d q (fun a => done (f a))

/-- Questions asked in the steps of a loop are answered step by step. -/
theorem resolve_foldlM {f : β → α → Inquiry Key β} {g : β → α → β}
    (h : ∀ b a, (f b a).resolve (fun _ => d) = g b a) (xs : List α) (b : β) :
  (xs.foldlM f b).resolve (fun _ => d) = xs.foldl g b
  := by
  induction xs generalizing b with
  | nil => rfl
  | cons a xs ih => rw [List.foldlM_cons, resolve_bind, h, ih, List.foldl_cons]

end Inquiry

variable {Key Sig : Type} [AggregateScheme Key Sig] (d : Directory Key)

/-- The canonical set that is asked for is the one that the directory has. -/
theorem Directory.resolve_inquireSet (height : UInt64) (chain own : Id) :
  (inquireSet height chain own).resolve (fun _ => d) = d.sourceSet height chain own
  := by
  rw [inquireSet, sourceSet, Inquiry.resolve]
  cases d.subnetOf chain with
  | error e => rfl
  | ok source => rfl

namespace PredicateView

theorem resolve_inquireFor (own : Id) (v : PredicateView Key) (packed : Bytes) :
  (inquireFor own v packed).resolve (fun _ => d) = loadFor d own v packed
  := by
  rw [inquireFor, loadFor]
  cases Predicate.decode packed with
  | error e => rfl
  | ok m =>
      dsimp only
      split
      · rfl
      · rw [Inquiry.resolve_map, Directory.resolve_inquireSet]

/-- The view that is asked for is the one that is loaded. -/
theorem resolve_inquire (network : UInt32) (own : Id) (quorum : Quorum)
    (predicates : List Bytes) :
  (inquire network own quorum predicates).resolve (fun _ => d)
    = load d network own quorum predicates
  := by
  rw [inquire, load, Inquiry.resolve]
  cases d.height with
  | error e => rfl
  | ok height =>
      dsimp only
      rw [Inquiry.resolve_map, Inquiry.resolve_foldlM d (resolve_inquireFor d own)]
      rfl

end PredicateView

namespace Chain

/-- The results that are asked for are those that the predicates come to. -/
theorem resolve_inquire (c : Chain) (predicates : List Bytes) :
  (c.inquire predicates).resolve (fun _ => d) = c.checkPredicates d predicates
  := by
  rw [inquire, checkPredicates]
  by_cases hempty : predicates.isEmpty = true
  · rw [if_pos hempty, if_pos hempty]
    rfl
  · rw [if_neg hempty, if_neg hempty, Inquiry.resolve_bind, PredicateView.resolve_inquire]
    cases PredicateView.load d c.config.network c.config.subnet c.config.quorum predicates with
    | error e => rfl
    | ok view => rfl

theorem performUnder_const (c : Chain) (t : Transaction) :
  c.performUnder (fun _ => d) t = c.perform d t
  := by
  rw [performUnder, perform]
  simp only [resolve_inquire]

/-- A transaction is executed if it is admitted. -/
theorem performUnder_eq_ok_iff (c : Chain) (answers : Nat → Directory Key) (t : Transaction)
    (x : Execution) :
  c.performUnder answers t = .ok x
    ↔ ∃ intrinsic, c.admission t = .ok intrinsic ∧
        x = c.execute t intrinsic
          ((c.inquire (t.predicatesFor messengerAddress)).resolve answers)
  := by
  rw [performUnder, bind_eq_ok_iff]
  apply exists_congr
  intro intrinsic
  apply and_congr_right
  intro _
  constructor
  · intro h
    cases h
    rfl
  · rintro rfl
    rfl

end Chain

/-- A state that is changed and then read is the changed one. -/
theorem Action.run_modify_get {σ α : Type} (f : σ → σ) (k : σ → Action σ α) (w : σ) :
  (do modify f; let w ← get; k w : Action σ α).run w = (k (f w)).run (f w)
  := rfl

/-- Sending a transaction while nobody else does is the same as sending it with the questions
about validators answered by the directory of the chain. -/
theorem World.submit_eq_submitUnder {w : World Key Sig} {i : Nat} {s : Site}
    (hs : w.sites[i]? = some s) (t : Transaction) :
  let w' := w.onMoment Moment.step
  ((∃ e, (submit i t).run w = (.error e, w') ∧
      w'.submitUnder i t (fun _ => w'.directoryOf s) = some (.error e, w')) ∨
    ∃ x, (submit i t).run w = (.ok (some (s.chain.receiptFor t x)), w'.sealed i t x) ∧
      w'.submitUnder i t (fun _ => w'.directoryOf s) = some (.ok t.hash, w'.sealed i t x))
  := by
  intro w'
  have hs' : w'.sites[i]? = some s := hs
  rw [submit, Action.run_modify_get, submitUnder, hs']
  simp only [Option.bind_eq_bind, Option.bind_some, Chain.performUnder_const]
  cases s.chain.perform (w'.directoryOf s) t with
  | error e => exact .inl ⟨e, rfl, rfl⟩
  | ok x => exact .inr ⟨x, rfl, rfl⟩

end Interchain
