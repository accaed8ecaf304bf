import Interchain.Round.Aggregation
import Mathlib.Tactic.Use

/-!
# How rounds proceed

In a pass one answer is taken after another, `Round.Takes`, until the pass ends in one of four
ways, `Round.Ends`.  What every answer preserves holds when the pass ends,
`Round.collect_invariant`, and what every pass preserves holds between all of them,
`Round.Reaches.invariant`, and when the round ends, `Round.complete_invariant`.
-/

namespace Interchain.Round

variable {σ Key Sig : Type} [AggregateScheme Key Sig]

/-! ### The answers of a pass -/

/-- An answer is taken after which the pass goes on. -/
inductive Takes (s : Setting σ Key Sig) (f : FanOut σ Sig) (credit : Credit Sig)
    (retry : List Nat) : FanOut σ Sig → Credit Sig → List Nat → Prop
  /-- The validator signed, but its signature does not make up the quorum. -/
  | signed {flight : Flight Sig} {f' : FanOut σ Sig} {i : Nat} {sig : Sig} {credit' : Credit Sig}
      (hnext : s.schedule.next f = (some flight, f'))
      (hjudge : FanOut.judge s.set s.message flight = .signed i sig)
      (hadd : credit.add s.set i sig = .ok credit')
      (hreached : ¬ credit'.isReached s.set s.config.quorum = true) :
      Takes s f credit retry (f'.note s.set s.message flight) credit' retry
  /-- The validator may be asked again. -/
  | transient {flight : Flight Sig} {f' : FanOut σ Sig} {i : Nat} {e : MessageError}
      (hnext : s.schedule.next f = (some flight, f'))
      (hjudge : FanOut.judge s.set s.message flight = .transient i e) :
      Takes s f credit retry (f'.note s.set s.message flight) credit (retry ++ [i])
  /-- The validator is of no use. -/
  | rejected {flight : Flight Sig} {f' : FanOut σ Sig} {i : Nat} {e : MessageError}
      (hnext : s.schedule.next f = (some flight, f'))
      (hjudge : FanOut.judge s.set s.message flight = .rejected i e) :
      Takes s f credit retry (f'.note s.set s.message flight) credit retry

/-- An answer that is taken is the next one. -/
theorem Takes.exists_next {s : Setting σ Key Sig} {f f' : FanOut σ Sig}
    {credit credit' : Credit Sig} {retry retry' : List Nat}
    (h : Takes s f credit retry f' credit' retry') :
  ∃ flight g, s.schedule.next f = (some flight, g) ∧ f' = g.note s.set s.message flight
  := by
  cases h with
  | @signed flight g _ _ _ hnext => use flight, g, hnext
  | @transient flight g _ _ hnext => use flight, g, hnext
  | @rejected flight g _ _ hnext => use flight, g, hnext

/-- A pass ends when it has taken all answers but so many. -/
inductive Ends (s : Setting σ Key Sig) (f : FanOut σ Sig) (credit : Credit Sig)
    (retry : List Nat) : Nat → PassEnd × FanOut σ Sig × Credit Sig → Prop
  /-- All were answered. -/
  | completed : Ends s f credit retry 0 (.completed retry, f, credit)
  /-- No answer comes in time. -/
  | silent {n : Nat} {f' : FanOut σ Sig} (hnext : s.schedule.next f = (none, f')) :
      Ends s f credit retry (n + 1)
        (.final none, { f' with toMoment := s.expire f'.toMoment }, credit)
  /-- A signature makes up the quorum. -/
  | reached {n : Nat} {flight : Flight Sig} {f' : FanOut σ Sig} {i : Nat} {sig : Sig}
      {credit' : Credit Sig} (hnext : s.schedule.next f = (some flight, f'))
      (hjudge : FanOut.judge s.set s.message flight = .signed i sig)
      (hadd : credit.add s.set i sig = .ok credit')
      (hreached : credit'.isReached s.set s.config.quorum = true) :
      Ends s f credit retry (n + 1) (.final none, f'.note s.set s.message flight, credit')
  /-- The weight of a signature cannot be added. -/
  | overflowed {n : Nat} {flight : Flight Sig} {f' : FanOut σ Sig} {i : Nat} {sig : Sig}
      {e : MessageError} (hnext : s.schedule.next f = (some flight, f'))
      (hjudge : FanOut.judge s.set s.message flight = .signed i sig)
      (hadd : credit.add s.set i sig = .error e) :
      Ends s f credit retry (n + 1) (.final (some e), f'.note s.set s.message flight, credit)

/-- What holds at the start of a pass and is preserved by each answer holds when the pass
ends. -/
theorem collect_invariant (s : Setting σ Key Sig)
    {P : Nat → FanOut σ Sig → Credit Sig → List Nat → Prop}
    (hP : ∀ n f credit retry f' credit' retry', P (n + 1) f credit retry →
      Takes s f credit retry f' credit' retry' → P n f' credit' retry')
    (n : Nat) (f : FanOut σ Sig) (credit : Credit Sig) (retry : List Nat)
    (h : P n f credit retry) :
  ∃ m f' credit' retry', P m f' credit' retry' ∧
    Ends s f' credit' retry' m (collect s n f credit retry)
  := by
  induction n generalizing f credit retry with
  | zero => exact ⟨0, f, credit, retry, h, .completed⟩
  | succ n ih =>
      obtain ⟨answer, f', hnext⟩ : ∃ answer f', s.schedule.next f = (answer, f') := ⟨_, _, rfl⟩
      rw [collect, hnext]
      cases answer with
      | none => exact ⟨n + 1, f, credit, retry, h, .silent hnext⟩
      | some flight =>
          dsimp only
          cases hjudge : FanOut.judge s.set s.message flight with
          | signed i sig =>
              dsimp only
              cases hadd : credit.add s.set i sig with
              | error e => exact ⟨n + 1, f, credit, retry, h, .overflowed hnext hjudge hadd⟩
              | ok credit' =>
                  dsimp only
                  split
                  · next hreached =>
                    exact ⟨n + 1, f, credit, retry, h, .reached hnext hjudge hadd hreached⟩
                  · next hreached =>
                    apply ih
                    apply hP _ _ _ _ _ _ _ h (.signed hnext hjudge hadd hreached)
          | transient i e =>
              apply ih
              apply hP _ _ _ _ _ _ _ h (.transient hnext hjudge)
          | rejected i e =>
              apply ih
              apply hP _ _ _ _ _ _ _ h (.rejected hnext hjudge)

/-! ### The passes of a round -/

omit [AggregateScheme Key Sig] in
/-- The requests of a pass before the first of them is sent. -/
def toSend (s : Setting σ Key Sig) (r : Round σ Sig) : FanOut σ Sig :=
  { toMoment := r.toMoment, network := r.network, trace := r.trace, waiting := r.requests s }

omit [AggregateScheme Key Sig] in
/-- The round when all requests of a pass are answered, with those pending that were deferred
and those that may be asked again. -/
def whenAnswered (s : Setting σ Key Sig) (r : Round σ Sig) (f : FanOut σ Sig)
    (credit : Credit Sig) (retry : List Nat) : Round σ Sig :=
  r.afterPass s f credit ((r.deferred s ++ retry).mergeSort (· ≤ ·))

/-- After the last pass those that were pending still are. -/
theorem pass_of_final {s : Setting σ Key Sig} {r : Round σ Sig} {f : FanOut σ Sig}
    {credit : Credit Sig} {failure : Option MessageError}
    (hcollect : collect s (r.requests s).length (r.toSend s) r.credit []
      = (.final failure, f, credit)) :
  pass s r = (false, { r.afterPass s f credit r.pending with failure })
  := by
  rw [toSend] at hcollect
  rw [pass, hcollect]

/-- When all requests of a pass are answered, there may be a pause. -/
theorem pass_of_completed {s : Setting σ Key Sig} {r : Round σ Sig} {f : FanOut σ Sig}
    {credit : Credit Sig} {retry : List Nat}
    (hcollect : collect s (r.requests s).length (r.toSend s) r.credit []
      = (.completed retry, f, credit)) :
  pass s r = pause s (r.whenAnswered s f credit retry)
  := by
  rw [toSend] at hcollect
  rw [pass, hcollect]
  rfl

/-- A pass is the last one, or all its requests are answered and there may be a pause. -/
theorem pass_cases (s : Setting σ Key Sig) (r : Round σ Sig) :
  ∃ f credit,
    (∃ failure, collect s (r.requests s).length (r.toSend s) r.credit []
        = (.final failure, f, credit) ∧
      pass s r = (false, { r.afterPass s f credit r.pending with failure })) ∨
    ∃ retry, collect s (r.requests s).length (r.toSend s) r.credit []
        = (.completed retry, f, credit) ∧
      pass s r = pause s (r.whenAnswered s f credit retry)
  := by
  obtain ⟨passEnd, f, credit, hcollect⟩ : ∃ passEnd f credit,
      collect s (r.requests s).length (r.toSend s) r.credit [] = (passEnd, f, credit) :=
    ⟨_, _, _, rfl⟩
  use f, credit
  cases passEnd with
  | final failure =>
      left
      use failure, hcollect
      apply pass_of_final hcollect
  | completed retry =>
      right
      use retry, hcollect
      apply pass_of_completed hcollect

omit [AggregateScheme Key Sig] in
/-- A pause changes nothing but the moment. -/
theorem exists_pause_eq (s : Setting σ Key Sig) (r : Round σ Sig) :
  ∃ moment, (pause s r).2 = { r with toMoment := moment }
  := by
  rw [pause]
  split
  · use r.toMoment
  · split
    · use s.expire r.toMoment
    · use r.sleep s.config.retryDelay

/-- A round is over, or it goes on as one more pass says. -/
theorem complete_eq (s : Setting σ Key Sig) (r : Round σ Sig) :
  complete s r
    = if r.isOver s then r
      else if (pass s r).1 then complete s (pass s r).2 else (pass s r).2
  := by
  rw [complete]
  split
  · rfl
  · split
    · next h => rw [h, if_pos rfl]
    · next h => rw [h, if_neg Bool.false_ne_true]

/-- What holds when a round starts and is preserved by each pass but the last, and what then
holds when the round ends. -/
theorem complete_invariant (s : Setting σ Key Sig) {P Q : Round σ Sig → Prop}
    (hover : ∀ r, P r → r.isOver s = true → Q r)
    (hmore : ∀ r, P r → ¬ r.isOver s = true → (pass s r).1 = true → P (pass s r).2)
    (hlast : ∀ r, P r → ¬ r.isOver s = true → (pass s r).1 = false → Q (pass s r).2)
    {r : Round σ Sig} (h : P r) :
  Q (complete s r)
  := by
  induction r using complete.induct s with
  | case1 r hr =>
      rw [complete_eq, if_pos hr]
      apply hover r h hr
  | case2 r hr r' hpass ih =>
      have hmore := hmore r h hr
      rw [hpass] at hmore
      rw [complete_eq, if_neg hr, hpass]
      apply ih (hmore rfl)
  | case3 r hr r' hpass =>
      have hlast := hlast r h hr
      rw [hpass] at hlast
      rw [complete_eq, if_neg hr, hpass]
      apply hlast rfl

/-- The rounds between the passes of a round. -/
inductive Reaches (s : Setting σ Key Sig) (r : Round σ Sig) : Round σ Sig → Prop
  | start : Reaches s r r
  | pass {q : Round σ Sig} (h : Reaches s r q) (hover : ¬ q.isOver s = true)
      (hmore : (pass s q).1 = true) : Reaches s r (pass s q).2

/-- What holds when a round starts and is preserved by each pass but the last holds between
all passes. -/
theorem Reaches.invariant {s : Setting σ Key Sig} {P : Round σ Sig → Prop}
    (hmore : ∀ r, P r → ¬ r.isOver s = true → (Round.pass s r).1 = true → P (Round.pass s r).2)
    {r q : Round σ Sig} (hr : Reaches s r q) (h : P r) :
  P q
  := by
  induction hr with
  | start => apply h
  | pass _ hover hpass ih => apply hmore _ ih hover hpass

/-- A round ends as it does from between any of its passes. -/
theorem Reaches.complete_eq {s : Setting σ Key Sig} {r q : Round σ Sig} (h : Reaches s r q) :
  complete s r = complete s q
  := by
  induction h with
  | start => rfl
  | pass _ hover hmore ih =>
      rw [ih, Round.complete_eq, if_neg hover, if_pos hmore]

end Interchain.Round
