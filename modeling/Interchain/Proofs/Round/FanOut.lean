import Interchain.Round.Schedule
import Mathlib.Data.List.Basic

/-!
# Open requests

A request is open while it waits to be sent and while it is under way.
`FanOut.Proceeds.openRequests_perm` says that an answer is one to an open request, which it
closes, and that all others stay open, in whatever order the answers come.
`FanOut.Proceeds.filterMap_trace` says that nothing but requests is added to what has happened
meanwhile.
-/

namespace Interchain.FanOut

variable {σ Key Sig : Type}

/-- The requests that are still to be answered. -/
def openRequests (f : FanOut σ Sig) : List Request := f.waiting ++ f.flying.map (·.request)

/-- A request under way is open along with the others. -/
theorem openRequests_perm {f : FanOut σ Sig} {before after : List (Flight Sig)}
    {flight : Flight Sig} (hflying : f.flying = before ++ flight :: after) :
  f.openRequests.Perm (flight.request :: { f with flying := before ++ after }.openRequests)
  := by
  rw [openRequests, openRequests, hflying, List.map_append, List.map_append, List.map_cons,
    ← List.append_assoc, ← List.append_assoc]
  apply List.perm_middle

/-- The request that is answered is one of those under way, and the others stay under way. -/
theorem Comes.exists_flying {limit : Nat} {deadline : Option Nat} {f f' : FanOut σ Sig}
    {flight : Flight Sig} (h : Comes limit deadline f flight f') :
  ∃ before after moment, f.flying = before ++ flight :: after ∧
    f' = { f with toMoment := moment, flying := before ++ after }
  := by
  cases h with
  | now hflying => exact ⟨_, _, _, hflying, rfl⟩
  | later hflying => exact ⟨_, _, _, hflying, rfl⟩

section Launch

variable (net : Network σ Sig) (set : ValidatorSet Key) (message : Message)

/-- A request for a validator of the set goes to its node, and is recorded. -/
theorem sendFirst_eq {r : Request} (hr : r.index < set.validators.length) (rest : List Request)
    (f : FanOut σ Sig) :
  sendFirst net set message r rest f
    = let reply := net.ask f.now r.node message f.network
      { f with
        network := reply.2
        trace := .asked f.now r :: f.trace
        waiting := rest
        flying := f.flying ++ [⟨r, reply.1.delay.map f.after, reply.1.answer⟩] }
  := by
  rw [sendFirst, launch, if_pos hr]

/-- A request that is sent is under way after the others. -/
theorem flying_sendFirst (r : Request) (rest : List Request) (f : FanOut σ Sig) :
  (sendFirst net set message r rest f).flying.map (·.request)
    = f.flying.map (·.request) ++ [r]
  := by
  rw [sendFirst, List.map_append, List.map_singleton, (launch_eq net set message r f).1]

/-- A request that is sent stays open. -/
theorem openRequests_sendFirst {r : Request} {rest : List Request} {f : FanOut σ Sig}
    (hwaiting : f.waiting = r :: rest) :
  f.openRequests.Perm (sendFirst net set message r rest f).openRequests
  := by
  have hrest : (sendFirst net set message r rest f).waiting = rest := rfl
  rw [openRequests, openRequests, flying_sendFirst, hrest, hwaiting, ← List.append_assoc]
  apply (List.perm_append_singleton r _).symm

/-- A request that is sent is all that is recorded. -/
theorem filterMap_trace_sendFirst {α : Type} {g : Event Sig → Option α}
    (hg : ∀ time request, g (.asked time request) = none) (r : Request) (rest : List Request)
    (f : FanOut σ Sig) :
  (sendFirst net set message r rest f).trace.filterMap g = f.trace.filterMap g
  := by
  rw [sendFirst, launch]
  split
  · apply List.filterMap_cons_none (hg _ _)
  · rfl

end Launch

variable {net : Network σ Sig} {set : ValidatorSet Key} {message : Message} {limit : Nat}

/-! ### What is sent -/

/-- Requests that are sent stay open. -/
theorem Sends.openRequests_perm {f g : FanOut σ Sig} (h : Sends net set message limit f g) :
  f.openRequests.Perm g.openRequests
  := by
  induction h with
  | done f => apply List.Perm.refl
  | first hwaiting _ _ ih => apply (openRequests_sendFirst net set message hwaiting).trans ih

/-- Requests that are sent are all that is recorded. -/
theorem Sends.filterMap_trace {α : Type} {p : Event Sig → Option α}
    (hp : ∀ time request, p (.asked time request) = none) {f g : FanOut σ Sig}
    (h : Sends net set message limit f g) :
  g.trace.filterMap p = f.trace.filterMap p
  := by
  induction h with
  | done f => rfl
  | first _ _ _ ih =>
      rw [ih]
      apply filterMap_trace_sendFirst net set message hp

/-! ### What is answered -/

variable {deadline : Option Nat} {f f' : FanOut σ Sig}

/-- The next answer is to one of the open requests, and the others stay open. -/
theorem Proceeds.openRequests_perm {flight : Flight Sig}
    (h : Proceeds net set message limit deadline f (some flight, f')) :
  f.openRequests.Perm (flight.request :: f'.openRequests)
  := by
  cases h with
  | comes hsends hcomes =>
      obtain ⟨before, after, moment, hflying, rfl⟩ := hcomes.exists_flying
      apply hsends.openRequests_perm.trans (FanOut.openRequests_perm hflying)

/-- Until the next answer, nothing but requests is recorded. -/
theorem Proceeds.filterMap_trace {α : Type} {p : Event Sig → Option α}
    (hp : ∀ time request, p (.asked time request) = none) {answer : Option (Flight Sig)}
    (h : Proceeds net set message limit deadline f (answer, f')) :
  f'.trace.filterMap p = f.trace.filterMap p
  := by
  cases h with
  | silent hsends => apply hsends.filterMap_trace hp
  | comes hsends hcomes =>
      obtain ⟨_, _, _, -, rfl⟩ := hcomes.exists_flying
      apply hsends.filterMap_trace hp

end Interchain.FanOut
