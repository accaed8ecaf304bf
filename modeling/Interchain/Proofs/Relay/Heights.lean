import Interchain.Proofs.Relay.Submission
import Mathlib.Logic.Relation

/-!
# Waiting for heights

A relayer that waits for a height polls one client after another, each until it has reached the
height or the time is up for all of them, and pauses before it polls a client again
(`RelayConfig.Awaits`, `RelayConfig.AwaitsAll`).  `RelayConfig.awaitHeights_decides` says what it
comes to with clients whose heights never decrease: it is done after so many polls, and it fails
only if it polled a client too late that had not reached the height.
-/

namespace Interchain

variable {σ ι : Type}

/-- What a client that was asked for its height answered, and when. -/
structure Poll (ι : Type) where
  client : ι
  time : Nat
  answer : Except ChainError UInt64

namespace RelayConfig

/-! ### Polls and pauses -/

section Waits

variable (c : RelayConfig) (clock : Clock σ) (access : ι → ChainAccess σ)

/-- A client is asked for its height, or a pause goes by. -/
inductive Moves (clients : List ι) (s : σ) : σ → Prop
  | poll {client : ι} (h : client ∈ clients) : Moves clients s ((access client).height.run s).2
  | pause : Moves clients s (clock.sleep c.pollInterval s)

/-- Polls and pauses lead from one state to another. -/
def LeadsTo (clients : List ι) : σ → σ → Prop :=
  Relation.ReflTransGen (c.Moves clock access clients)

/-- A client is polled until it has reached the height, the time is up or it fails, with a pause
after every other poll. -/
inductive Awaits (height : UInt64) (deadline : Nat) (client : ι) :
    σ → List (Poll ι) → Except ChainError Unit → σ → Prop
  | reached {s s' : σ} {current : UInt64}
      (hpoll : (access client).height.run s = (.ok current, s')) (hheight : height ≤ current) :
      Awaits height deadline client s [⟨client, clock.now s', .ok current⟩] (.ok ()) s'
  | late {s s' : σ} {current : UInt64}
      (hpoll : (access client).height.run s = (.ok current, s')) (hlow : current < height)
      (hlate : deadline ≤ clock.now s') :
      Awaits height deadline client s [⟨client, clock.now s', .ok current⟩]
        (.error (.timeout .heights)) s'
  | failed {s s' : σ} {e : ChainError}
      (hpoll : (access client).height.run s = (.error e, s')) :
      Awaits height deadline client s [⟨client, clock.now s', .error e⟩] (.error e) s'
  | again {s s' s'' : σ} {current : UInt64} {polls : List (Poll ι)} {o : Except ChainError Unit}
      (hpoll : (access client).height.run s = (.ok current, s')) (hlow : current < height)
      (hearly : clock.now s' < deadline)
      (h : Awaits height deadline client (clock.sleep c.pollInterval s') polls o s'') :
      Awaits height deadline client s (⟨client, clock.now s', .ok current⟩ :: polls) o s''

/-- All clients are polled one after another until one of them is given up. -/
inductive AwaitsAll (height : UInt64) (deadline : Nat) :
    List ι → σ → List (Poll ι) → Except ChainError Unit → σ → Prop
  | done {s : σ} : AwaitsAll height deadline [] s [] (.ok ()) s
  | next {client : ι} {clients : List ι} {s s' s'' : σ} {polls polls' : List (Poll ι)}
      {o : Except ChainError Unit}
      (h : c.Awaits clock access height deadline client s polls (.ok ()) s')
      (hrest : AwaitsAll height deadline clients s' polls' o s'') :
      AwaitsAll height deadline (client :: clients) s (polls ++ polls') o s''
  | givenUp {client : ι} {clients : List ι} {s s' : σ} {polls : List (Poll ι)} {e : ChainError}
      (h : c.Awaits clock access height deadline client s polls (.error e) s') :
      AwaitsAll height deadline (client :: clients) s polls (.error e) s'

/-- How long a pause between two polls takes. -/
def pauseLength : Nat := min c.pollInterval Moment.longestPause

/-- From a state on clients have heights, which they report when they answer and which never
decrease, time does not go back, and a pause takes its time. -/
structure Steady (clients : List ι) (level : ι → σ → UInt64) (s₀ : σ) : Prop where
  reports : ∀ {s s' : σ}, c.LeadsTo clock access clients s₀ s → ∀ client ∈ clients, ∀ {h : UInt64},
    (access client).height.run s = (.ok h, s') → level client s' = h
  rises : ∀ {s s' : σ}, c.LeadsTo clock access clients s₀ s → c.Moves clock access clients s s' →
    ∀ client ∈ clients, level client s ≤ level client s'
  now_le : ∀ {s s' : σ}, c.LeadsTo clock access clients s₀ s → c.Moves clock access clients s s' →
    clock.now s ≤ clock.now s'
  pauses : ∀ {s : σ}, c.LeadsTo clock access clients s₀ s →
    clock.now s + c.pauseLength ≤ clock.now (clock.sleep c.pollInterval s)

/-- A client reaches a height by the deadline: from some time until then on it reports no lower
height whenever it is asked. -/
def ReachesBy (clients : List ι) (s₀ : σ) (height : UInt64) (deadline : Nat) (client : ι) : Prop :=
  ∃ time, time ≤ deadline ∧ ∀ s s' current, c.LeadsTo clock access clients s₀ s →
    (access client).height.run s = (.ok current, s') → time ≤ clock.now s' → height ≤ current

/-- A client is given up after a poll because it failed, or because the time is up and it is below
the height, which it did not reach by the deadline. -/
inductive GivesUp (clients : List ι) (level : ι → σ → UInt64) (s₀ : σ) (height : UInt64)
    (deadline : Nat) (client : ι) (s : σ) : Poll ι → ChainError → Prop
  | failed {e : ChainError} :
      GivesUp clients level s₀ height deadline client s ⟨client, clock.now s, .error e⟩ e
  | late (hlate : deadline ≤ clock.now s) (hlow : level client s < height)
      (hmissed : ¬ c.ReachesBy clock access clients s₀ height deadline client) :
      GivesUp clients level s₀ height deadline client s
        ⟨client, clock.now s, .ok (level client s)⟩ (.timeout .heights)

end Waits

variable {c : RelayConfig} {clock : Clock σ} {access : ι → ChainAccess σ}
variable {clients : List ι} {level : ι → σ → UInt64} {s₀ s s' : σ}
variable {height current : UInt64} {deadline n : Nat} {client : ι}
variable {polls : List (Poll ι)} {o : Except ChainError Unit}

/-! ### One client -/

section Poll

variable {chain : ChainAccess σ}

theorem awaitHeight_of_reached (hpoll : chain.height.run s = (.ok current, s'))
    (hheight : height ≤ current) :
  (c.awaitHeight clock chain height deadline (n + 1)).run s = (.ok (), s')
  := by
  rw [awaitHeight, Action.run_bind_of_ok hpoll, if_pos hheight]
  rfl

theorem awaitHeight_of_failed {e : ChainError} (hpoll : chain.height.run s = (.error e, s')) :
  (c.awaitHeight clock chain height deadline (n + 1)).run s = (.error e, s')
  := by
  rw [awaitHeight, Action.run_bind_of_error hpoll]

theorem awaitHeight_of_late (hpoll : chain.height.run s = (.ok current, s'))
    (hlow : current < height) (hlate : deadline ≤ clock.now s') :
  (c.awaitHeight clock chain height deadline (n + 1)).run s = (.error (.timeout .heights), s')
  := by
  rw [awaitHeight, Action.run_bind_of_ok hpoll, if_neg (UInt64.not_le.mpr hlow),
    Action.run_get_bind, if_pos hlate]
  rfl

theorem awaitHeight_of_again (hpoll : chain.height.run s = (.ok current, s'))
    (hlow : current < height) (hearly : clock.now s' < deadline) :
  (c.awaitHeight clock chain height deadline (n + 1)).run s
    = (c.awaitHeight clock chain height deadline n).run (clock.sleep c.pollInterval s')
  := by
  rw [awaitHeight, Action.run_bind_of_ok hpoll, if_neg (UInt64.not_le.mpr hlow),
    Action.run_get_bind, if_neg (Nat.not_le.mpr hearly)]
  rfl

end Poll

/-- The pauses that may still begin before the deadline. -/
def pausesLeft (c : RelayConfig) (deadline now : Nat) : Nat :=
  (deadline - now + c.pauseLength - 1) / c.pauseLength

theorem pauseLength_pos (hinterval : 0 < c.pollInterval) :
  0 < c.pauseLength
  := by
  apply Nat.lt_min.mpr
  use hinterval
  decide

/-- Time that goes by leaves no more pauses. -/
theorem pausesLeft_le (c : RelayConfig) (deadline : Nat) {now now' : Nat} (h : now ≤ now') :
  c.pausesLeft deadline now' ≤ c.pausesLeft deadline now
  := by
  apply Nat.div_le_div_right
  omega

/-- After a pause that began before the deadline fewer are left. -/
theorem pausesLeft_lt {now now' : Nat} (hinterval : 0 < c.pollInterval) (hearly : now < deadline)
    (hpause : now + c.pauseLength ≤ now') :
  c.pausesLeft deadline now' < c.pausesLeft deadline now
  := by
  have hpos := pauseLength_pos hinterval
  by_cases hlate : deadline ≤ now'
  · have hnone : c.pausesLeft deadline now' = 0 := by
      apply Nat.div_eq_of_lt
      omega
    rw [hnone]
    apply Nat.div_pos _ hpos
    omega
  · apply Nat.lt_of_succ_le
    rw [pausesLeft, pausesLeft, Nat.succ_eq_add_one, ← Nat.add_div_right _ hpos]
    apply Nat.div_le_div_right
    omega

namespace Steady

theorem rises_of_leadsTo (h : c.Steady clock access clients level s₀)
    (hs : c.LeadsTo clock access clients s₀ s) (hs' : c.LeadsTo clock access clients s s')
    (hclient : client ∈ clients) :
  level client s ≤ level client s'
  := by
  induction hs' with
  | refl => apply UInt64.le_refl
  | tail hs' hmoves ih => apply UInt64.le_trans ih (h.rises (hs.trans hs') hmoves client hclient)

theorem now_le_of_leadsTo (h : c.Steady clock access clients level s₀)
    (hs : c.LeadsTo clock access clients s₀ s) :
  clock.now s₀ ≤ clock.now s
  := by
  induction hs with
  | refl => apply Nat.le_refl
  | tail hs hmoves ih => apply Nat.le_trans ih (h.now_le hs hmoves)

end Steady

/-- A poll leads to the state that it leaves. -/
theorem leadsTo_of_poll {answer : Except ChainError UInt64}
    (hs : c.LeadsTo clock access clients s₀ s) (hclient : client ∈ clients)
    (hpoll : (access client).height.run s = (answer, s')) :
  c.Moves clock access clients s s' ∧ c.LeadsTo clock access clients s₀ s'
  := by
  have hmoves : c.Moves clock access clients s ((access client).height.run s).2 := .poll hclient
  rw [hpoll] at hmoves
  use hmoves
  apply Relation.ReflTransGen.tail hs hmoves

/-- A pause leads to the state that it leaves. -/
theorem leadsTo_sleep (hs : c.LeadsTo clock access clients s₀ s) :
  c.LeadsTo clock access clients s₀ (clock.sleep c.pollInterval s)
  := Relation.ReflTransGen.tail hs .pause

/-- Waiting for a client that may be polled once more often than pauses are left comes to an
end. -/
theorem exists_awaits (height : UInt64) (hinterval : 0 < c.pollInterval)
    (hsteady : c.Steady clock access clients level s₀) (hclient : client ∈ clients)
    (hs : c.LeadsTo clock access clients s₀ s) (hn : c.pausesLeft deadline (clock.now s) < n) :
  ∃ polls o s', (c.awaitHeight clock (access client) height deadline n).run s = (o, s') ∧
    c.Awaits clock access height deadline client s polls o s'
  := by
  induction n generalizing s with
  | zero => cases hn
  | succ n ih =>
      rcases hpoll : (access client).height.run s with ⟨e | current, s₁⟩
      · exact ⟨_, _, _, awaitHeight_of_failed hpoll, .failed hpoll⟩
      by_cases hheight : height ≤ current
      · exact ⟨_, _, _, awaitHeight_of_reached hpoll hheight, .reached hpoll hheight⟩
      rw [UInt64.not_le] at hheight
      by_cases hlate : deadline ≤ clock.now s₁
      · exact ⟨_, _, _, awaitHeight_of_late hpoll hheight hlate, .late hpoll hheight hlate⟩
      rw [Nat.not_le] at hlate
      obtain ⟨hmoves, hs₁⟩ := leadsTo_of_poll hs hclient hpoll
      have hfewer := pausesLeft_lt hinterval hlate (hsteady.pauses hs₁)
      have hle := c.pausesLeft_le deadline (hsteady.now_le hs hmoves)
      obtain ⟨polls, o, s', hrun, hawaits⟩ := ih (leadsTo_sleep hs₁) (by omega)
      rw [awaitHeight_of_again hpoll hheight hlate]
      exact ⟨_, o, s', hrun, .again hpoll hheight hlate hawaits⟩

namespace Awaits

/-- Waiting for a client leads from one state to another. -/
theorem leadsTo (h : c.Awaits clock access height deadline client s polls o s')
    (hclient : client ∈ clients) (hs : c.LeadsTo clock access clients s₀ s) :
  c.LeadsTo clock access clients s₀ s'
  := by
  induction h with
  | reached hpoll _ => apply (leadsTo_of_poll hs hclient hpoll).2
  | late hpoll _ _ => apply (leadsTo_of_poll hs hclient hpoll).2
  | failed hpoll => apply (leadsTo_of_poll hs hclient hpoll).2
  | again hpoll _ _ _ ih => apply ih (leadsTo_sleep (leadsTo_of_poll hs hclient hpoll).2)

/-- Every poll but one is followed by a pause that was left. -/
theorem length_le (h : c.Awaits clock access height deadline client s polls o s')
    (hinterval : 0 < c.pollInterval) (hsteady : c.Steady clock access clients level s₀)
    (hclient : client ∈ clients) (hs : c.LeadsTo clock access clients s₀ s) :
  polls.length + c.pausesLeft deadline (clock.now s')
    ≤ c.pausesLeft deadline (clock.now s) + 1
  := by
  have honce {s s' : σ} {answer : Except ChainError UInt64}
      (hpoll : (access client).height.run s = (answer, s'))
      (hs : c.LeadsTo clock access clients s₀ s) :
      c.pausesLeft deadline (clock.now s') ≤ c.pausesLeft deadline (clock.now s) :=
    c.pausesLeft_le deadline (hsteady.now_le hs (leadsTo_of_poll hs hclient hpoll).1)
  induction h with
  | reached hpoll _ =>
      have hle := honce hpoll hs
      rw [List.length_singleton]
      omega
  | late hpoll _ _ =>
      have hle := honce hpoll hs
      rw [List.length_singleton]
      omega
  | failed hpoll =>
      have hle := honce hpoll hs
      rw [List.length_singleton]
      omega
  | again hpoll _ hearly _ ih =>
      have hle := honce hpoll hs
      have hs' := (leadsTo_of_poll hs hclient hpoll).2
      have hfewer := pausesLeft_lt hinterval hearly (hsteady.pauses hs')
      have hrest := ih (leadsTo_sleep hs')
      rw [List.length_cons]
      omega

/-- A client that was waited for with success is at the height. -/
theorem level_of_ok (h : c.Awaits clock access height deadline client s polls (.ok ()) s')
    (hsteady : c.Steady clock access clients level s₀) (hclient : client ∈ clients)
    (hs : c.LeadsTo clock access clients s₀ s) :
  height ≤ level client s'
  := by
  generalize ho : (Except.ok () : Except ChainError Unit) = o at h
  induction h with
  | reached hpoll hheight =>
      rw [hsteady.reports hs client hclient hpoll]
      apply hheight
  | late => cases ho
  | failed => cases ho
  | again hpoll _ _ _ ih => apply ih (leadsTo_sleep (leadsTo_of_poll hs hclient hpoll).2) ho

end Awaits

/-- A client that reports a lower height when the time is up did not reach the height by the
deadline. -/
theorem not_reachesBy (hs : c.LeadsTo clock access clients s₀ s)
    (hpoll : (access client).height.run s = (.ok current, s')) (hlow : current < height)
    (hlate : deadline ≤ clock.now s') :
  ¬ c.ReachesBy clock access clients s₀ height deadline client
  := by
  rintro ⟨time, htime, hreaches⟩
  apply UInt64.not_le.mpr hlow
  apply hreaches s s' current hs hpoll (Nat.le_trans htime hlate)

/-- If waiting for a client fails, it is given up after the last poll. -/
theorem Awaits.givesUp {e : ChainError}
    (h : c.Awaits clock access height deadline client s polls (.error e) s')
    (hsteady : c.Steady clock access clients level s₀) (hclient : client ∈ clients)
    (hs : c.LeadsTo clock access clients s₀ s) :
  ∃ earlier last, polls = earlier ++ [last] ∧
    c.GivesUp clock access clients level s₀ height deadline client s' last e
  := by
  generalize ho : (Except.error e : Except ChainError Unit) = o at h
  induction h with
  | reached => cases ho
  | late hpoll hlow hlate =>
      cases ho
      have hmissed := not_reachesBy hs hpoll hlow hlate
      have hlevel := hsteady.reports hs client hclient hpoll
      rw [← hlevel] at hlow ⊢
      exact ⟨[], _, rfl, .late hlate hlow hmissed⟩
  | failed =>
      cases ho
      exact ⟨[], _, rfl, .failed⟩
  | again hpoll _ _ _ ih =>
      obtain ⟨earlier, last, hpolls, hgives⟩ :=
        ih (leadsTo_sleep (leadsTo_of_poll hs hclient hpoll).2) ho
      rw [hpolls]
      exact ⟨_ :: earlier, last, rfl, hgives⟩

/-! ### All clients -/

section All

variable {rest : List ι}

/-- Waiting for the rest of the clients one after another comes to an end. -/
theorem exists_awaitsAll (hinterval : 0 < c.pollInterval)
    (hsteady : c.Steady clock access clients level s₀) (hrest : rest ⊆ clients)
    (hs : c.LeadsTo clock access clients s₀ s)
    {f : ChainAccess σ → Unit → Action σ (ForInStep Unit)}
    (hf : ∀ chain s, ∃ n, c.pausesLeft deadline (clock.now s₀) < n ∧ (f chain ()).run s
      = (do c.awaitHeight clock chain height deadline n; return ForInStep.yield ()).run s) :
  ∃ polls o s', (forIn (rest.map access) () f).run s = (o, s') ∧
    c.AwaitsAll clock access height deadline rest s polls o s'
  := by
  induction rest generalizing s with
  | nil => exact ⟨_, _, _, rfl, .done⟩
  | cons client rest ih =>
      obtain ⟨hclient, hrest⟩ := List.cons_subset.mp hrest
      obtain ⟨n, hn, hround⟩ := hf (access client) s
      have hle := c.pausesLeft_le deadline (hsteady.now_le_of_leadsTo hs)
      obtain ⟨polls, o, s', hrun, hawaits⟩ := exists_awaits height hinterval hsteady hclient hs
        (Nat.lt_of_le_of_lt hle hn)
      rw [List.map_cons]
      cases o with
      | error e =>
          rw [Action.run_bind_of_error hrun] at hround
          exact ⟨polls, _, s', Action.run_forIn_cons_of_error hround, .givenUp hawaits⟩
      | ok =>
          rw [Action.run_bind_of_ok hrun] at hround
          obtain ⟨polls', o, s'', hrun', hawaits'⟩ := ih hrest (hawaits.leadsTo hclient hs)
          rw [Action.run_forIn_cons_of_yield hround]
          exact ⟨polls ++ polls', o, s'', hrun', .next hawaits hawaits'⟩

namespace AwaitsAll

/-- Waiting for clients leads from one state to another. -/
theorem leadsTo (h : c.AwaitsAll clock access height deadline rest s polls o s')
    (hrest : rest ⊆ clients) (hs : c.LeadsTo clock access clients s₀ s) :
  c.LeadsTo clock access clients s₀ s'
  := by
  induction h with
  | done => exact hs
  | next h _ ih =>
      obtain ⟨hclient, hrest⟩ := List.cons_subset.mp hrest
      apply ih hrest (h.leadsTo hclient hs)
  | givenUp h => apply h.leadsTo (List.cons_subset.mp hrest).1 hs

/-- There are no more polls than clients and pauses left. -/
theorem length_le (h : c.AwaitsAll clock access height deadline rest s polls o s')
    (hinterval : 0 < c.pollInterval) (hsteady : c.Steady clock access clients level s₀)
    (hrest : rest ⊆ clients) (hs : c.LeadsTo clock access clients s₀ s) :
  polls.length + c.pausesLeft deadline (clock.now s')
    ≤ c.pausesLeft deadline (clock.now s) + rest.length
  := by
  induction h with
  | done => apply Nat.le_of_eq (Nat.zero_add _)
  | next h _ ih =>
      obtain ⟨hclient, hrest⟩ := List.cons_subset.mp hrest
      have hfirst := h.length_le hinterval hsteady hclient hs
      have hothers := ih hrest (h.leadsTo hclient hs)
      rw [List.length_append, List.length_cons]
      omega
  | givenUp h =>
      have hfirst := h.length_le hinterval hsteady (List.cons_subset.mp hrest).1 hs
      rw [List.length_cons]
      omega

/-- A client that was waited for with success is still at the height when others were waited
for. -/
theorem level_of_awaits {s₁ : σ} {polls₁ : List (Poll ι)}
    (hothers : c.AwaitsAll clock access height deadline rest s₁ polls o s')
    (h : c.Awaits clock access height deadline client s polls₁ (.ok ()) s₁)
    (hsteady : c.Steady clock access clients level s₀) (hclient : client ∈ clients)
    (hrest : rest ⊆ clients) (hs : c.LeadsTo clock access clients s₀ s) :
  height ≤ level client s'
  := by
  apply UInt64.le_trans (h.level_of_ok hsteady hclient hs)
  apply hsteady.rises_of_leadsTo (h.leadsTo hclient hs) (hothers.leadsTo hrest .refl) hclient

/-- Clients that were waited for with success are at the height. -/
theorem level_of_ok (h : c.AwaitsAll clock access height deadline rest s polls (.ok ()) s')
    (hsteady : c.Steady clock access clients level s₀) (hrest : rest ⊆ clients)
    (hs : c.LeadsTo clock access clients s₀ s) :
  ∀ client ∈ rest, height ≤ level client s'
  := by
  generalize ho : (Except.ok () : Except ChainError Unit) = o at h
  induction h with
  | done => apply List.forall_mem_nil
  | next h hothers ih =>
      obtain ⟨hclient, hrest⟩ := List.cons_subset.mp hrest
      have hs' := h.leadsTo hclient hs
      rw [List.forall_mem_cons]
      constructor
      · apply hothers.level_of_awaits h hsteady hclient hrest hs
      · apply ih hrest hs' ho
  | givenUp => cases ho

/-- If waiting for clients fails, one of them is given up after the last poll, and those before it
are at the height. -/
theorem givesUp {e : ChainError}
    (h : c.AwaitsAll clock access height deadline rest s polls (.error e) s')
    (hsteady : c.Steady clock access clients level s₀) (hrest : rest ⊆ clients)
    (hs : c.LeadsTo clock access clients s₀ s) :
  ∃ before client after earlier last, rest = before ++ client :: after ∧
    polls = earlier ++ [last] ∧
    c.GivesUp clock access clients level s₀ height deadline client s' last e ∧
    ∀ other ∈ before, height ≤ level other s'
  := by
  generalize ho : (Except.error e : Except ChainError Unit) = o at h
  induction h with
  | done => cases ho
  | @next first _ _ _ _ polls _ _ h hothers ih =>
      obtain ⟨hclient, hrest⟩ := List.cons_subset.mp hrest
      have hs' := h.leadsTo hclient hs
      obtain ⟨before, culprit, after, earlier, last, hsplit, hpolls, hgives, hbefore⟩ :=
        ih hrest hs' ho
      refine ⟨first :: before, culprit, after, polls ++ earlier, last, ?_, ?_, hgives, ?_⟩
      · rw [hsplit, List.cons_append]
      · rw [hpolls, List.append_assoc]
      · rw [List.forall_mem_cons]
        constructor
        · apply hothers.level_of_awaits h hsteady hclient hrest hs
        · apply hbefore
  | givenUp h =>
      cases ho
      obtain ⟨earlier, last, hpolls, hgives⟩ :=
        h.givesUp hsteady (List.cons_subset.mp hrest).1 hs
      exact ⟨[], _, _, earlier, last, rfl, hpolls, hgives, List.forall_mem_nil _⟩

end AwaitsAll

end All

/-- Waiting for clients whose heights never decrease ends after no more polls than there are
clients and pauses that begin in time.  If it succeeds, all clients are at the height then.
Otherwise one of them is given up after the last poll, and those before it are at the height. -/
theorem awaitHeights_decides (c : RelayConfig) {clock : Clock σ} {access : ι → ChainAccess σ}
    {clients : List ι} {level : ι → σ → UInt64} {s : σ} (height : UInt64)
    (hinterval : 0 < c.pollInterval) (hsteady : c.Steady clock access clients level s) :
  let deadline := clock.now s + c.heightTimeout
  ∃ polls o s', (c.awaitHeights clock (clients.map access) height).run s = (o, s') ∧
    c.AwaitsAll clock access height deadline clients s polls o s' ∧
    polls.length ≤ clients.length + (c.heightTimeout + c.pauseLength - 1) / c.pauseLength ∧
    (o = .ok () → ∀ client ∈ clients, height ≤ level client s') ∧
    ∀ e, o = .error e → ∃ before client after earlier last,
      clients = before ++ client :: after ∧ polls = earlier ++ [last] ∧
      c.GivesUp clock access clients level s height deadline client s' last e ∧
      ∀ other ∈ before, height ≤ level other s'
  := by
  intro deadline
  have hpos := pauseLength_pos hinterval
  have hleft : c.pausesLeft deadline (clock.now s)
      = (c.heightTimeout + c.pauseLength - 1) / c.pauseLength := by
    rw [pausesLeft, Nat.add_sub_cancel_left]
  -- one more than the pauses that begin in time is enough for each client
  have hpauses : (c.heightTimeout + c.pauseLength - 1) / c.pauseLength
      ≤ c.heightTimeout / max 1 c.pauseLength + 1 := by
    rw [Nat.max_eq_right hpos, ← Nat.add_div_right _ hpos]
    apply Nat.div_le_div_right
    apply Nat.sub_le
  let pauses := c.heightTimeout / max 1 (min c.pollInterval Moment.longestPause) + 1
  let round (chain : ChainAccess σ) (_ : Unit) : Action σ (ForInStep Unit) := do
    let changes := chain.heightChanges (← get)
    c.awaitHeight clock chain height deadline (changes + pauses + 1)
    return .yield ()
  have hround (chain : ChainAccess σ) (s' : σ) : ∃ n, c.pausesLeft deadline (clock.now s) < n ∧
      (round chain ()).run s'
        = (do c.awaitHeight clock chain height deadline n; return ForInStep.yield ()).run s' := by
    use chain.heightChanges s' + pauses + 1
    constructor
    · rw [hleft]
      apply Nat.lt_succ_of_le
      apply Nat.le_trans hpauses (Nat.le_add_left _ _)
    · exact Action.run_get_bind (fun s => do
        c.awaitHeight clock chain height deadline (chain.heightChanges s + pauses + 1)
        return ForInStep.yield ()) s'
  obtain ⟨polls, o, s', hrun, hawaits⟩ := exists_awaitsAll hinterval hsteady
    (List.Subset.refl clients) .refl hround
  have hlength := hawaits.length_le hinterval hsteady (List.Subset.refl clients) .refl
  refine ⟨polls, o, s', ?_, hawaits, by omega, ?_, ?_⟩
  · rw [awaitHeights, Action.run_get_bind]
    cases o with
    | error e => apply Action.run_bind_of_error hrun
    | ok => apply Action.run_bind_of_ok hrun
  · rintro rfl
    apply hawaits.level_of_ok hsteady (List.Subset.refl clients) .refl
  · rintro e rfl
    apply hawaits.givesUp hsteady (List.Subset.refl clients) .refl

/-! ### Chains that others use -/

section Traffic

variable {Key Sig : Type}

/-- The number of the last block at a site. -/
def heightAt (w : World Key Sig) (i : Nat) : UInt64 :=
  match w.sites[i]? with
  | some site => site.chain.head.number
  | none => 0

/-- A chain that grew is as high as it was and has blocks since. -/
theorem heightAt_of_serves {w : World Key Sig} {k i : Nat} {origin site : Site}
    {done : List Sealing} (h : w.Serves k i origin done site)
    (hroom : origin.chain.head.number.toNat + done.length < 2 ^ 64) :
  (heightAt w i).toNat = origin.chain.head.number.toNat + done.length
  := by
  have hlength : done.length < 2 ^ 64 := by omega
  rw [heightAt, h.site_eq]
  dsimp only
  rw [h.grown.grown.number_head, UInt64.toNat_add, UInt64.toNat_ofNat', Nat.mod_eq_of_lt hlength,
    Nat.mod_eq_of_lt hroom]

variable [AggregateScheme Key Sig] {T : Traffic σ Key Sig} {config : ChainConfig}
variable {clients : List Nat}

/-- Polls and pauses let the chains grow. -/
theorem growsTo_of_leadsTo (hs : c.LeadsTo T.clock (T.access config) clients s s') :
  (T.world s).GrowsTo (T.world s')
  := by
  induction hs with
  | refl => apply World.GrowsTo.refl
  | tail hs hmoves ih =>
      apply ih.trans
      cases hmoves with
      | poll _ => apply (T.grows_access config _).height
      | pause => apply T.grows_sleep

/-- A poll finds the height of the chain when others have done something. -/
theorem height_access {k i : Nat} {s₁ site : Site} {done : List Sealing}
    {answer : Except ChainError UInt64} (hserves : (T.world s).Serves k i s₁ done site)
    (hpoll : (T.access config k).height.run s = (answer, s')) :
  T.world s' = T.world (T.others s) ∧ answer = .ok (heightAt (T.world s') i)
  := by
  obtain ⟨later, site', hserves'⟩ := hserves.of_growsTo (T.grows_others s)
  have hrun := T.eq_of_during_eq (x := fun _ => (World.height k).run) hpoll
  rw [World.height_eq hserves'.client_eq hserves'.site_eq] at hrun
  obtain ⟨hanswer, hworld⟩ := Prod.mk_inj.mp hrun
  use hworld.symm
  rw [← hworld, ← hanswer, heightAt, hserves'.site_eq]

/-- Clients that use chains directly may be waited for whatever others do with these chains
meanwhile, as long as blocks can be numbered and time does not go back. -/
theorem steady_access (c : RelayConfig) {place : Nat → Nat} {origin : Nat → Site}
    (hserves : ∀ k ∈ clients, (T.world s₀).Serves k (place k) (origin k) [] (origin k))
    (hroom : ∀ s, c.LeadsTo T.clock (T.access config) clients s₀ s → ∀ k ∈ clients, ∀ done site,
      (T.world s).Serves k (place k) (origin k) done site →
      (origin k).chain.head.number.toNat + done.length < 2 ^ 64)
    (hothers : ∀ s, (T.world s).now ≤ (T.world (T.others s)).now) :
  c.Steady T.clock (T.access config) clients (fun k s => heightAt (T.world s) (place k)) s₀
  := by
  have hgrown {s : σ} (hs : c.LeadsTo T.clock (T.access config) clients s₀ s) {k : Nat}
      (hk : k ∈ clients) :
      ∃ done site, (T.world s).Serves k (place k) (origin k) done site :=
    (hserves k hk).of_growsTo (growsTo_of_leadsTo hs)
  have hnow (s : σ) :
      (T.world s).now + c.pauseLength ≤ T.clock.now (T.clock.sleep c.pollInterval s) := by
    show _ ≤ (T.world (T.put _ _)).now
    rw [T.world_put]
    show _ ≤ ((T.world s).toMoment.waitUntil _).now
    rw [Moment.now_waitUntil]
    apply Nat.le_max_right
  constructor
  case reports =>
    intro s s' hs k hk height hpoll
    obtain ⟨done, site, hserves⟩ := hgrown hs hk
    obtain ⟨-, hanswer⟩ := height_access hserves hpoll
    apply (Except.ok.inj hanswer).symm
  case rises =>
    intro s s' hs hmoves k hk
    obtain ⟨done, site, hserves⟩ := hgrown hs hk
    obtain ⟨later, site', hserves'⟩ := hserves.of_growsTo (growsTo_of_leadsTo (.single hmoves))
    rw [UInt64.le_iff_toNat_le, heightAt_of_serves hserves (hroom s hs k hk _ _ hserves),
      heightAt_of_serves hserves' (hroom s' (hs.tail hmoves) k hk _ _ hserves'),
      List.length_append]
    omega
  case now_le =>
    intro s s' hs hmoves
    cases hmoves with
    | @poll k hk =>
        obtain ⟨done, site, hserves⟩ := hgrown hs hk
        rcases hpoll : (T.access config k).height.run s with ⟨answer, s'⟩
        obtain ⟨hworld, -⟩ := height_access hserves hpoll
        show (T.world s).now ≤ (T.world s').now
        rw [hworld]
        apply hothers
    | pause => apply Nat.le_trans (Nat.le_add_right _ _) (hnow s)
  case pauses =>
    intro s _
    apply hnow

end Traffic

/-! ### Blocks at given times -/

/-- The height that a client has at every time.  It never decreases. -/
structure Production where
  height : Nat → UInt64
  mono : ∀ {time time' : Nat}, time ≤ time' → height time ≤ height time'

/-- All blocks up to a height are produced at one time. -/
def Production.once (start : Nat) (height : UInt64) : Production where
  height time := if time < start then 0 else height
  mono := by
    intro time time' h
    by_cases hearly : time < start
    · rw [if_pos hearly]
      apply UInt64.zero_le
    · rw [if_neg hearly, if_neg (by omega)]
      apply UInt64.le_refl

/-- A client of which nothing can be asked but its height. -/
def scheduled (p : Production) : ChainAccess Nat where
  name := .zero
  number := 0
  subscribe := return 0
  nonceOf _ := throw .subscriptionClosed
  submit _ := throw .subscriptionClosed
  receive _ _ := return .closed
  backlog _ _ := 0
  receipt transaction := throw (.receiptNotFound transaction)
  logs _ _ := return []
  height := do return p.height (← get)
  heightChanges _ := 0

/-- The clock of a world in which nothing happens but that time goes by. -/
def virtualClock : Clock Nat where
  now time := time
  sleep d time := time + min d Moment.longestPause

/-- Whatever blocks are produced at what times, the clients may be waited for. -/
theorem steady_scheduled (c : RelayConfig) (clients : List Production) (start : Nat) :
  c.Steady virtualClock scheduled clients Production.height start
  := by
  have hnow {time time' : Nat} (h : c.Moves virtualClock scheduled clients time time') :
      time ≤ time' := by
    cases h with
    | poll _ => apply Nat.le_refl
    | pause => apply Nat.le_add_right
  constructor
  case reports =>
    intro time time' _ p _ height hpoll
    cases hpoll
    rfl
  case rises =>
    intro time time' _ hmoves p _
    apply p.mono (hnow hmoves)
  case now_le =>
    intro time time' _ hmoves
    apply hnow hmoves
  case pauses =>
    intro time _
    apply Nat.le_refl

/-- A client that has a height at the deadline reaches it by then. -/
theorem reachesBy_scheduled (c : RelayConfig) (clients : List Production) (start : Nat)
    {p : Production} (h : height ≤ p.height deadline) :
  c.ReachesBy virtualClock scheduled clients start height deadline p
  := by
  use deadline, Nat.le_refl _
  intro time time' current _ hpoll htime
  cases hpoll
  apply UInt64.le_trans h (p.mono htime)

/-- Of two clients the first one reaches the height just at the deadline, between two polls, and
the second one never does. -/
theorem awaitHeights_decides_scheduled :
  let c : RelayConfig := { heightTimeout := 120, pollInterval := 50 }
  let clients : List Production := [.once 120 5, .once 0 0]
  0 < c.pollInterval ∧ c.Steady virtualClock scheduled clients Production.height 0 ∧
  (c.awaitHeights virtualClock (clients.map scheduled) 5).run 0
    = (.error (.timeout .heights), 150) ∧
  c.ReachesBy virtualClock scheduled clients 0 5 120 (.once 120 5) ∧
  ∃ polls, polls.length ≤ 5 ∧
    c.AwaitsAll virtualClock scheduled 5 120 clients 0 polls (.error (.timeout .heights)) 150 ∧
    ∃ before client after earlier last,
      clients = before ++ client :: after ∧ polls = earlier ++ [last] ∧
      c.GivesUp virtualClock scheduled clients Production.height 0 5 120 client 150 last
        (.timeout .heights) ∧
      ∀ other ∈ before, 5 ≤ other.height 150
  := by
  intro c clients
  have hinterval : 0 < c.pollInterval := by decide
  have hsteady := steady_scheduled c clients 0
  have hrun : (c.awaitHeights virtualClock (clients.map scheduled) 5).run 0
      = (.error (.timeout .heights), 150) := by
    cbv
  have hreaches : c.ReachesBy virtualClock scheduled clients 0 5 120 (.once 120 5) := by
    apply reachesBy_scheduled
    decide
  have hbound : clients.length + (c.heightTimeout + c.pauseLength - 1) / c.pauseLength = 5 := by
    decide
  use hinterval, hsteady, hrun, hreaches
  obtain ⟨polls, o, s', hrun', hawaits, hlength, -, hfails⟩ :=
    awaitHeights_decides c 5 hinterval hsteady
  cases hrun.symm.trans hrun'
  rw [hbound] at hlength
  exact ⟨polls, hlength, hawaits, hfails _ rfl⟩

end RelayConfig

end Interchain
