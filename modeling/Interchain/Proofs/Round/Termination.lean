import Interchain.Proofs.Round.Discipline

/-!
# How rounds end

A pass sends requests, so that fewer may be made, or leaves fewer validators pending, and those
it leaves pending were pending before, none of them twice (`Round.Advances`).  So what decreases
with every pass bounds their number, and `Round.ends_after_passes` says that a round ends after
no more passes than there may be requests and there are validators.
-/

namespace Interchain.Round

variable {σ Key Sig : Type} [AggregateScheme Key Sig]
variable {s : Setting σ Key Sig}

/-! ### The number of passes -/

/-- A round ends as it does after so many passes: it is over, or a pass is the last, or it goes
on after one. -/
inductive EndsAfter (s : Setting σ Key Sig) : Nat → Round σ Sig → Round σ Sig → Prop
  | over {r : Round σ Sig} (hover : r.isOver s = true) : EndsAfter s 0 r r
  | last {r : Round σ Sig} (hover : ¬ r.isOver s = true) (hlast : (pass s r).1 = false) :
      EndsAfter s 1 r (pass s r).2
  | more {n : Nat} {r r' : Round σ Sig} (hover : ¬ r.isOver s = true)
      (hmore : (pass s r).1 = true) (h : EndsAfter s n (pass s r).2 r') : EndsAfter s (n + 1) r r'

omit [AggregateScheme Key Sig] in
/-- If a round is not over, somebody is pending and a request is left. -/
theorem exists_left {r : Round σ Sig} (hover : ¬ r.isOver s = true) :
  0 < r.pending.length ∧ r.attempts < s.budget
  := by
  rw [isOver, Bool.or_eq_true, List.isEmpty_iff, decide_eq_true_eq, not_or, Nat.not_le] at hover
  exact ⟨List.length_pos_iff.mpr hover.1, hover.2⟩

/-- There are no more passes than requests left and validators pending. -/
theorem ends_within_measure (s : Setting σ Key Sig) (r : Round σ Sig) :
  ∃ n, n ≤ r.measure s ∧ EndsAfter s n r (complete s r)
  := by
  induction r using complete.induct s with
  | case1 r hover =>
      use 0, Nat.zero_le _
      rw [complete_eq, if_pos hover]
      apply EndsAfter.over hover
  | case2 r hover r' hpass ih =>
      have hmore : (pass s r).1 = true := by rw [hpass]
      have hr' : r' = (pass s r).2 := by rw [hpass]
      rw [hr'] at ih
      obtain ⟨n, hn, hends⟩ := ih
      use n + 1
      constructor
      · apply Nat.lt_of_le_of_lt hn (pass_measure_lt s r hover hmore)
      · rw [complete_eq, if_neg hover, if_pos hmore]
        apply EndsAfter.more hover hmore hends
  | case3 r hover r' hpass =>
      have hlast : (pass s r).1 = false := by rw [hpass]
      use 1
      constructor
      · obtain ⟨hpending, -⟩ := exists_left hover
        rw [measure]
        omega
      · rw [complete_eq, if_neg hover, hlast, if_neg Bool.false_ne_true]
        apply EndsAfter.last hover hlast

/-! ### The requests of a pass -/

section Tended

variable {origin : σ} {past batch : List Request} {others : List Nat}
variable {f : FanOut σ Sig} {credit : Credit Sig}

/-- If fewer requests wait than the pass has, some were sent. -/
theorem Tended.requestsMade_ne (h : Tended s origin past batch others f credit)
    (hlt : f.waiting.length < batch.length) :
  requestsMade f.trace ≠ past
  := by
  intro heq
  obtain ⟨made, hmade, hbatch⟩ := h.made
  have hnil : made = [] := by
    rw [heq] at hmade
    exact List.append_right_eq_self.mp hmade.symm
  rw [← hbatch, hnil, List.nil_append] at hlt
  apply Nat.lt_irrefl _ hlt

omit [AggregateScheme Key Sig] in
/-- When no answer comes, fewer requests wait than were open, as at least one may be under way
at a time. -/
theorem length_waiting_of_silent {f' : FanOut σ Sig} (hnext : s.schedule.next f = (none, f'))
    (hopen : f.openRequests ≠ []) :
  f'.waiting.length < f.openRequests.length
  := by
  have hpos := List.length_pos_iff.mpr hopen
  have hproceeds := s.schedule.proceeds f
  rw [hnext] at hproceeds
  cases hproceeds with
  | silent hsends hsilent =>
      have hlength := hsends.openRequests_perm.length_eq
      rw [FanOut.openRequests, FanOut.openRequests, List.length_append, List.length_append,
        List.length_map, List.length_map] at hlength
      rw [FanOut.openRequests, List.length_append, List.length_map] at hpos ⊢
      rcases hsilent.full with hwaiting | hlimit
      · rw [hwaiting, List.length_nil]
        apply hpos
      · have hroom : 0 < f'.flying.length := Nat.lt_of_lt_of_le (by omega) hlimit
        omega

omit [AggregateScheme Key Sig] in
/-- When an answer comes, fewer requests wait than were open. -/
theorem length_waiting_of_answer {f' : FanOut σ Sig} {flight : Flight Sig}
    (hnext : s.schedule.next f = (some flight, f')) :
  f'.waiting.length < f.openRequests.length
  := by
  rw [(openRequests_next hnext).length_eq, List.length_cons, FanOut.openRequests,
    List.length_append]
  omega

/-- When an answer is taken, some requests were sent. -/
theorem Tended.requestsMade_note_ne (h : Tended s origin past batch others f credit)
    {f' : FanOut σ Sig} {flight : Flight Sig} (hnext : s.schedule.next f = (some flight, f'))
    (hle : f.openRequests.length ≤ batch.length) :
  requestsMade (f'.note s.set s.message flight).trace ≠ past
  := by
  obtain ⟨g, before, after, moment, hg, -, hf⟩ := h.next hnext
  have hlt := length_waiting_of_answer hnext
  have hmade : requestsMade (f'.note s.set s.message flight).trace = requestsMade g.trace := by
    rw [hf]
    rfl
  have hwaiting : f'.waiting = g.waiting := by rw [hf]
  rw [hmade]
  apply hg.requestsMade_ne
  rw [← hwaiting]
  omega

/-- However the answers come, some of the requests of a pass are sent if there are any. -/
theorem collect_requestsMade_ne (h : Tended s origin past batch others f credit)
    (hopen : f.openRequests.length = batch.length) (hbatch : batch ≠ []) :
  requestsMade (collect s f.openRequests.length f credit []).2.1.trace ≠ past
  := by
  obtain ⟨m, f', credit', retry', ⟨hm, hle, h'⟩, hends⟩ := collect_invariant s
    (P := fun n f credit retry => f.openRequests.length = n ∧ n ≤ batch.length ∧
      Tended s origin past batch (others ++ retry) f credit)
    (fun _ _ _ _ _ _ _ h ht =>
      ⟨Nat.succ.inj (ht.length_openRequests.symm.trans h.1), Nat.le_of_succ_le h.2.1,
        h.2.2.takes ht⟩)
    f.openRequests.length f credit [] ⟨rfl, hopen.le, by rwa [List.append_nil]⟩
  generalize collect s f.openRequests.length f credit [] = result at hends
  cases hends with
  | completed =>
      apply h'.requestsMade_ne
      have hwaiting := (List.append_eq_nil_iff.mp (List.length_eq_zero_iff.mp hm)).1
      rw [hwaiting]
      apply List.length_pos_iff.mpr hbatch
  | silent hnext =>
      apply (h'.next_none hnext).requestsMade_ne
      have hlt := length_waiting_of_silent hnext (by
        intro hnil
        rw [hnil] at hm
        cases hm)
      omega
  | reached hnext => exact h'.requestsMade_note_ne hnext (by omega)
  | overflowed hnext => exact h'.requestsMade_note_ne hnext (by omega)

end Tended

/-! ### The validators that stay pending -/

/-- Those to be asked again are among those that were asked, each as often as it was asked. -/
theorem Takes.asked_subperm {f f' : FanOut σ Sig} {credit credit' : Credit Sig}
    {retry retry' : List Nat} (h : Takes s f credit retry f' credit' retry') :
  (f'.openRequests.map (·.index) ++ retry').Subperm (f.openRequests.map (·.index) ++ retry)
  := by
  obtain ⟨flight, g, hnext, hf⟩ := h.exists_next
  have hopen : f'.openRequests = g.openRequests := by
    rw [hf]
    rfl
  have hperm := ((openRequests_next hnext).map (·.index)).append_right retry
  rw [hopen]
  apply List.Subperm.trans _ hperm.symm.subperm
  cases h with
  | signed _ _ _ => apply (List.sublist_cons_self ..).subperm
  | rejected _ _ => apply (List.sublist_cons_self ..).subperm
  | transient hnext' hjudge =>
      cases hnext.symm.trans hnext'
      obtain ⟨rfl, -⟩ := isTransientFailure_of_judge hjudge 0
      rw [← List.append_assoc]
      apply (List.perm_append_singleton _ _).subperm

/-- However the answers come, those to be asked again after a pass are among those it asked. -/
theorem collect_retry_subperm {n : Nat} {f f' : FanOut σ Sig} {credit credit' : Credit Sig}
    {retry : List Nat} (hcollect : collect s n f credit [] = (.completed retry, f', credit')) :
  retry.Subperm (f.openRequests.map (·.index))
  := by
  obtain ⟨m, g, credit'', retry', h, hends⟩ := collect_invariant s
    (P := fun _ g _ retry =>
      (g.openRequests.map (·.index) ++ retry).Subperm (f.openRequests.map Request.index))
    (fun _ _ _ _ _ _ _ h ht => ht.asked_subperm.trans h)
    n f credit [] (by rw [List.append_nil])
  rw [hcollect] at hends
  cases hends with
  | completed => apply (List.sublist_append_right ..).subperm.trans h

/-- Those pending after a pass were pending before it. -/
theorem pass_pending_subperm (s : Setting σ Key Sig) (r : Round σ Sig) :
  (pass s r).2.pending.Subperm r.pending
  := by
  obtain ⟨f, credit, ⟨failure, -, hpass⟩ | ⟨retry, hcollect, hpass⟩⟩ := pass_cases s r
  · rw [hpass]
    apply List.Subperm.refl
  · obtain ⟨moment, hpause⟩ := exists_pause_eq s (r.whenAnswered s f credit retry)
    have hretry := collect_retry_subperm hcollect
    have hopen : (r.toSend s).openRequests = r.requests s := List.append_nil _
    rw [hopen] at hretry
    rw [hpass, hpause]
    have hperm : ((r.deferred s ++ retry).mergeSort (· ≤ ·)).Perm (retry ++ r.deferred s) :=
      (List.mergeSort_perm ..).trans List.perm_append_comm
    apply hperm.subperm.trans
    apply (hretry.append (List.Subperm.refl _)).trans
    apply (requests_deferred_sublist s r).subperm

/-- The requests of a pass are counted, whether it is the last or not. -/
theorem pass_attempts (s : Setting σ Key Sig) (r : Round σ Sig) :
  (pass s r).2.attempts = r.attempts + (r.requests s).length
  := by
  obtain ⟨f, credit, ⟨failure, -, hpass⟩ | ⟨retry, -, hpass⟩⟩ := pass_cases s r
  · rw [hpass]
    rfl
  · obtain ⟨moment, hpause⟩ := exists_pause_eq s (r.whenAnswered s f credit retry)
    rw [hpass, hpause]
    rfl

/-- A pass without requests leaves just those pending that the budget did not reach. -/
theorem pass_pending_of_no_requests {r : Round σ Sig} (hover : ¬ r.isOver s = true)
    (hnone : r.requests s = []) :
  (pass s r).2.pending.length < r.pending.length
  := by
  have hcollect : collect s (r.requests s).length (r.toSend s) r.credit []
      = (.completed [], r.toSend s, r.credit) := by
    rw [hnone]
    rfl
  obtain ⟨moment, hpause⟩ := exists_pause_eq s (r.whenAnswered s (r.toSend s) r.credit [])
  rw [pass_of_completed hcollect, hpause]
  show ((r.deferred s ++ []).mergeSort (· ≤ ·)).length < r.pending.length
  obtain ⟨hpending, hattempts⟩ := exists_left hover
  rw [List.length_mergeSort, List.append_nil, deferred, List.length_drop]
  omega

/-! ### What a pass achieves -/

/-- What a pass of a round achieves, whatever the answers are. -/
structure Advances (s : Setting σ Key Sig) (r r' : Round σ Sig) : Prop where
  /-- Requests are sent and so fewer may be made, or fewer validators are pending. -/
  fewer : ((∃ made, made ≠ [] ∧ requestsMade r'.trace = requestsMade r.trace ++ made) ∧
      s.budget - r'.attempts < s.budget - r.attempts) ∨
    r'.pending.length < r.pending.length
  /-- Requests that were made are not forgotten. -/
  attempts : r.attempts ≤ r'.attempts ∧ r'.attempts ≤ s.budget
  /-- Nobody is pending who was not before. -/
  pending : r'.pending.Subperm r.pending
  /-- Nobody is pending twice. -/
  nodup : r'.pending.Nodup

/-- In a tidy round nobody is pending twice. -/
theorem Tidy.nodup_pending {origin : σ} {r : Round σ Sig} (h : Tidy s origin r) :
  r.pending.Nodup
  := (List.nodup_append.mp h.ongoing.nodup).2.1

/-- In a pass with requests, some of them are sent. -/
theorem Tidy.exists_made {origin : σ} {r : Round σ Sig} (h : Tidy s origin r)
    (hrequests : r.requests s ≠ []) :
  ∃ made, made ≠ [] ∧ requestsMade (Round.pass s r).2.trace = requestsMade r.trace ++ made
  := by
  have hopen : (r.toSend s).openRequests = r.requests s := List.append_nil _
  have hne := collect_requestsMade_ne h.tended (congrArg List.length hopen) hrequests
  rw [hopen] at hne
  have htrace : (Round.pass s r).2.trace
      = (collect s (r.requests s).length (r.toSend s) r.credit []).2.1.trace := by
    obtain ⟨f, credit, ⟨failure, hcollect, hpass⟩ | ⟨retry, hcollect, hpass⟩⟩ := pass_cases s r
    · rw [hcollect, hpass]
      rfl
    · obtain ⟨moment, hpause⟩ := exists_pause_eq s (r.whenAnswered s f credit retry)
      rw [hcollect, hpass, hpause]
      rfl
  obtain ⟨made, hmade, -⟩ := h.pass.2.1
  use made
  constructor
  · rintro rfl
    apply hne
    rw [← htrace, hmade, List.append_nil]
  · apply hmade

/-- Every pass of a tidy round advances it. -/
theorem Tidy.advances {origin : σ} {r : Round σ Sig} (h : Tidy s origin r)
    (hover : ¬ r.isOver s = true) :
  Advances s r (Round.pass s r).2
  := by
  have hattempts := pass_attempts s r
  have hpending := pass_pending_subperm s r
  have hbudget := h.length_requests_le
  rw [List.length_append, ← h.attempts] at hbudget
  constructor
  · by_cases hrequests : r.requests s = []
    · right
      apply pass_pending_of_no_requests hover hrequests
    · left
      use h.exists_made hrequests
      have hpos := List.length_pos_iff.mpr hrequests
      omega
  · omega
  · apply hpending
  · obtain ⟨l, hperm, hsub⟩ := hpending
    apply hperm.nodup_iff.mp (h.nodup_pending.sublist hsub)

/-! ### Every round -/

/-- Whatever the nodes answer, and in whatever order, a round ends after no more passes than
there may be requests and there are validators, and each of its passes advances it. -/
theorem ends_after_passes (s : Setting σ Key Sig) (moment : Moment) (network : σ) :
  let r := start s.set moment network
  (∃ n, n ≤ s.budget + s.set.validators.length ∧ EndsAfter s n r (complete s r)) ∧
  r.pending.Nodup ∧ ∀ q, Reaches s r q → ¬ q.isOver s = true → Advances s q (pass s q).2
  := by
  intro r
  have hr : Tidy s network r := start_tidy s moment network
  have hmeasure : r.measure s = s.budget + s.set.validators.length := by
    show s.budget - 0 + (List.range s.set.validators.length).length = _
    rw [Nat.sub_zero, List.length_range]
  constructor
  · rw [← hmeasure]
    apply ends_within_measure
  · use hr.nodup_pending
    intro q hreaches
    apply Tidy.advances
    apply hreaches.invariant _ hr
    intro q hq _ hmore
    apply hq.pass.2.2 hmore

end Interchain.Round
