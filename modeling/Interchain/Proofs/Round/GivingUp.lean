import Interchain.Proofs.Round.Exactness

/-!
# Giving up

A round gives up when not even all pending validators could complete the quorum.  The weight
that is credited or pending never grows (`Round.weight_complete_le`), and it is what the round
takes it for (`Round.Ongoing.reachable_eq`).  So a round that gives up loses nothing that it
would have come to if it had gone on, as `Round.giving_up_loses_nothing` says.
-/

namespace Interchain

variable {σ Key Sig : Type} [AggregateScheme Key Sig]

/-! ### Weights -/

/-- Weights are added one after another without being cut off, if their sum is not. -/
theorem foldl_addWeight (weights : List UInt64) {sum : Nat}
    (h : sum + totalWeight weights < UInt64.size) :
  weights.foldl addWeight sum = sum + totalWeight weights
  := by
  induction weights generalizing sum with
  | nil => rfl
  | cons w weights ih =>
      rw [totalWeight] at h ⊢
      have hadd : addWeight sum w = sum + w.toNat := by
        rw [addWeight]
        omega
      rw [List.foldl_cons, hadd, ih]
      · omega
      · omega

/-- A signature adds at most the weight of the validator. -/
theorem Credit.weight_add_le {set : ValidatorSet Key} {c c' : Credit Sig} {i : Nat} {sig : Sig}
    (h : c.add set i sig = .ok c') :
  c'.weight ≤ c.weight + set.weightAt [i]
  := by
  rw [add] at h
  split at h
  · cases h
    apply Nat.le_add_right
  · obtain ⟨weight, hweight, h⟩ := bind_eq_ok_iff.mp h
    cases h
    rw [((addChecked_eq_ok_iff ..).mp hweight).2, ValidatorSet.weightAt]
    cases hv : set.validators[i]? with
    | none => simp [hv]
    | some v => simp [hv, totalWeight]

/-- What an answer amounts to is about the validator that was asked. -/
theorem FanOut.judge_index (set : ValidatorSet Key) (message : Message) (flight : Flight Sig) :
  (judge set message flight).index = flight.request.index
  := by
  rcases judge_cases set message 0 flight with ⟨a, -, hi, hjudge⟩ | ⟨-, ⟨e, hjudge⟩ | ⟨e, hjudge⟩⟩
  · rw [hjudge]
    apply hi
  · rw [hjudge]
    rfl
  · rw [hjudge]
    rfl

/-- Less weight does not meet a quorum that more does not meet. -/
theorem Quorum.isMet_eq_false_of_le {quorum : Quorum} {signed signed' total : Nat}
    (hle : signed ≤ signed') (h : quorum.isMet signed' total = false) :
  quorum.isMet signed total = false
  := by
  rw [isMet, decide_eq_false_iff_not] at h ⊢
  have := Nat.mul_le_mul_right quorum.denominator.toNat hle
  omega

namespace Round

/-! ### The weight at hand -/

/-- The weight of the validators that are credited or pending. -/
def atHand (s : Setting σ Key Sig) (r : Round σ Sig) : Nat :=
  r.credit.weight + s.set.weightAt r.pending

variable {s : Setting σ Key Sig}

omit [AggregateScheme Key Sig] in
/-- The next answer closes a request of the weight of its validator. -/
theorem weightAt_next {f f' : FanOut σ Sig} {flight : Flight Sig}
    (hnext : s.schedule.next f = (some flight, f')) :
  s.set.weightAt (f.openRequests.map (·.index))
    = s.set.weightAt [flight.request.index] + s.set.weightAt (f'.openRequests.map (·.index))
  := by
  rw [s.set.weightAt_perm ((openRequests_next hnext).map (·.index))]
  apply s.set.weightAt_append [flight.request.index]

/-- An answer adds no weight that was not to be asked for. -/
theorem Takes.weight_le {f f' : FanOut σ Sig} {credit credit' : Credit Sig}
    {retry retry' : List Nat} (h : Takes s f credit retry f' credit' retry') :
  credit'.weight + s.set.weightAt (f'.openRequests.map (·.index) ++ retry')
    ≤ credit.weight + s.set.weightAt (f.openRequests.map (·.index) ++ retry)
  := by
  rw [s.set.weightAt_append, s.set.weightAt_append]
  cases h with
  | @signed flight g i sig _ hnext hjudge hadd =>
      replace hadd := Credit.weight_add_le hadd
      have hindex := FanOut.judge_index s.set s.message flight
      have hopen : (g.note s.set s.message flight).openRequests = g.openRequests := rfl
      rw [hjudge, Outcome.index] at hindex
      rw [weightAt_next hnext, hopen, ← hindex]
      omega
  | @transient flight g i e hnext hjudge =>
      have hindex := FanOut.judge_index s.set s.message flight
      have hopen : (g.note s.set s.message flight).openRequests = g.openRequests := rfl
      rw [hjudge, Outcome.index] at hindex
      rw [weightAt_next hnext, hopen, ← hindex, s.set.weightAt_append]
      omega
  | @rejected flight g i e hnext =>
      have hopen : (g.note s.set s.message flight).openRequests = g.openRequests := rfl
      rw [weightAt_next hnext, hopen]
      omega

/-- What bounds the weight of a pass: what is credited when it ends, with those who may be
asked again if it is not the last. -/
def Within (s : Setting σ Key Sig) (bound : Nat) : PassEnd × FanOut σ Sig × Credit Sig → Prop
  | (.final _, _, credit) => credit.weight ≤ bound
  | (.completed retry, _, credit) => credit.weight + s.set.weightAt retry ≤ bound

/-- A pass ends with no more weight than it started with. -/
theorem collect_within (s : Setting σ Key Sig) {bound : Nat} (n : Nat) (f : FanOut σ Sig)
    (credit : Credit Sig) (retry : List Nat)
    (h : credit.weight + s.set.weightAt (f.openRequests.map (·.index) ++ retry) ≤ bound) :
  Within s bound (collect s n f credit retry)
  := by
  obtain ⟨m, f', credit', retry', h', hends⟩ := collect_invariant s
    (P := fun _ f credit retry =>
      credit.weight + s.set.weightAt (f.openRequests.map (·.index) ++ retry) ≤ bound)
    (fun _ _ _ _ _ _ _ h ht => ht.weight_le.trans h) n f credit retry h
  rw [s.set.weightAt_append] at h'
  generalize collect s n f credit retry = result at hends
  cases hends with
  | completed =>
      show credit'.weight + s.set.weightAt retry' ≤ bound
      omega
  | silent hnext =>
      show credit'.weight ≤ bound
      omega
  | @reached _ flight _ i sig credit'' hnext hjudge hadd =>
      replace hadd := Credit.weight_add_le hadd
      have hindex := FanOut.judge_index s.set s.message flight
      rw [hjudge, Outcome.index] at hindex
      rw [weightAt_next hnext, ← hindex] at h'
      show credit''.weight ≤ bound
      omega
  | overflowed hnext =>
      show credit'.weight ≤ bound
      omega

/-- A pass of a round ends with no more weight than is at hand, of which some may be deferred. -/
theorem collect_within_atHand (s : Setting σ Key Sig) (r : Round σ Sig) :
  Within s (r.atHand s - s.set.weightAt (r.deferred s))
    (collect s (r.requests s).length (r.toSend s) r.credit [])
  := by
  have hopen : (r.toSend s).openRequests = r.requests s := List.append_nil _
  have hle := s.set.weightAt_le_of_subperm (requests_deferred_sublist s r).subperm
  apply collect_within
  rw [hopen, List.append_nil, atHand]
  rw [s.set.weightAt_append] at hle
  omega

/-- When the requests of a pass are all answered, no more weight is at hand than before. -/
theorem atHand_whenAnswered_le {r : Round σ Sig} {f : FanOut σ Sig} {credit : Credit Sig}
    {retry : List Nat}
    (hcollect : collect s (r.requests s).length (r.toSend s) r.credit []
      = (.completed retry, f, credit)) :
  (r.whenAnswered s f credit retry).atHand s ≤ r.atHand s
  := by
  have hwithin := collect_within_atHand s r
  have hle := s.set.weightAt_le_of_subperm (requests_deferred_sublist s r).subperm
  have hpending : (r.whenAnswered s f credit retry).pending.Perm (r.deferred s ++ retry) :=
    List.mergeSort_perm ..
  rw [hcollect] at hwithin
  replace hwithin : credit.weight + s.set.weightAt retry
    ≤ r.atHand s - s.set.weightAt (r.deferred s) := hwithin
  have hcredit : (r.whenAnswered s f credit retry).credit = credit := rfl
  rw [s.set.weightAt_append] at hle
  rw [atHand, hcredit, s.set.weightAt_perm hpending, s.set.weightAt_append]
  rw [atHand] at hwithin ⊢
  omega

omit [AggregateScheme Key Sig] in
/-- A pause adds no weight. -/
theorem atHand_pause (s : Setting σ Key Sig) (r : Round σ Sig) :
  (pause s r).2.atHand s = r.atHand s
  := by
  obtain ⟨moment, hpause⟩ := exists_pause_eq s r
  rw [hpause]
  rfl

/-- After a pass no more weight is credited than was at hand, nor is more at hand if the round
goes on. -/
theorem weight_pass_le (s : Setting σ Key Sig) (r : Round σ Sig) :
  (pass s r).2.credit.weight ≤ r.atHand s ∧
    ((pass s r).1 = true → (pass s r).2.atHand s ≤ r.atHand s)
  := by
  obtain ⟨f, credit, ⟨failure, hcollect, hpass⟩ | ⟨retry, hcollect, hpass⟩⟩ := pass_cases s r
  · have hwithin := collect_within_atHand s r
    rw [hcollect] at hwithin
    rw [hpass]
    constructor
    · apply Nat.le_trans hwithin (Nat.sub_le ..)
    · intro hmore
      cases hmore
  · have hle := atHand_whenAnswered_le hcollect
    rw [hpass]
    rw [← atHand_pause] at hle
    constructor
    · apply Nat.le_trans _ hle
      apply Nat.le_add_right
    · intro _
      apply hle

/-- At the end of a round no more weight is credited than was at hand at any time. -/
theorem weight_complete_le (s : Setting σ Key Sig) (r : Round σ Sig) :
  (complete s r).credit.weight ≤ r.atHand s
  := by
  apply complete_invariant s (P := fun q => q.atHand s ≤ r.atHand s)
    (Q := fun q => q.credit.weight ≤ r.atHand s)
  · intro q h _
    apply Nat.le_trans (Nat.le_add_right ..) h
  · intro q h _ hmore
    apply Nat.le_trans ((weight_pass_le s q).2 hmore) h
  · intro q h _ _
    apply Nat.le_trans (weight_pass_le s q).1 h
  · apply Nat.le_refl

/-! ### What is out of reach -/

/-- The weight at hand is that of the validators that attested and of those pending. -/
theorem Ongoing.atHand_eq {r : Round σ Sig} (h : Ongoing s r) :
  r.atHand s
    = s.set.weightAt ((attestations s.set s.message r.trace).map (·.index) ++ r.pending)
  := by
  have hgenuine := h.accounted.allGenuine.genuine
  rw [atHand, h.credit_eq, s.set.weightAt_append, ← attestedWeight_eq_weightAt hgenuine]
  rfl

/-- No more weight is at hand than that of the whole set. -/
theorem Ongoing.atHand_le {r : Round σ Sig} (h : Ongoing s r) :
  r.atHand s ≤ s.set.total.toNat
  := by
  rw [h.atHand_eq]
  apply s.set.weightAt_le_total h.nodup

/-- The weight that a round takes to be in reach is the weight at hand, and not cut off. -/
theorem Ongoing.reachable_eq {r : Round σ Sig} (h : Ongoing s r) :
  r.reachable s = r.atHand s
  := by
  apply foldl_addWeight
  apply Nat.lt_of_le_of_lt h.atHand_le s.set.total.toNat_lt_size

/-- Validators that are credited or pending carry no more than the weight at hand. -/
theorem Ongoing.markedWeight_le {r : Round σ Sig} (h : Ongoing s r) {signers : Signers}
    (hsigners : ∀ i, signers.contains i = true →
      r.credit.signers.contains i = true ∨ i ∈ r.pending) :
  s.set.markedWeight signers ≤ r.atHand s
  := by
  rw [h.atHand_eq]
  apply s.set.markedWeight_le_weightAt
  intro i hi
  apply List.mem_append.mpr
  rcases hsigners i hi with hcredited | hpending
  · left
    rw [h.credit_eq] at hcredited
    apply (Signers.contains_ofList _ _).mp hcredited
  · right
    apply hpending

/-! ### Going on nevertheless -/

/-- The setting in which a round goes on as long as there is anyone to ask. -/
def Setting.persistent (s : Setting σ Key Sig) : Setting σ Key Sig := { s with givesUp := false }

/-- Whether a round is to give up does not matter while a pass goes on. -/
theorem collect_persistent (s : Setting σ Key Sig) (n : Nat) (f : FanOut σ Sig)
    (credit : Credit Sig) (retry : List Nat) :
  collect s.persistent n f credit retry = collect s n f credit retry
  := by
  induction n generalizing f credit retry with
  | zero => rfl
  | succ n ih =>
      rw [collect, collect]
      simp only [ih]
      rfl

omit [AggregateScheme Key Sig] in
/-- A round that is to give up and does not is paused like any other. -/
theorem pause_persistent {r : Round σ Sig} (h : r.isHopeless s = false) :
  pause s.persistent r = pause s r
  := by
  rw [pause, pause, h]
  rfl

omit [AggregateScheme Key Sig] in
/-- A round that gives up ends as it is. -/
theorem pause_of_isHopeless {r : Round σ Sig} (h : r.isHopeless s = true) :
  pause s r = (false, r)
  := by
  rw [pause, h]
  rfl

/-- A pass of a round that is to give up ends like one of a round that is not, unless the round
gives up. -/
theorem pass_persistent (s : Setting σ Key Sig) (r : Round σ Sig) :
  pass s.persistent r = pass s r ∨
    ∃ f credit retry, collect s (r.requests s).length (r.toSend s) r.credit []
        = (.completed retry, f, credit) ∧
      (r.whenAnswered s f credit retry).isHopeless s = true ∧
      pass s r = pause s (r.whenAnswered s f credit retry) ∧
      pass s.persistent r = pause s.persistent (r.whenAnswered s f credit retry)
  := by
  have hsame := collect_persistent s (r.requests s).length (r.toSend s) r.credit []
  obtain ⟨f, credit, ⟨failure, hcollect, hpass⟩ | ⟨retry, hcollect, hpass⟩⟩ := pass_cases s r
  · left
    rw [hpass]
    apply pass_of_final (hsame.trans hcollect)
  · have hpass' := pass_of_completed (s := s.persistent) (hsame.trans hcollect)
    cases hhopeless : (r.whenAnswered s f credit retry).isHopeless s with
    | false =>
        left
        rw [hpass]
        apply hpass'.trans (pause_persistent hhopeless)
    | true =>
        right
        use f, credit, retry, hcollect, hhopeless, hpass, hpass'

/-- A round ends with no more weight than is at hand before a pause. -/
theorem weight_complete_le_of_pause {r q : Round σ Sig} (hover : ¬ r.isOver s = true)
    (hpass : pass s r = pause s q) :
  (complete s r).credit.weight ≤ q.atHand s
  := by
  have hcredit : (pause s q).2.credit = q.credit := by
    obtain ⟨moment, hpause⟩ := exists_pause_eq s q
    rw [hpause]
  rw [complete_eq, if_neg hover, hpass]
  split
  · rw [← atHand_pause]
    apply weight_complete_le
  · rw [hcredit]
    apply Nat.le_add_right

/-- What is at hand does not meet the quorum when a round gives up. -/
theorem Ongoing.isMet_atHand {r : Round σ Sig} (h : Ongoing s r) (hr : r.isHopeless s = true) :
  s.config.quorum.isMet (r.atHand s) s.set.total.toNat = false
  := by
  rw [isHopeless, Bool.and_eq_true, Bool.not_eq_true', h.reachable_eq] at hr
  apply hr.2

/-- A round that is to give up ends like one that is not, or neither has the quorum. -/
theorem Ongoing.complete_persistent {r : Round σ Sig} (h : Ongoing s r) :
  complete s.persistent r = complete s r ∨
    s.config.quorum.isMet (complete s.persistent r).credit.weight s.set.total.toNat = false ∧
    s.config.quorum.isMet (complete s r).credit.weight s.set.total.toNat = false
  := by
  induction r using complete.induct s with
  | case1 r hover =>
      left
      rw [complete_eq s.persistent, complete_eq s, if_pos hover]
      apply if_pos hover
  | case2 r hover r' hpass ih =>
      have hmore := (pass_spec h).1
      rcases pass_persistent s r with hsame | ⟨f, credit, retry, -, hhopeless, hpause, -⟩
      · have hpersistent : complete s.persistent r = complete s.persistent r' := by
          rw [complete_eq s.persistent, hsame, hpass]
          apply if_neg hover
        have hcomplete : complete s r = complete s r' := by
          rw [complete_eq s, hpass]
          apply if_neg hover
        rw [hpass] at hmore
        rw [hpersistent, hcomplete]
        apply ih (hmore rfl)
      · rw [hpass, pause_of_isHopeless hhopeless] at hpause
        cases hpause
  | case3 r hover r' hpass =>
      obtain hsame | ⟨f, credit, retry, hcollect, hhopeless, hpause, hpause'⟩ :=
        pass_persistent s r
      · left
        rw [complete_eq s.persistent, complete_eq s, if_neg hover, hsame, hpass]
        apply if_neg hover
      · right
        have hunmet := (h.whenAnswered hcollect).isMet_atHand hhopeless
        constructor
        · apply Quorum.isMet_eq_false_of_le _ hunmet
          apply weight_complete_le_of_pause (s := s.persistent) hover hpause'
        · apply Quorum.isMet_eq_false_of_le _ hunmet
          apply weight_complete_le_of_pause hover hpause

/-- Without the quorum a round has no result. -/
theorem result_ne_ok {r : Round σ Sig}
    (h : s.config.quorum.isMet r.credit.weight s.set.total.toNat = false) (a : Attested) :
  r.result s ≠ .ok a
  := by
  intro hresult
  have hreached : r.credit.isReached s.set s.config.quorum = false := by
    rw [Credit.isReached, Quorum.isReached, h, Bool.and_false]
  rw [result] at hresult
  split at hresult
  · cases hresult
  · dsimp only at hresult
    rw [hreached] at hresult
    cases hresult

/-! ### Nothing is lost -/

/-- The rounds that are to decide whether to give up: all requests of a pass are answered. -/
inductive Decides (s : Setting σ Key Sig) (r : Round σ Sig) : Round σ Sig → Prop
  | answered {q : Round σ Sig} {f : FanOut σ Sig} {credit : Credit Sig} {retry : List Nat}
      (hreaches : Reaches s r q) (hover : ¬ q.isOver s = true)
      (hcollect : collect s (q.requests s).length (q.toSend s) q.credit []
        = (.completed retry, f, credit)) : Decides s r (q.whenAnswered s f credit retry)

/-- What a round knows when it is to decide holds of the validators still pending. -/
theorem Decides.ongoing {r q : Round σ Sig} (h : Decides s r q) (hr : Ongoing s r) :
  Ongoing s q
  := by
  obtain ⟨hreaches, -, hcollect⟩ := h
  apply Ongoing.whenAnswered _ hcollect
  apply hreaches.invariant _ hr
  intro q hq _ hmore
  apply (pass_spec hq).1 hmore

/-- A round that decides to give up ends as it is. -/
theorem Decides.complete_eq {r q : Round σ Sig} (h : Decides s r q)
    (hq : q.isHopeless s = true) :
  complete s r = q
  := by
  obtain ⟨hreaches, hover, hcollect⟩ := h
  rw [hreaches.complete_eq, Round.complete_eq, if_neg hover, pass_of_completed hcollect,
    pause_of_isHopeless hq]
  rfl

/-- However the nodes answer, and in whatever order, a round yields what it would yield if it
never gave up.  Whenever all requests of a pass are answered, the weight that the round takes to
be in reach is exactly that of the credited and the pending validators.  If it gives up then, it
ends there, and no validators among these carry the quorum. -/
theorem giving_up_loses_nothing (s : Setting σ Key Sig) (moment : Moment) (network : σ) :
  let r := start s.set moment network
  (∀ a, (complete s r).result s = .ok a ↔
    (complete s.persistent r).result s.persistent = .ok a) ∧
  ∀ q, Decides s r q →
    q.reachable s = q.credit.weight + s.set.weightAt q.pending ∧
    (q.isHopeless s = true →
      complete s r = q ∧
      ∀ signers : Signers,
        (∀ i, signers.contains i = true → q.credit.signers.contains i = true ∨ i ∈ q.pending) →
        s.config.quorum.isMet (s.set.markedWeight signers) s.set.total.toNat = false)
  := by
  intro r
  have hr : Ongoing s r := start_ongoing s moment network
  constructor
  · intro a
    rcases hr.complete_persistent with hsame | ⟨hpersistent, hunmet⟩
    · rw [hsame]
      rfl
    · constructor
      · intro ha
        exact absurd ha (result_ne_ok hunmet a)
      · intro ha
        exact absurd ha (result_ne_ok hpersistent a)
  · intro q hq
    have hongoing := hq.ongoing hr
    use hongoing.reachable_eq
    intro hhopeless
    use hq.complete_eq hhopeless
    intro signers hsigners
    apply Quorum.isMet_eq_false_of_le (hongoing.markedWeight_le hsigners)
    apply hongoing.isMet_atHand hhopeless

end Round

end Interchain
