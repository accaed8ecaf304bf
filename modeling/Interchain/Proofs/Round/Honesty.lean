import Interchain.Proofs.Round.Exactness
import Mathlib.Algebra.Order.BigOperators.Group.List

/-!
# Honest validators

If the validators whose first nodes sign carry the quorum, a round yields a result, whatever the
others answer and in whatever order the answers come, as long as all but a few answer in time:
fewer than the requests that may be under way.  For then there is always one under way that is
answered (`Round.Underway.exists_prompt`), until all the honest ones have attested.  The main
result is `honest_quorum_suffices`.
-/

namespace Interchain

/-- The requests to the first nodes of all validators that have one, in the order of the set. -/
def ValidatorSet.firstRequests {Key : Type} (set : ValidatorSet Key) : List Request :=
  (List.range set.validators.length).filterMap fun i => do
    let v ← set.validators[i]?
    let node ← v.nodes[0]?
    return ⟨i, node⟩

/-- The validators that are asked are in the set. -/
theorem ValidatorSet.index_lt_of_mem_firstRequests {Key : Type} {set : ValidatorSet Key}
    {q : Request} (hq : q ∈ set.firstRequests) :
  q.index < set.validators.length
  := by
  obtain ⟨i, hi, hnode⟩ := List.mem_filterMap.mp hq
  obtain ⟨v, -, hnode⟩ := Option.bind_eq_some_iff.mp hnode
  obtain ⟨node, -, hnode⟩ := Option.bind_eq_some_iff.mp hnode
  cases hnode
  apply List.mem_range.mp hi

section RollCall

variable {σ Key Sig : Type} [AggregateScheme Key Sig]
variable (net : Network σ Sig) (set : ValidatorSet Key) (config : RoundConfig)
variable (message : Message) (start : Moment) (network : σ)

/-- What may become of the network while the first nodes of all validators are asked in turn
before a round times out.  The given requests are still to be made. -/
inductive RollCall : List Request → σ → Prop
  | start : RollCall set.firstRequests network
  | ask {request : Request} {rest : List Request} {state : σ} {time : Nat}
      (h : RollCall (request :: rest) state) (hstart : start.now ≤ time)
      (htime : time ≤ start.now + config.roundTimeout) :
      RollCall rest (net.ask time request.node message state).2

variable {net set config message start network} in
omit [AggregateScheme Key Sig] in
/-- Only the first nodes of validators are asked. -/
theorem RollCall.mem_firstRequests {requests : List Request} {state : σ}
    (h : RollCall net set config message start network requests state) :
  ∀ q ∈ requests, q ∈ set.firstRequests
  := by
  induction h with
  | start =>
      intro q hq
      apply hq
  | ask _ _ _ ih =>
      intro q hq
      apply ih q (List.mem_cons_of_mem _ hq)

/-- What a validator's first node may reply to its first request. -/
inductive FirstReply : Nat → Reply Sig → Prop
  | mk {request : Request} {rest : List Request} {state : σ} {time : Nat}
      (h : RollCall net set config message start network (request :: rest) state)
      (hstart : start.now ≤ time) (htime : time ≤ start.now + config.roundTimeout) :
      FirstReply request.index (net.ask time request.node message state).1

/-- The validators that sign carry the quorum, and few enough are silent.  All others answer,
each within its delay, and the delays add up to no more than the round's timeout. -/
structure HonestQuorum (honest silent : Signers) (delay : Nat → Nat) : Prop where
  /-- The honest validators are in the set, and have a node. -/
  listed : ∀ i, honest.contains i = true →
    ∃ v node, set.validators[i]? = some v ∧ v.nodes[0]? = some node
  /-- An honest validator's node replies with its signature. -/
  signs : ∀ i reply, honest.contains i = true →
    FirstReply net set config message start network i reply →
    ∃ v sig, set.validators[i]? = some v ∧ reply.answer = .ok sig ∧
      AggregateScheme.verify v.key message.id.bytes sig = true
  /-- A validator that is not silent answers, whatever the answer is. -/
  answers : ∀ i reply, silent.contains i = false →
    FirstReply net set config message start network i reply →
    ∃ d, reply.delay = some d ∧ d ≤ delay i
  /-- The honest validators are not silent. -/
  disjoint : ∀ i, honest.contains i = true → silent.contains i = false
  /-- The silent validators do not use up the requests that may be under way at a time. -/
  few : silent.size < max 1 config.maxConcurrency
  /-- The answers come in time even if they come one after another. -/
  inTime : ((List.range set.validators.length).map delay).sum ≤ config.roundTimeout
  nonempty : ∃ i, honest.contains i = true
  /-- The honest validators carry the quorum. -/
  meets : config.quorum.isMet (set.markedWeight honest) set.total.toNat = true

end RollCall

namespace Round

variable {σ Key Sig : Type} [AggregateScheme Key Sig]
variable {s : Setting σ Key Sig} {start : Moment} {network : σ}
variable {honest silent : Signers} {delay : Nat → Nat}

/-- The first pass is under way: the requests that wait are the rest of the roll call, and all
that are to be answered are answered in time.  The honest validators have attested or are still
to answer. -/
structure Underway (s : Setting σ Key Sig) (start : Moment) (network : σ)
    (honest silent : Signers) (delay : Nat → Nat) (retry : List Nat) (f : FanOut σ Sig)
    (credit : Credit Sig) : Prop where
  collecting : Collecting s (f.openRequests.map (·.index) ++ retry) f.trace credit
  called : RollCall s.net s.set s.config s.message start network f.waiting f.network
  begun : start.now ≤ f.now
  timely : ∃ latest, f.now ≤ latest ∧
    latest + (f.waiting.map fun q => delay q.index).sum ≤ start.now + s.config.roundTimeout ∧
    ∀ flight ∈ f.flying, silent.contains flight.request.index = false →
      ∃ time ≤ latest, flight.due = some time
  signs : ∀ flight ∈ f.flying, honest.contains flight.request.index = true →
    ∃ v sig, s.set.validators[flight.request.index]? = some v ∧ flight.answer = .ok sig ∧
      AggregateScheme.verify v.key s.message.id.bytes sig = true
  heard : ∀ i, honest.contains i = true →
    i ∈ (attestations s.set s.message f.trace).map (·.index) ∨
      i ∈ f.openRequests.map (·.index)

variable {retry : List Nat} {f : FanOut σ Sig} {credit : Credit Sig}

/-- The first of the requests that wait may be sent. -/
theorem Underway.sendFirst
    (hq : HonestQuorum s.net s.set s.config s.message start network honest silent delay)
    (h : Underway s start network honest silent delay retry f credit) {r : Request}
    {rest : List Request} (hwaiting : f.waiting = r :: rest) :
  Underway s start network honest silent delay retry
    (f.sendFirst s.net s.set s.message r rest) credit
  := by
  have hcalled := h.called
  rw [hwaiting] at hcalled
  obtain ⟨latest, hnow, hdeadline, hflying⟩ := h.timely
  rw [hwaiting, List.map_cons, List.sum_cons] at hdeadline
  have htime : f.now ≤ start.now + s.config.roundTimeout := by omega
  have hreply := FirstReply.mk hcalled h.begun htime
  have hlt := ValidatorSet.index_lt_of_mem_firstRequests
    (hcalled.mem_firstRequests r (List.mem_cons_self ..))
  have hsent := FanOut.sendFirst_eq s.net s.set s.message hlt rest f
  constructor
  · apply h.collecting.sendFirst hwaiting
  · rw [hsent]
    apply hcalled.ask h.begun htime
  · rw [hsent]
    apply h.begun
  · use latest + delay r.index
    rw [hsent]
    refine ⟨by dsimp only; omega, by dsimp only; omega, ?_⟩
    intro flight hflight hsilent
    rcases List.mem_append.mp hflight with hflight | hflight
    · obtain ⟨time, hle, hdue⟩ := hflying flight hflight hsilent
      use time, by omega
    · rw [List.mem_singleton.mp hflight] at hsilent ⊢
      obtain ⟨d, hd, hle⟩ := hq.answers r.index _ hsilent hreply
      use f.after d
      constructor
      · rw [Moment.after]
        omega
      · rw [hd]
        rfl
  · rw [hsent]
    intro flight hflight hhonest
    rcases List.mem_append.mp hflight with hflight | hflight
    · apply h.signs flight hflight hhonest
    · rw [List.mem_singleton.mp hflight] at hhonest ⊢
      apply hq.signs _ _ hhonest hreply
  · intro i hi
    have hperm := FanOut.openRequests_sendFirst s.net s.set s.message hwaiting
    rw [attestations_sendFirst, ← (hperm.map (·.index)).mem_iff]
    apply h.heard i hi

/-- Requests that wait may be sent one after another. -/
theorem Underway.sends
    (hq : HonestQuorum s.net s.set s.config s.message start network honest silent delay)
    (h : Underway s start network honest silent delay retry f credit) {limit : Nat}
    {g : FanOut σ Sig} (hsends : FanOut.Sends s.net s.set s.message limit f g) :
  Underway s start network honest silent delay retry g credit
  := by
  induction hsends with
  | done f => exact h
  | first hwaiting _ _ ih => apply ih (h.sendFirst hq hwaiting)

/-- While the quorum is not met, an honest validator is still to answer. -/
theorem Underway.exists_honest
    (hq : HonestQuorum s.net s.set s.config s.message start network honest silent delay)
    (h : Underway s start network honest silent delay retry f credit) :
  ∃ q ∈ f.openRequests, honest.contains q.index = true
  := by
  by_contra hnone
  apply h.collecting.unmet _ (List.prefix_refl _)
  have hattested : ∀ i, honest.contains i = true →
      i ∈ (attestations s.set s.message f.trace).map (·.index) := by
    intro i hi
    rcases h.heard i hi with hmem | hmem
    · apply hmem
    · obtain ⟨q, hqmem, rfl⟩ := List.mem_map.mp hmem
      exact absurd ⟨q, hqmem, hi⟩ hnone
  constructor
  · intro hnil
    obtain ⟨i, hi⟩ := hq.nonempty
    have hmem := hattested i hi
    rw [hnil] at hmem
    cases hmem
  · have hgenuine := h.collecting.accounted.allGenuine.genuine
    have hle : s.set.markedWeight honest
        ≤ attestedWeight (attestations s.set s.message f.trace) := by
      rw [attestedWeight_eq_weightAt hgenuine]
      apply s.set.markedWeight_le_weightAt hattested
    apply Nat.le_trans (of_decide_eq_true hq.meets)
    apply Nat.mul_le_mul_right _ hle

/-- When no more requests can be sent, one that is under way will be answered. -/
theorem Underway.exists_prompt
    (hq : HonestQuorum s.net s.set s.config s.message start network honest silent delay)
    (h : Underway s start network honest silent delay retry f credit)
    (hfull : f.IsFull (max 1 s.config.maxConcurrency)) :
  ∃ flight ∈ f.flying, silent.contains flight.request.index = false
  := by
  rcases hfull with hwaiting | hlimit
  · obtain ⟨q, hqmem, hi⟩ := h.exists_honest hq
    rw [FanOut.openRequests, hwaiting, List.nil_append] at hqmem
    obtain ⟨flight, hflight, rfl⟩ := List.mem_map.mp hqmem
    use flight, hflight, hq.disjoint _ hi
  · by_contra hnone
    have hnodup : (f.flying.map fun flight => flight.request.index).Nodup := by
      have hopen := (List.nodup_append.mp (List.nodup_append.mp h.collecting.nodup).2.1).1
      rw [FanOut.openRequests, List.map_append, List.map_map] at hopen
      apply (List.nodup_append.mp hopen).2.1
    have hsubset : (f.flying.map fun flight => flight.request.index) ⊆ silent.toList := by
      intro i hi
      obtain ⟨flight, hflight, rfl⟩ := List.mem_map.mp hi
      apply (silent.mem_toList _).mpr
      rw [← Bool.not_eq_false]
      intro hprompt
      apply hnone ⟨flight, hflight, hprompt⟩
    have hlength := (hnodup.subperm hsubset).length_le
    have hfew := hq.few
    rw [List.length_map] at hlength
    rw [Signers.size] at hfew
    omega

/-- The first pass stays under way if no time passes, or until the time at which one that is not
silent answers at the latest. -/
theorem Underway.wait (h : Underway s start network honest silent delay retry f credit)
    {moment : Moment} (hge : f.now ≤ moment.now)
    (hle : moment.now = f.now ∨ ∃ flight ∈ f.flying,
      silent.contains flight.request.index = false ∧
      ∀ time, flight.due = some time → moment.now ≤ max f.now time) :
  Underway s start network honest silent delay retry { f with toMoment := moment } credit
  := by
  obtain ⟨latest, hnow, hdeadline, hflying⟩ := h.timely
  have hmoment : moment.now ≤ latest := by
    rcases hle with hsame | ⟨flight, hflight, hi, hle⟩
    · rwa [hsame]
    · obtain ⟨time, htime, hdue⟩ := hflying flight hflight hi
      have := hle time hdue
      omega
  constructor
  · apply h.collecting
  · apply h.called
  · apply h.begun.trans hge
  · use latest, hmoment, hdeadline, hflying
  · apply h.signs
  · apply h.heard

/-- There is a next answer, to one of the requests that are then under way. -/
theorem Underway.next
    (hq : HonestQuorum s.net s.set s.config s.message start network honest silent delay)
    (hdeadline : s.deadline = some (start.now + s.config.roundTimeout))
    (h : Underway s start network honest silent delay retry f credit) :
  ∃ flight g before after, Underway s start network honest silent delay retry g credit ∧
    g.flying = before ++ flight :: after ∧
    s.schedule.next f = (some flight, { g with flying := before ++ after })
  := by
  have hproceeds := s.schedule.proceeds f
  generalize s.schedule.next f = result at hproceeds
  cases hproceeds with
  | @silent g hsends hsilent =>
      have hg := h.sends hq hsends
      obtain ⟨flight, hflight, hi⟩ := hg.exists_prompt hq hsilent.full
      obtain ⟨latest, -, hlatest, hflying⟩ := hg.timely
      obtain ⟨time, hle, hdue⟩ := hflying flight hflight hi
      have hlate := hsilent.late flight hflight time hdue
      rw [hdeadline] at hlate
      have hlt := of_decide_eq_true hlate
      omega
  | @comes g f' flight hsends hcomes =>
      have hg := h.sends hq hsends
      cases hcomes with
      | @now before after time moment hflying _ _ hmoment =>
          use flight, { g with toMoment := moment }, before, after
          use hg.wait hmoment.ge (.inl hmoment), hflying
      | @later before after time moment hflying _ hfull hearliest _ hmoment =>
          obtain ⟨prompt, hprompt, hi⟩ := hg.exists_prompt hq hfull
          use flight, { g with toMoment := moment }, before, after
          constructor
          · apply hg.wait
            · rw [hmoment]
              apply Nat.le_max_left
            · right
              use prompt, hprompt, hi
              intro t hdue
              have := hearliest prompt hprompt t hdue
              omega
          · use hflying

/-- The first pass stays under way until it ends. -/
theorem Underway.takes
    (hq : HonestQuorum s.net s.set s.config s.message start network honest silent delay)
    (hdeadline : s.deadline = some (start.now + s.config.roundTimeout))
    (h : Underway s start network honest silent delay retry f credit) {retry' : List Nat}
    {f' : FanOut σ Sig} {credit' : Credit Sig} (ht : Takes s f credit retry f' credit' retry') :
  Underway s start network honest silent delay retry' f' credit'
  := by
  have hcollecting : Collecting s (f'.openRequests.map (·.index) ++ ([] ++ retry')) f'.trace
      credit' := Collecting.takes h.collecting ht
  obtain ⟨flight, g, before, after, hg, hflying, hnext⟩ := h.next hq hdeadline
  obtain ⟨flight', f'', hnext', rfl⟩ := ht.exists_next
  cases hnext.symm.trans hnext'
  have hfewer : (before ++ after).Sublist g.flying := by
    rw [hflying]
    apply (List.sublist_cons_self ..).append_left
  constructor
  · apply hcollecting
  · apply hg.called
  · apply hg.begun
  · obtain ⟨latest, hnow, hlatest, hdue⟩ := hg.timely
    use latest, hnow, hlatest
    intro other hother
    apply hdue other (hfewer.subset hother)
  · intro other hother
    apply hg.signs other (hfewer.subset hother)
  · intro i hi
    rw [FanOut.attestations_note, List.map_append]
    rcases hg.heard i hi with hattested | hopen
    · left
      apply List.mem_append_left _ hattested
    · rw [((FanOut.openRequests_perm hflying).map (·.index)).mem_iff, List.map_cons] at hopen
      rcases List.mem_cons.mp hopen with rfl | hopen
      · left
        apply List.mem_append_right
        have hmem : flight ∈ g.flying := by
          rw [hflying]
          simp
        obtain ⟨v, sig, hv, hanswer, hverify⟩ := hg.signs flight hmem hi
        rw [hanswer, Event.attestation?, hv]
        simp [hverify]
      · right
        apply hopen

/-- The first pass ends with the quorum. -/
theorem Underway.collect_reached
    (hq : HonestQuorum s.net s.set s.config s.message start network honest silent delay)
    (hdeadline : s.deadline = some (start.now + s.config.roundTimeout))
    (h : Underway s start network honest silent delay [] f credit) :
  ∃ f' credit', collect s f.openRequests.length f credit [] = (.final none, f', credit') ∧
    credit'.isReached s.set s.config.quorum = true
  := by
  obtain ⟨m, f', credit', retry', ⟨hm, h'⟩, hends⟩ := collect_invariant s
    (P := fun n f credit retry => f.openRequests.length = n ∧
      Underway s start network honest silent delay retry f credit)
    (fun _ _ _ _ _ _ _ h ht =>
      ⟨Nat.succ.inj (ht.length_openRequests.symm.trans h.1), h.2.takes hq hdeadline ht⟩)
    f.openRequests.length f credit [] ⟨rfl, h⟩
  generalize collect s f.openRequests.length f credit [] = result at hends
  cases hends with
  | completed =>
      obtain ⟨q, hqmem, -⟩ := h'.exists_honest hq
      rw [List.length_eq_zero_iff.mp hm] at hqmem
      cases hqmem
  | silent hnext =>
      obtain ⟨flight, g, before, after, -, -, hnext'⟩ := h'.next hq hdeadline
      cases hnext.symm.trans hnext'
  | reached _ _ _ hreached => exact ⟨_, _, rfl, hreached⟩
  | overflowed hnext hjudge hadd =>
      obtain ⟨_, hadd', -⟩ := h'.collecting.accounted_signed hnext hjudge
      cases hadd.symm.trans hadd'

omit [AggregateScheme Key Sig] in
/-- If the budget allows for it, a round starts with the roll call. -/
theorem requests_start (hbudget : s.set.validators.length ≤ s.budget) (moment : Moment)
    (network : σ) :
  (Round.start s.set moment network : Round σ Sig).requests s = s.set.firstRequests
  := by
  have hall : (List.range s.set.validators.length).take (s.budget - 0)
      = List.range s.set.validators.length := by
    apply List.take_of_length_le
    rwa [List.length_range]
  rw [requests, Round.start, hall, ValidatorSet.firstRequests]
  apply List.filterMap_congr
  intro i hi
  have htries : (List.replicate s.set.validators.length 0).getD i 0 = 0 := by
    rw [List.getD_eq_getElem?_getD, List.getElem?_replicate]
    split
    · rfl
    · rfl
  simp only [nodeFor, htries, Nat.zero_mod]

/-- A round starts with its first pass under way. -/
theorem start_underway
    (hq : HonestQuorum s.net s.set s.config s.message start network honest silent delay)
    (hbudget : s.set.validators.length ≤ s.budget) {moment : Moment}
    (hmoment : moment.now = start.now) :
  let r : Round σ Sig := Round.start s.set moment network
  Underway s start network honest silent delay [] (r.toSend s) r.credit
  := by
  intro r
  have hwaiting : (r.toSend s).waiting = s.set.firstRequests :=
    requests_start hbudget moment network
  have hopen : (r.toSend s).openRequests = r.requests s := List.append_nil _
  have hsub := (map_index_requests_sublist s r).trans (List.take_sublist ..)
  constructor
  · rw [hopen, List.append_nil]
    apply (start_ongoing s moment network).mono hsub.subperm
  · rw [hwaiting]
    apply RollCall.start
  · apply hmoment.ge
  · use start.now, hmoment.le
    constructor
    · apply Nat.add_le_add_left
      apply Nat.le_trans _ hq.inTime
      have hsum := (hsub.map delay).sum_le_sum fun _ _ => Nat.zero_le _
      rw [List.map_map] at hsum
      apply hsum
    · intro flight hflight
      cases hflight
  · intro flight hflight
    cases hflight
  · intro i hi
    right
    obtain ⟨v, node, hv, hnode⟩ := hq.listed i hi
    rw [hopen, requests_start hbudget]
    apply List.mem_map.mpr
    use ⟨i, node⟩
    constructor
    · apply List.mem_filterMap.mpr
      use i, List.mem_range.mpr (List.getElem?_eq_some_iff.mp hv).1
      simp [hv, hnode]
    · rfl

/-- An honest quorum makes a round end with the quorum. -/
theorem complete_meets
    (hq : HonestQuorum s.net s.set s.config s.message start network honest silent delay)
    (hdeadline : s.deadline = some (start.now + s.config.roundTimeout))
    (hbudget : s.set.validators.length ≤ s.budget) {moment : Moment}
    (hmoment : moment.now = start.now) :
  MeetsQuorum s.config.quorum s.set
    (attestations s.set s.message (complete s (Round.start s.set moment network)).trace)
  := by
  have hunderway := start_underway hq hbudget hmoment
  obtain ⟨f, credit, hcollect, hreached⟩ := hunderway.collect_reached hq hdeadline
  have hopen : ((Round.start s.set moment network : Round σ Sig).toSend s).openRequests
      = (Round.start s.set moment network : Round σ Sig).requests s := List.append_nil _
  have hover : ¬ (Round.start s.set moment network : Round σ Sig).isOver s = true := by
    obtain ⟨i, hi⟩ := hq.nonempty
    obtain ⟨v, _, hv, -⟩ := hq.listed i hi
    have hlt := (List.getElem?_eq_some_iff.mp hv).1
    rw [isOver, Bool.or_eq_true, not_or, List.isEmpty_iff, decide_eq_true_eq, Round.start,
      List.range_eq_nil]
    show ¬ s.set.validators.length = 0 ∧ ¬ s.budget ≤ 0
    omega
  have hsettled := complete_settled (start_ongoing s moment network)
  rw [hopen] at hcollect
  rw [complete_eq, if_neg hover, pass_of_final hcollect] at hsettled ⊢
  apply hsettled.isReached_iff.mp hreached

/-- A round in which the honest validators carry the quorum has a result that is not too large
for a message. -/
theorem exists_result_of_honestQuorum
    (hq : HonestQuorum s.net s.set s.config s.message start network honest silent delay)
    (hdeadline : s.deadline = some (start.now + s.config.roundTimeout))
    (hsize : s.message.bytes.length + (s.set.validators.length + 7) / 8 + 104 ≤ Wire.maxSize)
    (hbudget : s.set.validators.length ≤ s.budget) {moment : Moment}
    (hmoment : moment.now = start.now) :
  ∃ a, (complete s (Round.start s.set moment network)).result s = .ok a
  := by
  have hsettled := complete_settled (start_ongoing s moment network)
  apply hsettled.exists_result (complete_meets hq hdeadline hbudget hmoment) hsize

end Round

/-- If the honest validators carry the quorum, a round has a result, in whatever order the
answers come, as long as the message is small enough to be signed and the budget allows for a
request to each validator. -/
theorem honest_quorum_suffices {σ Key Sig : Type} [AggregateScheme Key Sig] (net : Network σ Sig)
    (set : ValidatorSet Key) (config : RoundConfig) (message : Message) (budget : Nat)
    (start : Moment) (network : σ)
    (schedule : FanOut.Schedule net set message (max 1 config.maxConcurrency)
      (some (start.now + config.roundTimeout)))
    {honest silent : Signers} {delay : Nat → Nat}
    (hquorum : HonestQuorum net set config message start network honest silent delay)
    (hsize : message.bytes.length + (set.validators.length + 7) / 8 + 104 ≤ Wire.maxSize)
    (hbudget : set.validators.length ≤ budget) :
  ∃ r, (aggregate net set config message budget start network schedule).1 = .ok r
  := by
  let s : Round.Setting σ Key Sig :=
    { net, set, message, config, budget, deadline := some (start.now + config.roundTimeout)
      schedule }
  apply Round.exists_result_of_honestQuorum (s := s) hquorum rfl hsize hbudget start.now_ready

/-! ### A round with one honest validator -/

namespace Residue

/-- Nodes that answer at once with the signature of a key. -/
def prompt (key : Residue) : Network Unit Residue where
  ask _ _ message network := (⟨some 0, .ok (sign key message.id.bytes)⟩, network)

/-- A validator with a node and the weight one. -/
def validator (key : Residue) : Validator Residue := ⟨key, 1, [default]⟩

section Sole

variable {v : Validator Residue} (hkey : v.key ≠ 0) {node : NodeId}
variable (hnode : v.nodes[0]? = some node) (config : RoundConfig)

include hkey hnode

/-- The only validator carries the quorum if its node answers at once, whatever its weight. -/
theorem honestQuorum_sole (message : Message) (start : Moment) :
  HonestQuorum (prompt v.key) (.sole v) config message start () (.ofList [0]) .empty fun _ => 0
  := by
  constructor
  · intro i hi
    obtain rfl := List.mem_singleton.mp ((Signers.contains_ofList _ _).mp hi)
    use v, node, rfl
  · rintro i _ hi ⟨-, -, -⟩
    rw [List.mem_singleton.mp ((Signers.contains_ofList _ _).mp hi)]
    use v, sign v.key message.id.bytes, rfl, rfl
    apply verify_sign hkey
  · rintro i _ - ⟨-, -, -⟩
    use 0, rfl
  · intro i _
    apply Signers.contains_empty
  · show 0 < max 1 config.maxConcurrency
    omega
  · apply Nat.zero_le
  · use 0
    rfl
  · rw [ValidatorSet.markedWeight_sole]
    apply decide_eq_true
    apply Nat.mul_le_mul_left v.weight.toNat config.quorum.le

/-- A round with one validator that answers at once meets the quorum. -/
theorem meetsQuorum_sole (message : Message) {budget : Nat} (hbudget : 0 < budget) :
  MeetsQuorum config.quorum (.sole v) (attestations (.sole v) message
    (aggregate (prompt v.key) (.sole v) config message budget {} ()).2.trace)
  := by
  let s : Round.Setting Unit Residue Residue :=
    { net := prompt v.key, set := .sole v, message, config, budget,
      deadline := some (0 + config.roundTimeout) }
  have hhonest := honestQuorum_sole hkey hnode config message {}
  apply Round.complete_meets (s := s) hhonest rfl hbudget rfl

/-- A round with one validator that answers at once has a result. -/
theorem exists_aggregate_sole {message : Message}
    (hsize : message.bytes.length + 105 ≤ Wire.maxSize) {budget : Nat} (hbudget : 0 < budget) :
  ∃ r, (aggregate (prompt v.key) (.sole v) config message budget {} ()).1 = .ok r
  := by
  let s : Round.Setting Unit Residue Residue :=
    { net := prompt v.key, set := .sole v, message, config, budget,
      deadline := some (0 + config.roundTimeout) }
  have hsettled := Round.complete_settled (Round.start_ongoing s {} ())
  apply hsettled.exists_result (meetsQuorum_sole hkey hnode config message hbudget)
  have hlength : s.set.validators.length = 1 := rfl
  rw [hlength]
  apply hsize

omit hkey hnode in
/-- A result of a round of the only validator is signed by it. -/
theorem marked_of_aggregate {σ : Type} {net : Network σ Residue} {config : RoundConfig}
    {message : Message} {budget : Nat} {start : Moment} {network : σ} {r : Attested}
    (h : (aggregate net (.sole v) config message budget start network).1 = .ok r) :
  (ValidatorSet.sole v).marked r.message.signers = [v]
  := by
  obtain ⟨p, _, hp, hmeets, -, -, hmade⟩ := exists_isMadeOf _ _ _ _ _ _ _ _ h
  obtain ⟨a, ha⟩ := List.exists_mem_of_ne_nil p hmeets.1
  have hindex : a.index < 1 := hp.index_lt (List.mem_map_of_mem ha)
  apply ValidatorSet.marked_sole_of_contains
  apply (hmade.contains_iff 0).mpr
  use a, ha, by omega

end Sole

/-! ### A round with one honest validator among three -/

/-- The key of a validator, which is not zero. -/
def keyAt (i : Nat) : Residue := (i + 1 : ℕ)

/-- The node of a validator. -/
def nodeAt (i : Nat) : NodeId := ⟨.ofNat 20 i⟩

/-- Three validators, of which the first carries seven tenths of the weight. -/
def trio : ValidatorSet Residue where
  validators := [⟨keyAt 0, 7, [nodeAt 0]⟩, ⟨keyAt 1, 2, [nodeAt 1]⟩, ⟨keyAt 2, 1, [nodeAt 2]⟩]
  total := 10
  covered := by decide

/-- The first node signs, the second one forges a signature, and no other one answers. -/
def mixed : Network Unit Residue where
  ask _ node message network :=
    (if node = nodeAt 0 then ⟨some 5, .ok (sign (keyAt 0) message.id.bytes)⟩
      else if node = nodeAt 1 then ⟨some 0, .ok 0⟩
      else ⟨none, .error .timeout⟩, network)

theorem firstRequests_trio :
  trio.firstRequests = [⟨0, nodeAt 0⟩, ⟨1, nodeAt 1⟩, ⟨2, nodeAt 2⟩]
  := rfl

/-- A first reply is one of the three. -/
theorem firstReply_mixed {message : Message} {config : RoundConfig} {start : Moment} {i : Nat}
    {reply : Reply Residue} (h : FirstReply mixed trio config message start () i reply) :
  (i = 0 ∧ reply = ⟨some 5, .ok (sign (keyAt 0) message.id.bytes)⟩) ∨
    (i = 1 ∧ reply = ⟨some 0, .ok 0⟩) ∨ (i = 2 ∧ reply = ⟨none, .error .timeout⟩)
  := by
  obtain ⟨hcalled, -, -⟩ := h
  have hmem := hcalled.mem_firstRequests _ (List.mem_cons_self ..)
  rw [firstRequests_trio] at hmem
  simp only [List.mem_cons, List.not_mem_nil, or_false] at hmem
  rcases hmem with rfl | rfl | rfl
  · left
    exact ⟨rfl, rfl⟩
  · right
    left
    exact ⟨rfl, rfl⟩
  · right
    right
    exact ⟨rfl, rfl⟩

/-- The first of the three validators suffices, also while the last one is waited for. -/
theorem honestQuorum_mixed (message : Message) :
  HonestQuorum mixed trio { maxConcurrency := 2 } message {} () (.ofList [0]) (.ofList [2])
    fun _ => 5
  := by
  constructor
  · intro i hi
    obtain rfl := List.mem_singleton.mp ((Signers.contains_ofList _ _).mp hi)
    exact ⟨⟨keyAt 0, 7, [nodeAt 0]⟩, nodeAt 0, rfl, rfl⟩
  · intro i reply hi hreply
    obtain rfl := List.mem_singleton.mp ((Signers.contains_ofList _ _).mp hi)
    rcases firstReply_mixed hreply with ⟨-, rfl⟩ | ⟨h, -⟩ | ⟨h, -⟩
    · use ⟨keyAt 0, 7, [nodeAt 0]⟩, sign (keyAt 0) message.id.bytes, rfl, rfl
      apply verify_sign
      decide
    · cases h
    · cases h
  · intro i reply hi hreply
    rcases firstReply_mixed hreply with ⟨-, rfl⟩ | ⟨-, rfl⟩ | ⟨rfl, -⟩
    · use 5, rfl
    · use 0, rfl
      decide
    · rw [← Bool.not_eq_true, Signers.contains_ofList] at hi
      exact absurd (List.mem_singleton_self 2) hi
  · intro i hi
    obtain rfl := List.mem_singleton.mp ((Signers.contains_ofList _ _).mp hi)
    rfl
  · decide
  · decide
  · use 0
    rfl
  · decide

end Residue

/-- One honest validator that carries the quorum suffices. -/
theorem honest_quorum_suffices_mixed :
  ∃ message : Message,
    HonestQuorum Residue.mixed Residue.trio { maxConcurrency := 2 } message {} () (.ofList [0])
      (.ofList [2]) (fun _ => 5) ∧
    message.bytes.length + (Residue.trio.validators.length + 7) / 8 + 104 ≤ Wire.maxSize ∧
    Residue.trio.validators.length ≤ 3 ∧
    ∃ r, (aggregate Residue.mixed Residue.trio { maxConcurrency := 2 } message 3 {} ()).1 = .ok r
  := by
  obtain ⟨message, hmessage⟩ := Message.exists_make 1 .zero
    (show ([] : Bytes).length + 42 ≤ Wire.maxSize by decide)
  obtain ⟨-, -, hpayload⟩ := (Message.make_eq_ok_iff ..).mp hmessage
  have hquorum := Residue.honestQuorum_mixed message
  have hsize : message.bytes.length + (Residue.trio.validators.length + 7) / 8 + 104
      ≤ Wire.maxSize := by
    rw [message.length_bytes, hpayload]
    decide
  have hbudget : Residue.trio.validators.length ≤ 3 := by decide
  use message, hquorum, hsize, hbudget
  apply honest_quorum_suffices _ _ _ _ _ _ _ _ hquorum hsize hbudget

end Interchain
