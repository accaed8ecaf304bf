import Interchain.Proofs.Round.Aggregation
import Interchain.Proofs.Round.Requests

/-!
# The discipline of a round

While a pass goes on its requests are `Tended` to, and between two passes a round is `Tidy`:
those that wait may be sent, and those that are pending may be asked again.  So whatever the
nodes answer, requests keep to the budget and to the turns of the nodes, and only a transient
failure makes a round ask a validator again, as `Round.requests_disciplined` says.
-/

namespace Interchain.Round

variable {σ Key Sig : Type} [AggregateScheme Key Sig]

/-! ### The requests of a pass -/

/-- The requests of a pass are tended to while others may be asked later: what happened is
orderly, those that wait may be sent, those under way await their answers, and the requests of
the pass that were sent came after those of the past. -/
structure Tended (s : Setting σ Key Sig) (origin : σ) (past batch : List Request)
    (others : List Nat) (f : FanOut σ Sig) (credit : Credit Sig) : Prop where
  collecting : Collecting s (f.openRequests.map (·.index) ++ others) f.trace credit
  orderly : Orderly s.config.quorum s.set s.message f.trace
  waiting : ∀ q ∈ f.waiting, IsFree q.index f.trace ∧ HasTurn s.set q f.trace
  flying : ∀ q ∈ f.flying.map (·.request), IsAwaited q f.trace
  others : ∀ i ∈ others, IsFree i f.trace
  made : ∃ made, requestsMade f.trace = past ++ made ∧ made ++ f.waiting = batch
  network : f.network = networkAfter s.net s.message origin f.trace

variable {s : Setting σ Key Sig} {origin : σ} {past batch : List Request} {others : List Nat}
variable {f : FanOut σ Sig} {credit : Credit Sig}

/-- The requests that are open are for different validators, of which none may be asked
later. -/
theorem Tended.index_ne (h : Tended s origin past batch others f credit) {r : Request}
    {rest : List Request} (hopen : f.openRequests.Perm (r :: rest)) :
  (∀ q ∈ rest, r.index ≠ q.index) ∧ ∀ i ∈ others, r.index ≠ i
  := by
  have hnodup := (List.nodup_append.mp h.collecting.nodup).2.1
  rw [((hopen.map (·.index)).append_right others).nodup_iff, List.map_cons, List.cons_append,
    List.nodup_cons, List.mem_append, not_or] at hnodup
  constructor
  · intro q hq hindex
    apply hnodup.1.1
    rw [hindex]
    apply List.mem_map_of_mem hq
  · rintro _ hi rfl
    apply hnodup.1.2 hi

/-- The first of the requests that wait may be sent. -/
theorem Tended.sendFirst (h : Tended s origin past batch others f credit) {r : Request}
    {rest : List Request} (hwaiting : f.waiting = r :: rest) :
  Tended s origin past batch others (f.sendFirst s.net s.set s.message r rest) credit
  := by
  have hfirst : f.openRequests = r :: (rest ++ f.flying.map (·.request)) := by
    rw [FanOut.openRequests, hwaiting, List.cons_append]
  obtain ⟨hopen, hothers⟩ := h.index_ne (.of_eq hfirst)
  obtain ⟨hfree, hturn⟩ := h.waiting r (by rw [hwaiting]; apply List.mem_cons_self)
  obtain ⟨v, hv, -⟩ := id hturn
  have hlt := (List.getElem?_eq_some_iff.mp hv).1
  have hsent := FanOut.sendFirst_eq s.net s.set s.message hlt rest f
  have htrace : (f.sendFirst s.net s.set s.message r rest).trace = .asked f.now r :: f.trace := by
    rw [hsent]
  constructor
  · apply h.collecting.sendFirst hwaiting
  · rw [htrace]
    apply h.orderly.asked f.now r hfree hturn
    apply h.collecting.unmet _ (List.prefix_refl _)
  · intro q hq
    have hne := hopen q (List.mem_append_left _ hq)
    obtain ⟨hfree, hturn⟩ := h.waiting q (by rw [hwaiting]; apply List.mem_cons_of_mem _ hq)
    rw [htrace]
    constructor
    · apply hfree.cons rfl hne
    · apply hturn.asked f.now hne
  · intro q hq
    rw [FanOut.flying_sendFirst] at hq
    rw [htrace]
    rcases List.mem_append.mp hq with hq | hq
    · apply (h.flying q hq).cons rfl (hopen q (List.mem_append_right _ hq))
    · rw [List.mem_singleton.mp hq]
      apply isAwaited_asked
  · intro i hi
    rw [htrace]
    apply (h.others i hi).cons rfl (hothers i hi)
  · obtain ⟨made, hmade, hbatch⟩ := h.made
    use made ++ [r]
    rw [htrace, requestsMade_asked, hmade, List.append_assoc]
    use rfl
    rw [List.append_assoc, ← hbatch, hwaiting]
    rfl
  · rw [hsent, h.network]
    rfl

/-- Requests that wait may be sent one after another. -/
theorem Tended.sends (h : Tended s origin past batch others f credit) {limit : Nat}
    {g : FanOut σ Sig} (hsends : FanOut.Sends s.net s.set s.message limit f g) :
  Tended s origin past batch others g credit
  := by
  induction hsends with
  | done f => exact h
  | first hwaiting _ _ ih => apply ih (h.sendFirst hwaiting)

/-- The next answer is one to a request under way, after others were sent. -/
theorem Tended.next (h : Tended s origin past batch others f credit) {f' : FanOut σ Sig}
    {flight : Flight Sig} (hnext : s.schedule.next f = (some flight, f')) :
  ∃ g before after moment, Tended s origin past batch others g credit ∧
    g.flying = before ++ flight :: after ∧
    f' = { g with toMoment := moment, flying := before ++ after }
  := by
  have hproceeds := s.schedule.proceeds f
  rw [hnext] at hproceeds
  cases hproceeds with
  | @comes g _ _ hsends hcomes =>
      obtain ⟨before, after, moment, hflying, hf⟩ := hcomes.exists_flying
      use g, before, after, moment, h.sends hsends, hflying, hf

/-- When no answer comes, all that was sent was sent in order. -/
theorem Tended.next_none (h : Tended s origin past batch others f credit) {f' : FanOut σ Sig}
    (hnext : s.schedule.next f = (none, f')) :
  Tended s origin past batch others f' credit
  := by
  have hproceeds := s.schedule.proceeds f
  rw [hnext] at hproceeds
  cases hproceeds with
  | silent hsends => apply h.sends hsends

/-- An answer to a request under way is in order. -/
theorem Tended.orderly_note {g : FanOut σ Sig} (h : Tended s origin past batch others g credit)
    {before after : List (Flight Sig)} {flight : Flight Sig}
    (hflying : g.flying = before ++ flight :: after) {f : FanOut σ Sig}
    (htrace : f.trace = g.trace) :
  Orderly s.config.quorum s.set s.message (f.note s.set s.message flight).trace
  := by
  have hawaited : IsAwaited flight.request g.trace := by
    apply h.flying
    rw [hflying]
    simp
  rw [FanOut.note, htrace]
  apply Orderly.answered (h.orderly.replied f.now flight.request flight.answer hawaited)

/-- After an answer all other requests are tended to as before, and the validator may be asked
later if it failed and the failure may pass. -/
theorem Tended.note {g : FanOut σ Sig} (h : Tended s origin past batch others g credit)
    {before after : List (Flight Sig)} {flight : Flight Sig}
    (hflying : g.flying = before ++ flight :: after) (moment : Moment) {f : FanOut σ Sig}
    (hf : f = { g with toMoment := moment, flying := before ++ after })
    {others' : List Nat} {credit' : Credit Sig}
    (hcollecting : Collecting s (f.openRequests.map (·.index) ++ others')
      (f.note s.set s.message flight).trace credit')
    (hothers : ∀ i ∈ others', i ∈ others ∨ i = flight.request.index ∧
      (Event.replied f.now flight.request flight.answer).isTransientFailure = true) :
  Tended s origin past batch others' (f.note s.set s.message flight) credit'
  := by
  have hopen : g.openRequests.Perm (flight.request :: f.openRequests) := by
    rw [hf]
    apply FanOut.openRequests_perm hflying
  obtain ⟨hne, hothers_ne⟩ := h.index_ne hopen
  have htrace : f.trace = g.trace := by rw [hf]
  have hwaiting : f.waiting = g.waiting := by rw [hf]
  constructor
  · apply hcollecting
  · apply h.orderly_note hflying htrace
  · intro q hq
    obtain ⟨hfree, hturn⟩ := h.waiting q (hwaiting ▸ hq)
    rw [FanOut.note, htrace]
    constructor
    · apply hfree.cons rfl
      apply hne q (List.mem_append_left _ hq)
    · apply hturn
  · intro q hq
    have hfewer : f.flying.Sublist g.flying := by
      rw [hf, hflying]
      apply (List.sublist_cons_self ..).append_left
    rw [FanOut.note, htrace]
    apply (h.flying q ((hfewer.map _).subset hq)).cons rfl
    apply hne q (List.mem_append_right _ hq)
  · intro i hi
    rw [FanOut.note, htrace]
    rcases hothers i hi with hi | ⟨rfl, htransient⟩
    · apply (h.others i hi).cons rfl (hothers_ne i hi)
    · apply isFree_of_isTransientFailure _ htransient
      rfl
  · rw [FanOut.note, htrace]
    show ∃ made, requestsMade g.trace = past ++ made ∧ made ++ f.waiting = batch
    rw [hwaiting]
    apply h.made
  · rw [hf]
    apply h.network

/-- What is judged to be transient is a failure that may pass. -/
theorem isTransientFailure_of_judge {set : ValidatorSet Key} {message : Message}
    {flight : Flight Sig} {i : Nat} {e : MessageError}
    (hjudge : FanOut.judge set message flight = .transient i e) (time : Nat) :
  i = flight.request.index ∧
    (Event.replied time flight.request flight.answer).isTransientFailure = true
  := by
  rw [FanOut.judge] at hjudge
  cases hanswer : flight.answer with
  | ok sig =>
      simp only [hanswer] at hjudge
      split at hjudge
      · split at hjudge
        · cases hjudge
        · cases hjudge
      · cases hjudge
      · next h => cases h
  | error e' =>
      simp only [hanswer] at hjudge
      split at hjudge
      · next htransient =>
        cases hjudge
        use rfl, htransient
      · cases hjudge

/-- After an answer those may be asked again who might before, and the validator that was asked
if it failed and the failure may pass. -/
theorem Takes.mem_retry {retry retry' : List Nat} {f' : FanOut σ Sig} {credit' : Credit Sig}
    (h : Takes s f credit retry f' credit' retry') {flight : Flight Sig} {g : FanOut σ Sig}
    (hnext : s.schedule.next f = (some flight, g)) {i : Nat} (hi : i ∈ retry') :
  i ∈ retry ∨ i = flight.request.index ∧
    (Event.replied g.now flight.request flight.answer).isTransientFailure = true
  := by
  cases h with
  | signed _ _ _ => exact .inl hi
  | rejected _ _ => exact .inl hi
  | transient hnext' hjudge =>
      cases hnext.symm.trans hnext'
      apply (List.mem_append.mp hi).imp_right
      intro hi
      rw [List.mem_singleton.mp hi]
      apply isTransientFailure_of_judge hjudge

/-- The requests of a pass are tended to while answers are taken. -/
theorem Tended.takes {retry retry' : List Nat} {f' : FanOut σ Sig} {credit' : Credit Sig}
    (h : Tended s origin past batch (others ++ retry) f credit)
    (ht : Takes s f credit retry f' credit' retry') :
  Tended s origin past batch (others ++ retry') f' credit'
  := by
  have hcollecting := h.collecting.takes ht
  obtain ⟨flight, f'', hnext, rfl⟩ := ht.exists_next
  obtain ⟨g, before, after, moment, hg, hflying, hf⟩ := h.next hnext
  apply hg.note hflying moment hf hcollecting
  intro i hi
  rcases List.mem_append.mp hi with hi | hi
  · left
    apply List.mem_append_left _ hi
  · apply (ht.mem_retry hnext hi).imp_left (List.mem_append_right _)

/-- How a pass ends: what happened is orderly, and the requests that were sent are the first of
the pass.  If it is not the last, they are all of them. -/
def Sent (s : Setting σ Key Sig) (origin : σ) (past batch : List Request) (others : List Nat) :
    PassEnd × FanOut σ Sig × Credit Sig → Prop
  | (.final _, f, _) => Orderly s.config.quorum s.set s.message f.trace ∧
      (∃ made, requestsMade f.trace = past ++ made ∧ made <+: batch) ∧
      f.network = networkAfter s.net s.message origin f.trace
  | (.completed retry, f, credit) => Tended s origin past batch (others ++ retry) f credit ∧
      f.waiting = []

/-- A pass may end with an answer. -/
theorem Tended.sent_note (h : Tended s origin past batch others f credit) {f' : FanOut σ Sig}
    {flight : Flight Sig} (hnext : s.schedule.next f = (some flight, f'))
    {failure : Option MessageError} {credit' : Credit Sig} {others' : List Nat} :
  Sent s origin past batch others' (.final failure, f'.note s.set s.message flight, credit')
  := by
  obtain ⟨g, before, after, moment, hg, hflying, hf⟩ := h.next hnext
  have htrace : f'.trace = g.trace := by rw [hf]
  obtain ⟨made, hmade, hbatch⟩ := hg.made
  use hg.orderly_note hflying htrace
  constructor
  · use made
    constructor
    · rw [← hmade, FanOut.note, htrace]
      rfl
    · rw [← hbatch]
      apply List.prefix_append
  · rw [hf]
    apply hg.network

/-- However the answers come, the requests of a pass are tended to until it ends. -/
theorem collect_sent (h : Tended s origin past batch others f credit) :
  Sent s origin past batch others (collect s f.openRequests.length f credit [])
  := by
  obtain ⟨m, f', credit', retry', ⟨hm, h'⟩, hends⟩ := collect_invariant s
    (P := fun n f credit retry => f.openRequests.length = n ∧
      Tended s origin past batch (others ++ retry) f credit)
    (fun _ _ _ _ _ _ _ h ht =>
      ⟨Nat.succ.inj (ht.length_openRequests.symm.trans h.1), h.2.takes ht⟩)
    f.openRequests.length f credit [] ⟨rfl, by rwa [List.append_nil]⟩
  generalize collect s f.openRequests.length f credit [] = result at hends
  cases hends with
  | completed =>
      use h'
      apply (List.append_eq_nil_iff.mp (List.length_eq_zero_iff.mp hm)).1
  | silent hnext =>
      have hnone := h'.next_none hnext
      obtain ⟨made, hmade, hbatch⟩ := hnone.made
      use hnone.orderly
      constructor
      · use made, hmade
        rw [← hbatch]
        apply List.prefix_append
      · apply hnone.network
  | reached hnext => exact h'.sent_note hnext
  | overflowed hnext => exact h'.sent_note hnext

/-! ### The passes of a round -/

/-- A round is tidy if what happened is orderly, those that are pending may be asked, and the
requests are counted right. -/
structure Tidy (s : Setting σ Key Sig) (origin : σ) (r : Round σ Sig) : Prop where
  ongoing : Ongoing s r
  orderly : Orderly s.config.quorum s.set s.message r.trace
  free : ∀ i ∈ r.pending, IsFree i r.trace
  tries : r.tries
    = (List.range s.set.validators.length).map fun i => (nodesAsked i r.trace).length
  attempts : r.attempts = (requestsMade r.trace).length
  budget : r.attempts ≤ s.budget
  network : r.network = networkAfter s.net s.message origin r.trace

omit [AggregateScheme Key Sig] in
/-- Requests count for their validators. -/
theorem foldl_modify_tries (requests : List Request) (n : Nat) (count : Nat → Nat) :
  requests.foldl (fun t q => t.modify q.index (· + 1)) ((List.range n).map count)
    = (List.range n).map fun i => count i + (requests.filter (·.index = i)).length
  := by
  induction requests generalizing count with
  | nil => rfl
  | cons q requests ih =>
      have hmodify : ((List.range n).map count).modify q.index (· + 1)
          = (List.range n).map fun i => count i + if q.index = i then 1 else 0 := by
        apply List.ext_getElem?
        intro i
        rw [List.getElem?_modify, List.getElem?_map, List.getElem?_map]
        rcases Nat.lt_or_ge i n with hi | hi
        · rw [List.getElem?_range hi]
          by_cases hq : q.index = i
          · simp [hq]
          · simp [hq]
        · rw [List.getElem?_eq_none (by rwa [List.length_range])]
          rfl
      rw [List.foldl_cons, hmodify, ih]
      apply List.map_congr_left
      intro i _
      by_cases hq : q.index = i
      · simp [hq]
        omega
      · simp [hq]

/-- A request of the next pass is for a pending validator, and to the node whose turn it is. -/
theorem Tidy.of_mem_requests {r : Round σ Sig} (h : Tidy s origin r) {q : Request}
    (hq : q ∈ r.requests s) :
  q.index ∈ r.pending ∧ HasTurn s.set q r.trace
  := by
  obtain ⟨i, hi, hnode⟩ := List.mem_filterMap.mp hq
  obtain ⟨v, hv, hnode⟩ := Option.bind_eq_some_iff.mp hnode
  obtain ⟨node, hturn, hnode⟩ := Option.bind_eq_some_iff.mp hnode
  cases hnode
  obtain ⟨hlt, -⟩ := List.getElem?_eq_some_iff.mp hv
  have htries : r.tries.getD i 0 = (nodesAsked i r.trace).length := by
    rw [h.tries, List.getD_eq_getElem?_getD, List.getElem?_map, List.getElem?_range hlt]
    rfl
  have hlength : max 1 v.nodes.length = v.nodes.length := by
    have := (List.getElem?_eq_some_iff.mp hturn).1
    omega
  rw [htries, hlength] at hturn
  exact ⟨List.mem_of_mem_take hi, v, hv, hturn⟩

/-- In a tidy round the next pass may begin. -/
theorem Tidy.tended {r : Round σ Sig} (h : Tidy s origin r) :
  Tended s origin (requestsMade r.trace) (r.requests s) (r.deferred s) (r.toSend s) r.credit
  := by
  have hopen : (r.toSend s).openRequests = r.requests s := List.append_nil _
  constructor
  · rw [hopen]
    apply h.ongoing.mono (requests_deferred_sublist s r).subperm
  · apply h.orderly
  · intro q hq
    obtain ⟨hpending, hturn⟩ := h.of_mem_requests hq
    exact ⟨h.free _ hpending, hturn⟩
  · intro q hq
    cases hq
  · intro i hi
    apply h.free i (List.mem_of_mem_drop hi)
  · use [], (List.append_nil _).symm
    rfl
  · apply h.network

/-- A pause leaves a round tidy. -/
theorem Tidy.pause {r : Round σ Sig} (h : Tidy s origin r) :
  Tidy s origin (pause s r).2
  := by
  obtain ⟨moment, hpause⟩ := exists_pause_eq s r
  rw [hpause]
  constructor
  · exact ⟨h.ongoing.toCollecting, h.ongoing.sound⟩
  · apply h.orderly
  · apply h.free
  · apply h.tries
  · apply h.attempts
  · apply h.budget
  · apply h.network

/-- A pass of a tidy round ends with its requests sent in order. -/
theorem Tidy.sent {r : Round σ Sig} (h : Tidy s origin r) :
  Sent s origin (requestsMade r.trace) (r.requests s) (r.deferred s)
    (collect s (r.requests s).length (r.toSend s) r.credit [])
  := by
  have hopen : (r.toSend s).openRequests = r.requests s := List.append_nil _
  have hsent := collect_sent h.tended
  rwa [hopen] at hsent

/-- The budget allows for the requests of the next pass. -/
theorem Tidy.length_requests_le {r : Round σ Sig} (h : Tidy s origin r) :
  (requestsMade r.trace ++ r.requests s).length ≤ s.budget
  := by
  have hle : (r.requests s).length ≤ s.budget - r.attempts := by
    apply Nat.le_trans (List.length_filterMap_le ..)
    rw [List.length_take]
    apply Nat.min_le_left
  have hbudget := h.budget
  rw [List.length_append, ← h.attempts]
  omega

/-- When all requests of a pass are answered, the round is tidy. -/
theorem Tidy.whenAnswered {r : Round σ Sig} (h : Tidy s origin r) {f : FanOut σ Sig}
    {credit : Credit Sig} {retry : List Nat}
    (hcollect : collect s (r.requests s).length (r.toSend s) r.credit []
      = (.completed retry, f, credit)) :
  Tidy s origin (r.whenAnswered s f credit retry)
  := by
  have hsent := h.sent
  rw [hcollect] at hsent
  obtain ⟨htended, hwaiting⟩ := hsent
  have hmade : requestsMade f.trace = requestsMade r.trace ++ r.requests s := by
    obtain ⟨made, hmade, hbatch⟩ := htended.made
    rw [hmade, ← hbatch, hwaiting, List.append_nil]
  constructor
  · apply h.ongoing.whenAnswered hcollect
  · apply htended.orderly
  · intro i hi
    apply htended.others
    apply (List.mergeSort_perm ..).mem_iff.mp hi
  · show (r.requests s).foldl (fun t q => t.modify q.index (· + 1)) r.tries = _
    rw [h.tries, foldl_modify_tries]
    apply List.map_congr_left
    intro i _
    show _ = (nodesAsked i f.trace).length
    rw [nodesAsked, nodesAsked, hmade, List.length_map, List.length_map, List.filter_append,
      List.length_append]
  · show r.attempts + (r.requests s).length = (requestsMade f.trace).length
    rw [hmade, List.length_append, h.attempts]
  · have hle := h.length_requests_le
    rw [List.length_append, ← h.attempts] at hle
    apply hle
  · apply htended.network

/-- What was done in a round so far: requests were sent in order, within the budget, and the
network is as they leave it. -/
structure Proper (s : Setting σ Key Sig) (origin : σ) (r : Round σ Sig) : Prop where
  orderly : Orderly s.config.quorum s.set s.message r.trace
  budget : (requestsMade r.trace).length ≤ s.budget
  network : r.network = networkAfter s.net s.message origin r.trace

/-- A tidy round is proper. -/
theorem Tidy.proper {r : Round σ Sig} (h : Tidy s origin r) :
  Proper s origin r
  := by
  constructor
  · apply h.orderly
  · rw [← h.attempts]
    apply h.budget
  · apply h.network

/-- The requests of a pass are sent in order after those made before, and if the round goes on
it is tidy. -/
theorem Tidy.pass {r : Round σ Sig} (h : Tidy s origin r) :
  Proper s origin (pass s r).2 ∧
    (∃ made, requestsMade (Round.pass s r).2.trace = requestsMade r.trace ++ made ∧
      made <+: r.requests s) ∧
    ((Round.pass s r).1 = true → Tidy s origin (Round.pass s r).2)
  := by
  have hsent := h.sent
  obtain ⟨f, credit, ⟨failure, hcollect, hpass⟩ | ⟨retry, hcollect, hpass⟩⟩ := pass_cases s r
  · rw [hcollect] at hsent
    obtain ⟨horderly, ⟨made, hmade, hbatch⟩, hnetwork⟩ := hsent
    rw [hpass]
    constructor
    · constructor
      · apply horderly
      · have hle := h.length_requests_le
        have hlength := hbatch.length_le
        show (requestsMade f.trace).length ≤ s.budget
        rw [List.length_append] at hle
        rw [hmade, List.length_append]
        omega
      · apply hnetwork
    · use ⟨made, hmade, hbatch⟩
      intro hmore
      cases hmore
  · have hpause := (h.whenAnswered hcollect).pause
    rw [hcollect] at hsent
    obtain ⟨made, hmade, hbatch⟩ := hsent.1.made
    have htrace : (Round.pause s (r.whenAnswered s f credit retry)).2.trace = f.trace := by
      obtain ⟨moment, hmoment⟩ := exists_pause_eq s (r.whenAnswered s f credit retry)
      rw [hmoment]
      rfl
    rw [hpass]
    use hpause.proper
    constructor
    · use made
      rw [htrace, hmade, ← hbatch]
      use rfl
      apply List.prefix_append
    · intro _
      apply hpause

/-- At its start a round is tidy. -/
theorem start_tidy (s : Setting σ Key Sig) (moment : Moment) (network : σ) :
  Tidy s network (start s.set moment network)
  := by
  constructor
  · apply start_ongoing
  · apply Orderly.nil
  · intro i _ event hevent
    cases hevent
  · show List.replicate s.set.validators.length 0 = _
    apply Eq.symm
    apply List.eq_replicate_iff.mpr
    constructor
    · rw [List.length_map, List.length_range]
    · intro count hcount
      obtain ⟨i, -, rfl⟩ := List.mem_map.mp hcount
      rfl
  · rfl
  · apply Nat.zero_le
  · rfl

/-- What was done in a round is proper when it ends. -/
theorem Tidy.complete {r : Round σ Sig} (h : Tidy s origin r) :
  Proper s origin (complete s r)
  := by
  apply complete_invariant s (P := Tidy s origin)
  · intro r h _
    apply h.proper
  · intro r h _ hmore
    apply h.pass.2.2 hmore
  · intro r h _ _
    apply h.pass.1
  · apply h

/-! ### What requests keep to -/

/-- What the requests of a round keep to, whatever the nodes answer. -/
structure IsDisciplined (s : Setting σ Key Sig) (trace : List (Event Sig)) : Prop where
  /-- No more requests are sent than there may be. -/
  budget : (requestsMade trace).length ≤ s.budget
  /-- The nodes of a validator are asked in turn, and the first again after the last. -/
  turn : ∀ i k node, (nodesAsked i trace)[k]? = some node →
    ∃ v, s.set.validators[i]? = some v ∧ v.nodes[k % v.nodes.length]? = some node
  /-- A validator whose answer is no transient failure is not asked again. -/
  final : ∀ after time request answer before,
    trace = after ++ .replied time request answer :: before →
    (Event.replied time request answer).isTransientFailure = false →
    ∀ q ∈ requestsMade after, q.index ≠ request.index
  /-- The last that is heard of a validator before it is asked again is a transient failure. -/
  again : ∀ after time request before, trace = after ++ .asked time request :: before →
    ∀ q ∈ requestsMade before, q.index = request.index →
    ∃ time' q' e, latest? request.index before = some (.replied time' q' (.error e)) ∧
      e.isTransient = true
  /-- Nothing is requested once the quorum is met. -/
  met : ∀ after before, trace = after ++ before →
    MeetsQuorum s.config.quorum s.set (attestations s.set s.message before) →
    requestsMade after = []

/-- Proper requests keep to the discipline. -/
theorem Proper.isDisciplined {r : Round σ Sig} (h : Proper s origin r) :
  IsDisciplined s r.trace
  := by
  constructor
  · apply h.budget
  · intro i k node hnode
    apply h.orderly.turn hnode
  · intro after time request answer before htrace hfinal
    have horderly := h.orderly
    rw [htrace] at horderly
    apply horderly.not_asked_again hfinal
  · intro after time request before htrace q hq hindex
    have horderly := h.orderly
    rw [htrace] at horderly
    apply horderly.asked_again hq hindex
  · intro after before htrace hmeets
    have horderly := h.orderly
    rw [htrace] at horderly
    apply horderly.requestsMade_of_meets hmeets

/-- Whatever the nodes answer, and in whatever order, the requests of a round keep to the
discipline, the network has had no others, and none of its passes asks a validator twice. -/
theorem requests_disciplined (s : Setting σ Key Sig) (moment : Moment) (network : σ) :
  let r := start s.set moment network
  IsDisciplined s (complete s r).trace ∧
  (complete s r).network = networkAfter s.net s.message network (complete s r).trace ∧
  ∀ q, Reaches s r q → ¬ q.isOver s = true →
    ∃ made, requestsMade (pass s q).2.trace = requestsMade q.trace ++ made ∧
      (made.map (·.index)).Nodup
  := by
  intro r
  have hr : Tidy s network r := start_tidy s moment network
  have hproper := hr.complete
  use hproper.isDisciplined, hproper.network
  intro q hreaches _
  have hq : Tidy s network q := by
    apply hreaches.invariant _ hr
    intro q hq _ hmore
    apply hq.pass.2.2 hmore
  obtain ⟨made, hmade, hfirst⟩ := hq.pass.2.1
  use made, hmade
  have hsub := (hfirst.sublist.map (·.index)).trans (map_index_requests_sublist s q)
  apply (hsub.trans (List.take_sublist ..)).nodup
  apply (List.nodup_append.mp hq.ongoing.nodup).2.1

end Interchain.Round
