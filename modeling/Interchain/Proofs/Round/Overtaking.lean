import Interchain.Proofs.CanonicalSet
import Interchain.Proofs.Round.Discipline
import Interchain.Proofs.Round.Honesty

/-!
# Asking everybody before anybody again

The first pass of a round asks whom the budget reaches, and a validator without a node takes up
a place in it without being asked.  `Round.nobody_overtaken` says who has been asked when a
validator is asked again: those that the budget reaches in the first pass, and everybody with a
node if all of these have one, as the validators of a canonical set do.  Otherwise validators may
be overtaken by those that are asked again, as `Round.overtaken_by_retry` shows.
-/

namespace Interchain

/-- A validator that has a node can be asked. -/
def ValidatorSet.IsAskable {Key : Type} (set : ValidatorSet Key) (i : Nat) : Prop :=
  ∃ v, set.validators[i]? = some v ∧ v.nodes ≠ []

/-- A validator that can be asked is in the set. -/
theorem ValidatorSet.IsAskable.lt_length {Key : Type} {set : ValidatorSet Key} {i : Nat}
    (h : set.IsAskable i) :
  i < set.validators.length
  := by
  obtain ⟨v, hv, -⟩ := h
  apply (List.getElem?_eq_some_iff.mp hv).1

/-- If the first validators all have a node, they can be asked. -/
theorem ValidatorSet.isAskable_of_lt {Key : Type} {set : ValidatorSet Key} {n i : Nat}
    (h : ∀ v ∈ set.validators.take n, v.nodes ≠ []) (hn : i < n)
    (hi : i < set.validators.length) :
  set.IsAskable i
  := by
  use set.validators[i], List.getElem?_eq_getElem hi
  apply h
  apply List.mem_take_iff_getElem.mpr
  use i, by omega

/-- Whenever a validator is requested again, all of the given ones were requested before. -/
def AllBeforeAgain (among : Nat → Prop) (requests : List Request) : Prop :=
  ∀ before request after, requests = before ++ request :: after →
    request.index ∈ before.map (·.index) → ∀ i, among i → i ∈ before.map (·.index)

/-- If the first requests are for different validators, and all of the given ones are among these
when there are more requests, then all were requested before any was again. -/
theorem allBeforeAgain_append {among : Nat → Prop} {first rest : List Request}
    (hnodup : (first.map (·.index)).Nodup)
    (hall : rest ≠ [] → ∀ i, among i → i ∈ first.map (·.index)) :
  AllBeforeAgain among (first ++ rest)
  := by
  intro before request after hrequests hagain i hi
  have hlength := congrArg List.length hrequests
  simp only [List.length_append, List.length_cons] at hlength
  -- among the first requests nobody comes again, and behind them all of them came before
  rcases Nat.lt_or_ge before.length first.length with hlt | hge
  · have hsplit : before ++ [request] <+: first ++ rest := by
      use after
      rw [hrequests, List.append_assoc, List.singleton_append]
    have hlonger : (before ++ [request]).length ≤ first.length := by
      rwa [List.length_append, List.length_singleton]
    have hfirst := List.prefix_of_prefix_length_le hsplit (List.prefix_append ..) hlonger
    have hdistinct := (hfirst.sublist.map (·.index)).nodup hnodup
    rw [List.map_append, List.nodup_append] at hdistinct
    exact absurd rfl (hdistinct.2.2 _ hagain _ (List.mem_singleton_self _))
  · have hsplit : before <+: first ++ rest := by
      use request :: after, hrequests.symm
    have hfirst := List.prefix_of_prefix_length_le (List.prefix_append ..) hsplit hge
    apply (hfirst.sublist.map _).subset
    apply hall _ i hi
    rintro rfl
    rw [List.length_nil] at hlength
    omega

namespace Round

variable {σ Key Sig : Type} [AggregateScheme Key Sig]
variable {s : Setting σ Key Sig} {origin : σ} {r : Round σ Sig}

/-! ### Who is asked in a pass -/

omit [AggregateScheme Key Sig] in
/-- A validator that can be asked is asked at the node whose turn it is. -/
theorem exists_nodeFor {set : ValidatorSet Key} {i : Nat} (h : set.IsAskable i)
    (tries : List Nat) :
  ∃ node, nodeFor set tries i = some ⟨i, node⟩
  := by
  obtain ⟨v, hv, hnodes⟩ := h
  have hpos := List.length_pos_iff.mpr hnodes
  have hlt : tries.getD i 0 % max 1 v.nodes.length < v.nodes.length := by
    rw [Nat.max_eq_right hpos]
    apply Nat.mod_lt _ hpos
  use v.nodes[tries.getD i 0 % max 1 v.nodes.length]
  rw [nodeFor, hv]
  show (v.nodes[tries.getD i 0 % max 1 v.nodes.length]?).bind _ = _
  rw [List.getElem?_eq_getElem hlt]
  rfl

omit [AggregateScheme Key Sig] in
/-- A pass asks every pending validator that the budget reaches and that can be asked. -/
theorem mem_requests {i : Nat} (hi : i ∈ r.pending.take (s.budget - r.attempts))
    (h : s.set.IsAskable i) :
  i ∈ (r.requests s).map (·.index)
  := by
  obtain ⟨node, hnode⟩ := exists_nodeFor h r.tries
  apply List.mem_map.mpr
  use ⟨i, node⟩
  constructor
  · apply List.mem_filterMap.mpr
    use i
  · rfl

omit [AggregateScheme Key Sig] in
/-- If all that the budget reaches can be asked, they are all asked. -/
theorem map_index_requests (h : ∀ i ∈ r.pending.take (s.budget - r.attempts), s.set.IsAskable i) :
  (r.requests s).map (·.index) = r.pending.take (s.budget - r.attempts)
  := by
  rw [requests, List.map_filterMap]
  apply Eq.trans _ List.filterMap_some
  apply List.filterMap_congr
  intro i hi
  obtain ⟨node, hnode⟩ := exists_nodeFor (h i hi) r.tries
  rw [hnode, Option.map_some]

omit [AggregateScheme Key Sig] in
/-- The first pass reaches as many validators as the budget allows for. -/
theorem mem_take_pending_start {moment : Moment} {network : σ} {i : Nat} :
  let r : Round σ Sig := start s.set moment network
  i ∈ r.pending.take (s.budget - r.attempts) ↔ i < s.set.validators.length ∧ i < s.budget
  := by
  show i ∈ (List.range s.set.validators.length).take s.budget ↔ _
  rw [List.take_range, List.mem_range, Nat.lt_min, and_comm]

omit [AggregateScheme Key Sig] in
/-- If all that the first pass reaches have a node, it asks as many as the budget allows for. -/
theorem length_requests_start (h : ∀ v ∈ s.set.validators.take s.budget, v.nodes ≠ [])
    {moment : Moment} {network : σ} :
  ((start s.set moment network : Round σ Sig).requests s).length
    = min s.budget s.set.validators.length
  := by
  let r : Round σ Sig := start s.set moment network
  have hall : ∀ i ∈ r.pending.take (s.budget - r.attempts), s.set.IsAskable i := by
    intro i hi
    obtain ⟨hlt, hbudget⟩ := mem_take_pending_start.mp hi
    apply ValidatorSet.isAskable_of_lt h hbudget hlt
  rw [← List.length_map (·.index), map_index_requests hall, List.length_take]
  show min s.budget (List.range s.set.validators.length).length = _
  rw [List.length_range]

/-! ### The requests of a whole round -/

/-- If a round goes on after a pass, all requests of the pass were sent. -/
theorem Tidy.requestsMade_pass (h : Tidy s origin r) (hmore : (Round.pass s r).1 = true) :
  requestsMade (Round.pass s r).2.trace = requestsMade r.trace ++ r.requests s
  := by
  obtain ⟨-, ⟨made, hmade, hfirst⟩, htidy⟩ := h.pass
  have hattempts : (Round.pass s r).2.attempts = r.attempts + (r.requests s).length := by
    obtain ⟨f, credit, ⟨failure, -, hpass⟩ | ⟨retry, -, hpass⟩⟩ := pass_cases s r
    · rw [hpass] at hmore
      cases hmore
    · obtain ⟨moment, hpause⟩ := exists_pause_eq s (r.whenAnswered s f credit retry)
      rw [hpass, hpause]
      rfl
  rw [(htidy hmore).attempts, hmade, List.length_append, h.attempts] at hattempts
  rw [hmade, hfirst.eq_of_length (Nat.add_left_cancel hattempts)]

/-- Requests are only added to those that were made. -/
theorem Tidy.requestsMade_complete (h : Tidy s origin r) :
  requestsMade r.trace <+: requestsMade (Round.complete s r).trace
  := by
  apply complete_invariant s
    (P := fun q => Tidy s origin q ∧ requestsMade r.trace <+: requestsMade q.trace)
    (Q := fun q => requestsMade r.trace <+: requestsMade q.trace)
  · intro q hq _
    apply hq.2
  · intro q hq _ hmore
    use hq.1.pass.2.2 hmore
    rw [hq.1.requestsMade_pass hmore]
    apply hq.2.trans (List.prefix_append ..)
  · intro q hq _ _
    obtain ⟨made, hmade, -⟩ := hq.1.pass.2.1
    rw [hmade]
    apply hq.2.trans (List.prefix_append ..)
  · use h

/-- The first requests of a round are for different validators.  If there are more, the first
ones are those of the first pass, and the budget does not end with them. -/
theorem requestsMade_start (s : Setting σ Key Sig) (moment : Moment) (network : σ) :
  let r : Round σ Sig := start s.set moment network
  ∃ first rest, requestsMade (complete s r).trace = first ++ rest ∧
    (first.map (·.index)).Nodup ∧
    (rest ≠ [] → first = r.requests s ∧ (r.requests s).length < s.budget)
  := by
  intro r
  have hr : Tidy s network r := start_tidy s moment network
  have hdistinct : ((r.requests s).map (·.index)).Nodup := by
    apply ((map_index_requests_sublist s r).trans (List.take_sublist ..)).nodup
    apply List.nodup_range
  by_cases hover : r.isOver s = true
  · rw [complete_eq, if_pos hover]
    use [], [], rfl, List.nodup_nil
    intro hne
    exact absurd rfl hne
  by_cases hmore : (pass s r).1 = true
  · have hbudget := hr.complete.budget
    rw [complete_eq, if_neg hover, if_pos hmore] at hbudget ⊢
    obtain ⟨rest, hrest⟩ := (hr.pass.2.2 hmore).requestsMade_complete
    rw [hr.requestsMade_pass hmore] at hrest
    use r.requests s, rest, hrest.symm, hdistinct
    intro hne
    have hpos := List.length_pos_iff.mpr hne
    rw [← hrest, List.length_append, List.length_append] at hbudget
    use rfl, by omega
  · obtain ⟨made, hmade, hfirst⟩ := hr.pass.2.1
    rw [complete_eq, if_neg hover, if_neg hmore, hmade]
    use made, [], (List.append_nil _).symm, (hfirst.sublist.map _).nodup hdistinct
    intro hne
    exact absurd rfl hne

/-- Whatever the nodes answer, and in whatever order, when a validator is asked again all were
asked that have a node and that the budget reaches in the first pass.  So everybody was asked
that has a node, if the budget reaches everybody or if all that it reaches have one, as is the
case in a canonical set. -/
theorem nobody_overtaken (s : Setting σ Key Sig) (moment : Moment) (network : σ) :
  let requests := requestsMade (complete s (start s.set moment network)).trace
  AllBeforeAgain (fun i => s.set.IsAskable i ∧ i < s.budget) requests ∧
  (s.set.validators.length ≤ s.budget ∨ (∀ v ∈ s.set.validators.take s.budget, v.nodes ≠ []) →
    AllBeforeAgain s.set.IsAskable requests) ∧
  ∀ records, ValidatorSet.ofRecords records = .ok s.set →
    AllBeforeAgain s.set.IsAskable requests
  := by
  intro requests
  obtain ⟨first, rest, hrequests, hdistinct, hmore⟩ := requestsMade_start s moment network
  have hreached : rest ≠ [] → ∀ i, s.set.IsAskable i ∧ i < s.budget →
      i ∈ first.map (·.index) := by
    rintro hne i ⟨hi, hlt⟩
    rw [(hmore hne).1]
    apply mem_requests _ hi
    apply mem_take_pending_start.mpr
    use hi.lt_length
  have heverybody : s.set.validators.length ≤ s.budget ∨
      (∀ v ∈ s.set.validators.take s.budget, v.nodes ≠ []) →
      rest ≠ [] → ∀ i, s.set.IsAskable i → i ∈ first.map (·.index) := by
    intro h hne i hi
    apply hreached hne
    use hi
    apply Nat.lt_of_lt_of_le hi.lt_length
    rcases h with hle | hnodes
    · exact hle
    · have hfewer := (hmore hne).2
      rw [length_requests_start hnodes] at hfewer
      omega
  rw [show requests = first ++ rest from hrequests]
  use allBeforeAgain_append hdistinct hreached
  constructor
  · intro h
    apply allBeforeAgain_append hdistinct (heverybody h)
  · intro records hrecords
    apply allBeforeAgain_append hdistinct (heverybody _)
    right
    intro v hv
    apply (ValidatorSet.isCanonical_of_ofRecords hrecords).nodes_ne_nil v (List.mem_of_mem_take hv)

end Round

/-! ### A validator without a node among three -/

namespace Residue

open Round

/-- Three validators, of which the second has no node. -/
def gapped : ValidatorSet Residue where
  validators := [⟨keyAt 0, 20, [nodeAt 0]⟩, ⟨keyAt 1, 10, []⟩, ⟨keyAt 2, 70, [nodeAt 2]⟩]
  total := 100
  covered := by decide

/-- The first node fails for now, and every other one signs with the key of the third. -/
def stalled : Network Unit Residue where
  ask _ node message network :=
    (if node = nodeAt 0 then ⟨some 0, .error .timeout⟩
      else ⟨some 0, .ok (sign (keyAt 2) message.id.bytes)⟩, network)

/-- A round of two requests among three validators. -/
def twoRequests (message : Message) : Round.Setting Unit Residue Residue where
  net := stalled
  set := gapped
  message
  config := {}
  budget := 2
  deadline := some 30000

/-- What happens when the first validator is asked at a time and fails for now. -/
def setback (time : Nat) : List (Event Residue) :=
  [.answered time (.transient 0 .timeout), .replied time ⟨0, nodeAt 0⟩ (.error .timeout),
    .asked time ⟨0, nodeAt 0⟩]

/-- The round before its second pass. -/
def beforeRetry : Round Unit Residue where
  toMoment := .sleep {} 100
  network := ()
  trace := setback 0
  pending := [0, 2]
  tries := [1, 0, 0]
  attempts := 1

theorem mergeSort_pair :
  ([2, 0] : List Nat).mergeSort (· ≤ ·) = [0, 2]
  := by simp [List.mergeSort]

/-- While the first and the third validator are pending, the quorum may still be met. -/
theorem isHopeless_twoRequests (message : Message) {r : Round Unit Residue}
    (hpending : r.pending = [0, 2]) (hcredit : r.credit = {}) :
  r.isHopeless (twoRequests message) = false
  := by
  rw [isHopeless, reachable, hpending, hcredit]
  show (true && !Quorum.standard.isMet 90 100) = false
  decide

/-- The second validator takes up a place in the first pass, and the third one has to wait. -/
theorem pass_start (message : Message) :
  pass (twoRequests message) (start gapped {} ()) = (true, beforeRetry)
  := by
  have hcollect : collect (twoRequests message) 1
      ((start gapped {} () : Round Unit Residue).toSend (twoRequests message)) {} []
      = (.completed [0], { network := (), trace := setback 0 }, {}) := rfl
  rw [pass_of_completed hcollect, whenAnswered]
  show pause _ (Round.afterPass _ _ _ _ ([2, 0].mergeSort (· ≤ ·))) = _
  rw [mergeSort_pair, pause, isHopeless_twoRequests message rfl rfl]
  rfl

/-- In the second pass it is the first validator's turn again, and then no request is left. -/
theorem pass_beforeRetry (message : Message) :
  ∃ r, pass (twoRequests message) beforeRetry = (false, r) ∧ r.trace = setback 100 ++ setback 0
  := by
  have hcollect : collect (twoRequests message) 1 (beforeRetry.toSend (twoRequests message)) {} []
      = (.completed [0],
        { toMoment := .sleep {} 100, network := (), trace := setback 100 ++ setback 0 },
        {}) := rfl
  rw [pass_of_completed hcollect, whenAnswered]
  show ∃ r, pause _ (Round.afterPass _ _ _ _ ([2, 0].mergeSort (· ≤ ·))) = _ ∧ _
  rw [mergeSort_pair, pause, isHopeless_twoRequests message rfl rfl]
  exact ⟨_, rfl, rfl⟩

/-- The first validator is asked twice, and the others not at all. -/
theorem requestsMade_twoRequests (message : Message) :
  requestsMade (complete (twoRequests message) (start gapped {} ())).trace
    = [⟨0, nodeAt 0⟩, ⟨0, nodeAt 0⟩]
  := by
  have hstart : (start gapped {} () : Round Unit Residue).isOver (twoRequests message) = false :=
    rfl
  have hretry : beforeRetry.isOver (twoRequests message) = false := rfl
  obtain ⟨r, hpass, htrace⟩ := pass_beforeRetry message
  rw [complete_eq, hstart, if_neg Bool.false_ne_true, pass_start, if_pos rfl, complete_eq, hretry,
    if_neg Bool.false_ne_true, hpass, if_neg Bool.false_ne_true, htrace]
  rfl

end Residue

/-- If a validator without a node takes up a place in the first pass, one that fails for now is
asked again before one that could have been asked. -/
theorem Round.overtaken_by_retry :
  ∃ message : Message, let s := Residue.twoRequests message
    ValidatorSet.ofParts s.set.validators 100 = .ok s.set ∧
    ¬ AllBeforeAgain s.set.IsAskable (requestsMade (complete s (start s.set {} ())).trace)
  := by
  obtain ⟨message, -⟩ := Message.exists_length_bytes (show 0 + 42 ≤ Wire.maxSize by decide)
  use message, rfl
  intro h
  have hasked := h [⟨0, Residue.nodeAt 0⟩] ⟨0, Residue.nodeAt 0⟩ []
    (Residue.requestsMade_twoRequests message) (List.mem_singleton_self 0) 2
    ⟨_, rfl, List.cons_ne_nil _ _⟩
  cases List.mem_singleton.mp hasked

end Interchain
