import Interchain.Proofs.Checks
import Interchain.Proofs.Round.Attestation
import Interchain.Proofs.Round.Passes

/-!
# What a round comes to

While a round goes on, its credit is that of the attestations so far, none of which repeat,
no quorum is met, and those who are still to be asked have not attested (`Collecting`).
Every answer preserves this or makes the attestations meet the quorum for the first time, and
the round ends (`Accounted`).  As nobody is credited twice, the weight that is credited is part
of that of the set and always fits in 64 bits.  So the outcome of a round is decided by the sequence
of its attestations.
-/

namespace Interchain

variable {σ Key Sig : Type} [AggregateScheme Key Sig]

namespace Round

/-- The credit is that of the attestations, no validator attests twice, and the quorum is not
met before all of them are there. -/
structure Accounted (s : Setting σ Key Sig) (trace : List (Event Sig)) (credit : Credit Sig) :
    Prop where
  credit_eq : credit = .ofAttestations (attestations s.set s.message trace)
  nodup : ((attestations s.set s.message trace).map (·.index)).Nodup
  first : ∀ p, p <+: attestations s.set s.message trace → MeetsQuorum s.config.quorum s.set p →
    p = attestations s.set s.message trace

/-- The attestations are genuine. -/
theorem Accounted.allGenuine {s : Setting σ Key Sig} {trace : List (Event Sig)}
    {credit : Credit Sig} (h : Accounted s trace credit) :
  AllGenuine s.set s.message (attestations s.set s.message trace)
  := allGenuine_attestations s.set s.message h.nodup

/-- A round has reached the quorum exactly if its attestations carry it. -/
theorem Accounted.isReached_iff {s : Setting σ Key Sig} {trace : List (Event Sig)}
    {credit : Credit Sig} (h : Accounted s trace credit) :
  credit.isReached s.set s.config.quorum = true
    ↔ MeetsQuorum s.config.quorum s.set (attestations s.set s.message trace)
  := by
  rw [h.credit_eq]
  apply h.allGenuine.isReached_iff

/-- The credit is that of the attestations, the quorum is not met, and no validator attests
twice, nor does one that is still to be asked. -/
structure Collecting (s : Setting σ Key Sig) (others : List Nat) (trace : List (Event Sig))
    (credit : Credit Sig) : Prop where
  credit_eq : credit = .ofAttestations (attestations s.set s.message trace)
  nodup : ((attestations s.set s.message trace).map (·.index) ++ others).Nodup
  unmet : ∀ p, p <+: attestations s.set s.message trace → ¬ MeetsQuorum s.config.quorum s.set p

namespace Collecting

variable {s : Setting σ Key Sig} {others : List Nat} {trace : List (Event Sig)}
variable {credit : Credit Sig}

/-- A round that goes on may end as it is. -/
theorem accounted (h : Collecting s others trace credit) :
  Accounted s trace credit
  := by
  constructor
  · apply h.credit_eq
  · apply (List.nodup_append.mp h.nodup).1
  · intro p hp hmeets
    exact absurd hmeets (h.unmet p hp)

/-- Fewer may be left to ask, in any order. -/
theorem mono (h : Collecting s others trace credit) {others' : List Nat}
    (hothers : others'.Subperm others) :
  Collecting s others' trace credit
  := by
  obtain ⟨l, hperm, hsub⟩ := hothers
  constructor
  · apply h.credit_eq
  · apply (hperm.append_left _).nodup_iff.mp
    apply h.nodup.sublist (hsub.append_left _)
  · apply h.unmet

/-- What else happened does not matter. -/
theorem of_attestations_eq (h : Collecting s others trace credit) {trace' : List (Event Sig)}
    (htrace : attestations s.set s.message trace' = attestations s.set s.message trace) :
  Collecting s others trace' credit
  := by
  constructor
  · rw [htrace]
    apply h.credit_eq
  · rw [htrace]
    apply h.nodup
  · rw [htrace]
    apply h.unmet

variable {i : Nat} {a : Attestation Key Sig} {trace' : List (Event Sig)}

/-- An attestation of one that is to be asked is added to the credit, and counts once. -/
theorem accounted_add (h : Collecting s (i :: others) trace credit) (hi : a.index = i)
    (htrace : attestations s.set s.message trace' = attestations s.set s.message trace ++ [a]) :
  ∃ credit', credit.add s.set a.index a.signature = .ok credit' ∧ Accounted s trace' credit' ∧
    ((attestations s.set s.message trace').map (·.index) ++ others).Nodup
  := by
  have hperm : ((attestations s.set s.message trace).map (·.index) ++ i :: others).Perm
      ((attestations s.set s.message trace').map (·.index) ++ others) := by
    rw [htrace, List.map_append, List.append_assoc, ← hi]
    apply List.Perm.refl
  have hnodup := hperm.nodup_iff.mp h.nodup
  have hgenuine := allGenuine_attestations s.set s.message (List.nodup_append.mp hnodup).1
  use .ofAttestations (attestations s.set s.message trace')
  constructor
  · rw [htrace] at hgenuine ⊢
    rw [h.credit_eq, Credit.add_ofAttestations hgenuine]
  · constructor
    · constructor
      · rfl
      · apply hgenuine.nodup
      · intro p hp hmeets
        rw [htrace] at hp ⊢
        obtain rfl | hp := List.prefix_concat_iff.mp hp
        · rfl
        · exact absurd hmeets (h.unmet p hp)
    · exact hnodup

/-- If the attestation does not make up a quorum, the round goes on. -/
theorem add_of_not_isReached (h : Collecting s (i :: others) trace credit) (hi : a.index = i)
    (htrace : attestations s.set s.message trace' = attestations s.set s.message trace ++ [a])
    {credit' : Credit Sig} (hadd : credit.add s.set a.index a.signature = .ok credit')
    (hr : ¬ credit'.isReached s.set s.config.quorum = true) :
  Collecting s others trace' credit'
  := by
  obtain ⟨credit'', hadd', hacc, hnodup⟩ := h.accounted_add hi htrace
  cases hadd.symm.trans hadd'
  constructor
  · apply hacc.credit_eq
  · apply hnodup
  · intro p hp hmeets
    rw [hacc.first p hp hmeets] at hmeets
    apply hr
    apply hacc.isReached_iff.mpr hmeets

end Collecting

/-! ### A pass -/

/-- What holds when a pass ends, where others than those it asked are pending. -/
def Ended (s : Setting σ Key Sig) (others : List Nat) :
    PassEnd × FanOut σ Sig × Credit Sig → Prop
  | (.final failure, f, credit) => Accounted s f.trace credit ∧ failure = none
  | (.completed retry, f, credit) => Collecting s (others ++ retry) f.trace credit

/-- An answer that was noted to a request that was open: it is an attestation, or it leaves the
attestations as they are. -/
theorem Collecting.note {s : Setting σ Key Sig} {others : List Nat} {f : FanOut σ Sig}
    {credit : Credit Sig} (flight : Flight Sig)
    (h : Collecting s (flight.request.index :: others) f.trace credit) :
  (∃ a : Attestation Key Sig, a.index = flight.request.index ∧
    FanOut.judge s.set s.message flight = .signed a.index a.signature ∧
    attestations s.set s.message (f.note s.set s.message flight).trace
      = attestations s.set s.message f.trace ++ [a]) ∨
  (Collecting s (flight.request.index :: others) (f.note s.set s.message flight).trace credit ∧
    ((∃ e, FanOut.judge s.set s.message flight = .transient flight.request.index e) ∨
      ∃ e, FanOut.judge s.set s.message flight = .rejected flight.request.index e))
  := by
  have htrace := FanOut.attestations_note s.set s.message flight f
  obtain ⟨a, hsome, hi, hjudge⟩ | ⟨hnone, hjudge⟩ :=
    FanOut.judge_cases s.set s.message f.now flight
  · left
    rw [hsome] at htrace
    use a, hi, hjudge, htrace
  · right
    rw [hnone, Option.toList_none, List.append_nil] at htrace
    use h.of_attestations_eq htrace, hjudge

/-- Until the next answer comes there are no attestations. -/
theorem attestations_next {s : Setting σ Key Sig} {f f' : FanOut σ Sig}
    {answer : Option (Flight Sig)} (hnext : s.schedule.next f = (answer, f')) :
  attestations s.set s.message f'.trace = attestations s.set s.message f.trace
  := by
  have hproceeds := s.schedule.proceeds f
  rw [hnext] at hproceeds
  rw [attestations, hproceeds.filterMap_trace fun _ _ => rfl, attestations]

/-- A request that is sent is no attestation. -/
theorem attestations_sendFirst (s : Setting σ Key Sig) (r : Request)
    (rest : List Request) (f : FanOut σ Sig) :
  attestations s.set s.message (f.sendFirst s.net s.set s.message r rest).trace
    = attestations s.set s.message f.trace
  := by
  rw [attestations, FanOut.filterMap_trace_sendFirst s.net s.set s.message fun _ _ => rfl,
    attestations]

/-- The first of the requests that wait may be sent. -/
theorem Collecting.sendFirst {s : Setting σ Key Sig} {others : List Nat} {f : FanOut σ Sig}
    {credit : Credit Sig} (h : Collecting s (f.openRequests.map (·.index) ++ others) f.trace credit)
    {r : Request} {rest : List Request} (hwaiting : f.waiting = r :: rest) :
  Collecting s ((f.sendFirst s.net s.set s.message r rest).openRequests.map (·.index) ++ others)
    (f.sendFirst s.net s.set s.message r rest).trace credit
  := by
  have hperm := FanOut.openRequests_sendFirst s.net s.set s.message hwaiting
  apply Collecting.of_attestations_eq _ (attestations_sendFirst s r rest f)
  apply h.mono ((hperm.map _).append_right _).symm.subperm

omit [AggregateScheme Key Sig] in
/-- The next answer is to one of the open requests, and the others stay open. -/
theorem openRequests_next {s : Setting σ Key Sig} {f f' : FanOut σ Sig}
    {flight : Flight Sig} (hnext : s.schedule.next f = (some flight, f')) :
  f.openRequests.Perm (flight.request :: f'.openRequests)
  := by
  have hproceeds := s.schedule.proceeds f
  rw [hnext] at hproceeds
  apply hproceeds.openRequests_perm

/-- An answer that is taken closes a request. -/
theorem Takes.length_openRequests {s : Setting σ Key Sig} {f f' : FanOut σ Sig}
    {credit credit' : Credit Sig} {retry retry' : List Nat}
    (h : Takes s f credit retry f' credit' retry') :
  f.openRequests.length = f'.openRequests.length + 1
  := by
  obtain ⟨flight, g, hnext, rfl⟩ := h.exists_next
  apply (openRequests_next hnext).length_eq

/-- The next answer is that of a validator that was to be asked. -/
theorem Collecting.next {s : Setting σ Key Sig} {others : List Nat} {f f' : FanOut σ Sig}
    {credit : Credit Sig} {flight : Flight Sig}
    (h : Collecting s (f.openRequests.map (·.index) ++ others) f.trace credit)
    (hnext : s.schedule.next f = (some flight, f')) :
  Collecting s (flight.request.index :: (f'.openRequests.map (·.index) ++ others)) f'.trace
    credit
  := by
  have hperm := openRequests_next hnext
  apply Collecting.mono (h.of_attestations_eq (attestations_next hnext))
  apply ((hperm.map (·.index)).append_right others).symm.subperm

/-- While a pass goes on, its credit is that of the attestations, and nobody who is still to be
asked has attested. -/
theorem Collecting.takes {s : Setting σ Key Sig} {others : List Nat} {f f' : FanOut σ Sig}
    {credit credit' : Credit Sig} {retry retry' : List Nat}
    (h : Collecting s (f.openRequests.map (·.index) ++ (others ++ retry)) f.trace credit)
    (ht : Takes s f credit retry f' credit' retry') :
  Collecting s (f'.openRequests.map (·.index) ++ (others ++ retry')) f'.trace credit'
  := by
  cases ht with
  | @signed flight _ _ _ _ hnext hjudge hadd hreached =>
      have h' := h.next hnext
      obtain ⟨a, hi, hjudge', hnote⟩ | ⟨-, ⟨e, hjudge'⟩ | ⟨e, hjudge'⟩⟩ := h'.note flight
      · rw [hjudge'] at hjudge
        cases hjudge
        apply h'.add_of_not_isReached hi hnote hadd hreached
      · simp [hjudge'] at hjudge
      · simp [hjudge'] at hjudge
  | @transient flight _ _ _ hnext hjudge =>
      obtain ⟨a, -, hjudge', -⟩ | ⟨hnote, ⟨e, hjudge'⟩ | ⟨e, hjudge'⟩⟩ :=
        (h.next hnext).note flight
      · simp [hjudge'] at hjudge
      · rw [hjudge'] at hjudge
        cases hjudge
        apply hnote.mono
        rw [← List.append_assoc others, ← List.append_assoc]
        apply (List.perm_append_singleton _ _).subperm
      · simp [hjudge'] at hjudge
  | @rejected flight _ _ _ hnext hjudge =>
      obtain ⟨a, -, hjudge', -⟩ | ⟨hnote, -⟩ := (h.next hnext).note flight
      · simp [hjudge'] at hjudge
      · apply hnote.mono (List.sublist_cons_self ..).subperm

/-- A signature of a validator that was to be asked is credited, and accounted for. -/
theorem Collecting.accounted_signed {s : Setting σ Key Sig} {others : List Nat}
    {f f' : FanOut σ Sig} {credit : Credit Sig} {flight : Flight Sig} {i : Nat} {sig : Sig}
    (h : Collecting s (f.openRequests.map (·.index) ++ others) f.trace credit)
    (hnext : s.schedule.next f = (some flight, f'))
    (hjudge : FanOut.judge s.set s.message flight = .signed i sig) :
  ∃ credit', credit.add s.set i sig = .ok credit' ∧
    Accounted s (f'.note s.set s.message flight).trace credit'
  := by
  have hanswer := h.next hnext
  obtain ⟨a, hi, hjudge', hnote⟩ | ⟨-, ⟨e, hjudge'⟩ | ⟨e, hjudge'⟩⟩ := hanswer.note flight
  · rw [hjudge'] at hjudge
    cases hjudge
    obtain ⟨credit', hadd, hacc, -⟩ := hanswer.accounted_add hi hnote
    use credit'
  · simp [hjudge'] at hjudge
  · simp [hjudge'] at hjudge

/-- However the answers come, a pass ends with all attestations accounted for, and none of them
makes the weight leave 64 bits. -/
theorem collect_ended (s : Setting σ Key Sig) (others : List Nat) (n : Nat) (f : FanOut σ Sig)
    (credit : Credit Sig) (retry : List Nat)
    (h : Collecting s (f.openRequests.map (·.index) ++ (others ++ retry)) f.trace credit) :
  Ended s others (collect s n f credit retry)
  := by
  obtain ⟨m, f', credit', retry', h', hends⟩ := collect_invariant s
    (P := fun _ f credit retry =>
      Collecting s (f.openRequests.map (·.index) ++ (others ++ retry)) f.trace credit)
    (fun _ _ _ _ _ _ _ h ht => h.takes ht) n f credit retry h
  generalize collect s n f credit retry = result at hends
  cases hends with
  | completed => apply h'.mono (List.sublist_append_right ..).subperm
  | silent hnext => exact ⟨(h'.of_attestations_eq (attestations_next hnext)).accounted, rfl⟩
  | reached hnext hjudge hadd =>
      obtain ⟨credit'', hadd', hacc⟩ := h'.accounted_signed hnext hjudge
      cases hadd.symm.trans hadd'
      exact ⟨hacc, rfl⟩
  | overflowed hnext hjudge hadd =>
      obtain ⟨credit'', hadd', -⟩ := h'.accounted_signed hnext hjudge
      cases hadd.symm.trans hadd'

/-! ### A round -/

omit [AggregateScheme Key Sig] in
/-- The requests of a pass are for pending validators that the budget reaches. -/
theorem map_index_requests_sublist (s : Setting σ Key Sig) (r : Round σ Sig) :
  ((r.requests s).map (·.index)).Sublist (r.pending.take (s.budget - r.attempts))
  := by
  rw [requests]
  induction r.pending.take (s.budget - r.attempts) with
  | nil => apply List.Sublist.slnil
  | cons i rest ih =>
      cases hnode : nodeFor s.set r.tries i with
      | none =>
          rw [List.filterMap_cons_none hnode]
          apply ih.cons
      | some request =>
          obtain ⟨v, -, hnode'⟩ := Option.bind_eq_some_iff.mp hnode
          obtain ⟨node, -, hrequest⟩ := Option.bind_eq_some_iff.mp hnode'
          cases hrequest
          rw [List.filterMap_cons_some hnode]
          apply ih.cons_cons

omit [AggregateScheme Key Sig] in
/-- A pass asks some of the pending validators and defers others. -/
theorem requests_deferred_sublist (s : Setting σ Key Sig) (r : Round σ Sig) :
  ((r.requests s).map (·.index) ++ r.deferred s).Sublist r.pending
  := by
  rw [deferred]
  conv_rhs => rw [← List.take_append_drop (s.budget - r.attempts) r.pending]
  apply (map_index_requests_sublist s r).append_right

/-- A round that goes on with those that are pending. -/
structure Ongoing (s : Setting σ Key Sig) (r : Round σ Sig) : Prop
    extends Collecting s r.pending r.trace r.credit where
  sound : r.failure = none

/-- A round whose attestations are accounted for, whether it goes on or not. -/
structure Settled (s : Setting σ Key Sig) (r : Round σ Sig) : Prop
    extends Accounted s r.trace r.credit where
  sound : r.failure = none

/-- A round that goes on may end as it is. -/
theorem Ongoing.settled {s : Setting σ Key Sig} {r : Round σ Sig} (h : Ongoing s r) :
  Settled s r
  := ⟨h.accounted, h.sound⟩

/-- A pause changes neither what happened nor who is pending. -/
theorem pause_ongoing {s : Setting σ Key Sig} {r : Round σ Sig} (h : Ongoing s r) :
  Ongoing s (pause s r).2
  := by
  obtain ⟨moment, hpause⟩ := exists_pause_eq s r
  rw [hpause]
  exact ⟨h.toCollecting, h.sound⟩

/-- A pass of a round that goes on ends with all attestations accounted for. -/
theorem Ongoing.ended {s : Setting σ Key Sig} {r : Round σ Sig} (h : Ongoing s r) :
  Ended s (r.deferred s) (collect s (r.requests s).length (r.toSend s) r.credit [])
  := by
  have hopen : (r.toSend s).openRequests = r.requests s := List.append_nil _
  apply collect_ended
  rw [hopen, List.append_nil]
  apply h.mono (requests_deferred_sublist s r).subperm

/-- When the requests of a pass are all answered, the round may go on. -/
theorem Ongoing.whenAnswered {s : Setting σ Key Sig} {r : Round σ Sig} (h : Ongoing s r)
    {f : FanOut σ Sig} {credit : Credit Sig} {retry : List Nat}
    (hcollect : collect s (r.requests s).length (r.toSend s) r.credit []
      = (.completed retry, f, credit)) :
  Ongoing s (r.whenAnswered s f credit retry)
  := by
  have hend := h.ended
  rw [hcollect] at hend
  exact ⟨hend.mono (List.mergeSort_perm ..).subperm, rfl⟩

/-- After a pass the round may go on, or its attestations are accounted for. -/
theorem pass_spec {s : Setting σ Key Sig} {r : Round σ Sig} (h : Ongoing s r) :
  ((pass s r).1 = true → Ongoing s (pass s r).2) ∧ Settled s (pass s r).2
  := by
  obtain ⟨f, credit, ⟨failure, hcollect, hpass⟩ | ⟨retry, hcollect, hpass⟩⟩ := pass_cases s r
  · have hend := h.ended
    rw [hcollect] at hend
    rw [hpass]
    constructor
    · intro hmore
      cases hmore
    · exact ⟨hend.1, hend.2⟩
  · have hpause := pause_ongoing (h.whenAnswered hcollect)
    rw [hpass]
    exact ⟨fun _ => hpause, hpause.settled⟩

/-- At the end of a round its attestations are accounted for, and no weight has left 64 bits. -/
theorem complete_settled {s : Setting σ Key Sig} {r : Round σ Sig} (h : Ongoing s r) :
  Settled s (complete s r)
  := by
  apply complete_invariant s (P := Ongoing s)
  · intro r h _
    apply h.settled
  · intro r h _ hmore
    apply (pass_spec h).1 hmore
  · intro r h _ _
    apply (pass_spec h).2
  · apply h

/-- At its start a round has no attestations, and all validators are to be asked. -/
theorem start_ongoing (s : Setting σ Key Sig) (moment : Moment) (network : σ) :
  Ongoing s (start s.set moment network)
  := by
  constructor
  · constructor
    · rfl
    · apply List.nodup_range
    · intro p hp hmeets
      apply hmeets.1 (List.prefix_nil.mp hp)
  · rfl

end Round

end Interchain
