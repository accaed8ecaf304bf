import Interchain.Proofs.Round.Attestation

/-!
# The requests of a round

What happens in the course of a round is `Orderly` if a validator is asked only while it is
free to be, which it is at first and after a transient failure, if its nodes take turns, and if
nobody is asked once the quorum is met.  The main results say what this comes to:
`Orderly.turn`, `Orderly.not_asked_again`, `Orderly.asked_again` and
`Orderly.requestsMade_of_meets`.
-/

namespace Interchain

section Requests

variable {Sig : Type}

namespace Event

/-- The request that is sent. -/
def sent? : Event Sig → Option Request
  | .asked _ request => some request
  | .replied .. | .answered .. => none

/-- The request that is sent or answered. -/
def request? : Event Sig → Option Request
  | .asked _ request | .replied _ request _ => some request
  | .answered .. => none

/-- Whether a request is answered with a failure that may pass. -/
def isTransientFailure : Event Sig → Bool
  | .replied _ _ (.error e) => e.isTransient
  | _ => false

end Event

/-- The requests that were sent, in their order. -/
def requestsMade (trace : List (Event Sig)) : List Request :=
  (trace.filterMap Event.sent?).reverse

/-- The nodes that were asked for a validator, in their order. -/
def nodesAsked (i : Nat) (trace : List (Event Sig)) : List NodeId :=
  ((requestsMade trace).filter (·.index = i)).map (·.node)

/-- The last that a validator was asked or answered. -/
def latest? (i : Nat) (trace : List (Event Sig)) : Option (Event Sig) :=
  trace.find? fun event => event.request?.any (·.index = i)

/-- A validator may be asked at first and after a transient failure. -/
def IsFree (i : Nat) (trace : List (Event Sig)) : Prop :=
  ∀ event, latest? i trace = some event → event.isTransientFailure = true

/-- A request was sent, and the validator has not answered it. -/
def IsAwaited (request : Request) (trace : List (Event Sig)) : Prop :=
  ∃ time, latest? request.index trace = some (.asked time request)

/-- The node is the one whose turn it is for a validator of the set. -/
def HasTurn {Key : Type} (set : ValidatorSet Key) (request : Request) (trace : List (Event Sig)) :
    Prop :=
  ∃ v, set.validators[request.index]? = some v ∧
    v.nodes[(nodesAsked request.index trace).length % v.nodes.length]? = some request.node

/-- The network after the requests that were sent. -/
def networkAfter {σ : Type} (net : Network σ Sig) (message : Message) (network : σ) :
    List (Event Sig) → σ
  | [] => network
  | .asked time request :: trace =>
    (net.ask time request.node message (networkAfter net message network trace)).2
  | .replied .. :: trace | .answered .. :: trace => networkAfter net message network trace

/-! ### One event after another -/

variable {i : Nat} {trace : List (Event Sig)}

/-- A request that is sent is the last of those made. -/
theorem requestsMade_asked (time : Nat) (request : Request) :
  requestsMade (.asked time request :: trace) = requestsMade trace ++ [request]
  := List.reverse_cons

/-- A request that is sent is one more for its validator. -/
theorem nodesAsked_asked (time : Nat) (request : Request) :
  nodesAsked i (.asked time request :: trace)
    = nodesAsked i trace ++ if request.index = i then [request.node] else []
  := by
  rw [nodesAsked, requestsMade_asked, List.filter_append, List.map_append, ← nodesAsked]
  by_cases h : request.index = i
  · simp [h]
  · simp [h]

/-- A request or an answer is the last for its validator. -/
theorem latest?_of_request? {event : Event Sig} {request : Request}
    (hevent : event.request? = some request) :
  latest? request.index (event :: trace) = some event
  := by
  apply List.find?_cons_of_pos
  simp [hevent]

/-- A request or an answer is not the last for other validators. -/
theorem latest?_of_ne {event : Event Sig} {request : Request}
    (hevent : event.request? = some request) (hne : request.index ≠ i) :
  latest? i (event :: trace) = latest? i trace
  := by
  apply List.find?_cons_of_neg
  simpa [hevent] using hne

/-- Whether a validator may be asked does not depend on what happens to others. -/
theorem IsFree.cons (h : IsFree i trace) {event : Event Sig} {request : Request}
    (hevent : event.request? = some request) (hne : request.index ≠ i) :
  IsFree i (event :: trace)
  := by rwa [IsFree, latest?_of_ne hevent hne]

/-- Whether a request awaits its answer does not depend on what happens to others. -/
theorem IsAwaited.cons {request q : Request} (h : IsAwaited q trace) {event : Event Sig}
    (hevent : event.request? = some request) (hne : request.index ≠ q.index) :
  IsAwaited q (event :: trace)
  := by rwa [IsAwaited, latest?_of_ne hevent hne]

/-- Whose turn it is for a validator does not depend on requests for others. -/
theorem HasTurn.asked {Key : Type} {set : ValidatorSet Key} {request q : Request}
    (h : HasTurn set q trace) (time : Nat) (hne : request.index ≠ q.index) :
  HasTurn set q (.asked time request :: trace)
  := by rwa [HasTurn, nodesAsked_asked, if_neg hne, List.append_nil]

/-- A request that was just sent awaits its answer. -/
theorem isAwaited_asked (time : Nat) (request : Request) :
  IsAwaited request (.asked time request :: trace)
  := ⟨time, latest?_of_request? rfl⟩

/-- After a failure that may pass a validator may be asked again. -/
theorem isFree_of_isTransientFailure {event : Event Sig} {request : Request}
    (hevent : event.request? = some request) (h : event.isTransientFailure = true) :
  IsFree request.index (event :: trace)
  := by
  intro last hlast
  rw [latest?_of_request? hevent] at hlast
  cases hlast
  apply h

/-- A validator that was asked before and may be asked again had a transient failure last. -/
theorem IsFree.transient (h : IsFree i trace) {request : Request}
    (hrequest : request ∈ requestsMade trace) (hi : request.index = i) :
  ∃ time q e, latest? i trace = some (.replied time q (.error e)) ∧ e.isTransient = true
  := by
  obtain ⟨asked, hasked, hsent⟩ := List.mem_filterMap.mp (List.mem_reverse.mp hrequest)
  have habout : (asked.request?.any (·.index = i)) = true := by
    cases asked with
    | asked => simp_all [Event.sent?, Event.request?]
    | replied => cases hsent
    | answered => cases hsent
  cases hlatest : latest? i trace with
  | none => exact absurd habout (List.find?_eq_none.mp hlatest asked hasked)
  | some event =>
      have htransient := h event hlatest
      match event with
      | .replied time q (.error e) => use time, q, e, rfl, htransient
      | .replied _ _ (.ok _) => cases htransient
      | .asked .. => cases htransient
      | .answered .. => cases htransient

end Requests

variable {Key Sig : Type} [AggregateScheme Key Sig]

/-! ### Orderly requests -/

section Orderly

variable (quorum : Quorum) (set : ValidatorSet Key) (message : Message)

/-- Requests are sent in order: a validator is asked while it is free to be and the quorum is
not met, its nodes take turns, and an answer is one to a request that awaits it. -/
inductive Orderly : List (Event Sig) → Prop
  | nil : Orderly []
  | asked {trace : List (Event Sig)} (h : Orderly trace) (time : Nat) (request : Request)
      (hfree : IsFree request.index trace) (hturn : HasTurn set request trace)
      (hunmet : ¬ MeetsQuorum quorum set (attestations set message trace)) :
      Orderly (.asked time request :: trace)
  | replied {trace : List (Event Sig)} (h : Orderly trace) (time : Nat) (request : Request)
      (answer : Except MessageError Sig) (hawaited : IsAwaited request trace) :
      Orderly (.replied time request answer :: trace)
  | answered {trace : List (Event Sig)} (h : Orderly trace) (time : Nat)
      (outcome : Outcome Sig) : Orderly (.answered time outcome :: trace)

end Orderly

variable {quorum : Quorum} {set : ValidatorSet Key} {message : Message}
variable {trace before after : List (Event Sig)}

namespace Orderly

/-- What happened before the last event is orderly too. -/
theorem tail {event : Event Sig} (h : Orderly quorum set message (event :: trace)) :
  Orderly quorum set message trace
  := by
  cases h with
  | asked h => exact h
  | replied h => exact h
  | answered h => exact h

/-- What happened earlier is orderly too. -/
theorem earlier (h : Orderly quorum set message (after ++ before)) :
  Orderly quorum set message before
  := by
  induction after with
  | nil => exact h
  | cons event after ih => apply ih h.tail

/-- The nodes of a validator are asked in turn, and the first again after the last. -/
theorem turn (h : Orderly quorum set message trace) {i k : Nat} {node : NodeId}
    (hnode : (nodesAsked i trace)[k]? = some node) :
  ∃ v, set.validators[i]? = some v ∧ v.nodes[k % v.nodes.length]? = some node
  := by
  induction h with
  | nil => cases hnode
  | @asked trace _ time request _ hturn _ ih =>
      rw [nodesAsked_asked] at hnode
      rcases Nat.lt_or_ge k (nodesAsked i trace).length with hk | hk
      · rw [List.getElem?_append_left hk] at hnode
        apply ih hnode
      · rw [List.getElem?_append_right hk] at hnode
        split at hnode
        · next hi =>
          obtain ⟨v, hv, hturn⟩ := hturn
          obtain ⟨hlast, -⟩ := List.getElem?_eq_some_iff.mp hnode
          rw [List.length_singleton] at hlast
          obtain rfl : k = (nodesAsked i trace).length := by omega
          rw [Nat.sub_self] at hnode
          cases hnode
          rw [hi] at hv hturn
          use v, hv, hturn
        · cases hnode
  | replied _ _ _ _ _ ih => apply ih hnode
  | answered _ _ _ ih => apply ih hnode

/-- An answer that is no transient failure stays the last, and the validator is not asked
after it. -/
theorem final (h : Orderly quorum set message (after ++ before)) {i time : Nat}
    {request : Request} {answer : Except MessageError Sig}
    (hlatest : latest? i before = some (.replied time request answer))
    (hfinal : (Event.replied time request answer).isTransientFailure = false) :
  latest? i (after ++ before) = some (.replied time request answer) ∧
    ∀ q ∈ requestsMade after, q.index ≠ i
  := by
  induction after with
  | nil =>
      use hlatest
      intro q hq
      cases hq
  | cons event after ih =>
      obtain ⟨hkept, hnone⟩ := ih h.tail
      cases h with
      | asked _ time' q hfree =>
          have hne : q.index ≠ i := by
            rintro rfl
            have htransient := hfree _ hkept
            rw [hfinal] at htransient
            cases htransient
          use (latest?_of_ne rfl hne).trans hkept
          intro p hp
          rw [requestsMade_asked] at hp
          rcases List.mem_append.mp hp with hp | hp
          · apply hnone p hp
          · rw [List.mem_singleton.mp hp]
            apply hne
      | replied _ time' q answer' hawaited =>
          have hne : q.index ≠ i := by
            rintro rfl
            obtain ⟨time, hasked⟩ := hawaited
            cases hkept.symm.trans hasked
          use (latest?_of_ne rfl hne).trans hkept
          apply hnone
      | answered =>
          use hkept
          apply hnone

/-- A validator whose answer is no transient failure is not asked again. -/
theorem not_asked_again {time : Nat} {request : Request} {answer : Except MessageError Sig}
    (h : Orderly quorum set message (after ++ .replied time request answer :: before))
    (hfinal : (Event.replied time request answer).isTransientFailure = false) :
  ∀ q ∈ requestsMade after, q.index ≠ request.index
  := (h.final (latest?_of_request? rfl) hfinal).2

/-- A validator that is asked again had a transient failure since it was last asked. -/
theorem asked_again {time : Nat} {request q : Request}
    (h : Orderly quorum set message (after ++ .asked time request :: before))
    (hq : q ∈ requestsMade before) (hindex : q.index = request.index) :
  ∃ time' q' e, latest? request.index before = some (.replied time' q' (.error e)) ∧
    e.isTransient = true
  := by
  cases h.earlier with
  | asked _ _ _ hfree => apply hfree.transient hq hindex

/-- Nothing is requested once the quorum is met. -/
theorem requestsMade_of_meets (h : Orderly quorum set message (after ++ before))
    (hmeets : MeetsQuorum quorum set (attestations set message before)) :
  requestsMade after = []
  := by
  induction after with
  | nil => rfl
  | cons event after ih =>
      have hnone := ih h.tail
      cases h with
      | asked _ _ _ _ _ hunmet =>
          apply absurd _ hunmet
          apply hmeets.mono
          use attestations set message after
          apply (attestations_append set message after before).symm
      | replied => exact hnone
      | answered => exact hnone

end Orderly

end Interchain
