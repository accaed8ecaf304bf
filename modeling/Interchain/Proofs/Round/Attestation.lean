import Interchain.Proofs.Marking
import Interchain.Proofs.Round.FanOut
import Interchain.Proofs.Scheme
import Interchain.Round.Aggregation

/-!
# Attestations

An attestation is a signature over a message that is one of the validator it is claimed for.
`attestations` lists those among the answers of a round, in the order in which they came.
`Credit.ofAttestations` is the credit they add up to, however it was reached;
`Credit.add_ofAttestations` adds one, which never leaves 64 bits, and `AllGenuine.isReached_iff`
says when they carry a quorum.
-/

namespace Interchain

/-- A validator's signature over a message, with the place of the validator. -/
structure Attestation (Key Sig : Type) where
  index : Nat
  validator : Validator Key
  signature : Sig

variable {σ Key Sig : Type} [AggregateScheme Key Sig]

/-- The attestation among what happened, if the answer is a signature of the validator that
was asked. -/
def Event.attestation? (set : ValidatorSet Key) (message : Message) :
    Event Sig → Option (Attestation Key Sig)
  | .replied _ request (.ok sig) => do
    let v ← set.validators[request.index]?
    if AggregateScheme.verify v.key message.id.bytes sig then some ⟨request.index, v, sig⟩
    else none
  | _ => none

/-- The attestations of a round in the order in which they came. -/
def attestations (set : ValidatorSet Key) (message : Message) (trace : List (Event Sig)) :
    List (Attestation Key Sig) :=
  (trace.filterMap (Event.attestation? set message)).reverse

/-- A signature of a validator of the set, which is at its place. -/
structure Attestation.Genuine (set : ValidatorSet Key) (message : Message)
    (a : Attestation Key Sig) : Prop where
  validator_eq : set.validators[a.index]? = some a.validator
  verified : AggregateScheme.verify a.validator.key message.id.bytes a.signature = true

/-- Signatures of validators of the set, each of another validator. -/
structure AllGenuine (set : ValidatorSet Key) (message : Message)
    (s : List (Attestation Key Sig)) : Prop where
  genuine : ∀ a ∈ s, a.Genuine set message
  nodup : (s.map (·.index)).Nodup

/-- The weight of the validators that attest. -/
def attestedWeight (s : List (Attestation Key Sig)) : Nat :=
  totalWeight (s.map (·.validator.weight))

/-- Some attestations carry a quorum if there are any and their weight is the fraction of the
total. -/
def MeetsQuorum (quorum : Quorum) (set : ValidatorSet Key) (s : List (Attestation Key Sig)) :
    Prop :=
  s ≠ [] ∧ set.total.toNat * quorum.numerator.toNat ≤ attestedWeight s * quorum.denominator.toNat

/-! ### The attestations of a round -/

variable (set : ValidatorSet Key) (message : Message)

/-- An attestation is genuine. -/
theorem Event.genuine_of_attestation? {event : Event Sig} {a : Attestation Key Sig}
    (h : event.attestation? set message = some a) :
  a.Genuine set message
  := by
  match event with
  | .replied _ request (.ok sig) =>
    obtain ⟨v, hv, h⟩ := Option.bind_eq_some_iff.mp h
    split at h
    · next hverify =>
      cases h
      exact ⟨hv, hverify⟩
    · cases h

theorem genuine_of_mem_attestations {trace : List (Event Sig)} {a : Attestation Key Sig}
    (h : a ∈ attestations set message trace) :
  a.Genuine set message
  := by
  obtain ⟨event, -, h⟩ := List.mem_filterMap.mp (List.mem_reverse.mp h)
  apply Event.genuine_of_attestation? set message h

/-- Attestations are genuine if nobody attests twice. -/
theorem allGenuine_attestations {trace : List (Event Sig)}
    (h : ((attestations set message trace).map (·.index)).Nodup) :
  AllGenuine set message (attestations set message trace)
  := by
  constructor
  · intro a ha
    apply genuine_of_mem_attestations set message ha
  · apply h

/-- The attestations of what happened earlier came first. -/
theorem attestations_append (after before : List (Event Sig)) :
  attestations set message (after ++ before)
    = attestations set message before ++ attestations set message after
  := by
  rw [attestations, List.filterMap_append, List.reverse_append, attestations, attestations]

namespace FanOut

/-- What an answer amounts to, and whether it is an attestation. -/
theorem judge_cases (time : Nat) (flight : Flight Sig) :
  (∃ a : Attestation Key Sig,
    (Event.replied time flight.request flight.answer).attestation? set message = some a ∧
      a.index = flight.request.index ∧
      judge set message flight = .signed a.index a.signature) ∨
  ((Event.replied time flight.request flight.answer).attestation? set message = none ∧
    ((∃ e, judge set message flight = .transient flight.request.index e) ∨
      ∃ e, judge set message flight = .rejected flight.request.index e))
  := by
  rw [judge]
  cases flight.answer with
  | error e =>
      right
      use rfl
      cases hv : e.isTransient with
      | true =>
          left
          use e
          simp only [hv, if_true]
      | false =>
          right
          use e
          simp only [hv, Bool.false_eq_true, if_false]
  | ok sig =>
      cases hv : set.validators[flight.request.index]? with
      | none =>
          right
          constructor
          · simp only [Event.attestation?, hv, Option.bind_eq_bind, Option.bind_none]
          · right
            exact ⟨_, rfl⟩
      | some v =>
          simp only [Event.attestation?, hv, Option.bind_eq_bind, Option.bind_some]
          by_cases hverify : AggregateScheme.verify v.key message.id.bytes sig = true
          · left
            use ⟨flight.request.index, v, sig⟩
            simp only [if_pos hverify, and_self]
          · right
            rw [if_neg hverify, if_neg hverify]
            use rfl
            right
            exact ⟨_, rfl⟩

/-- A noted answer is put behind the attestations, if it is one. -/
theorem attestations_note (flight : Flight Sig) (f : FanOut σ Sig) :
  attestations set message (f.note set message flight).trace
    = attestations set message f.trace ++
      ((Event.replied f.now flight.request flight.answer).attestation? set message).toList
  := by
  have hanswered : (Event.answered f.now (judge set message flight)).attestation? set message
      = none := rfl
  rw [attestations, note, List.filterMap_cons_none hanswered]
  cases h : (Event.replied f.now flight.request flight.answer).attestation? set message with
  | none =>
      rw [List.filterMap_cons_none h, attestations, Option.toList_none, List.append_nil]
  | some a =>
      rw [List.filterMap_cons_some h, List.reverse_cons, attestations, Option.toList_some]

end FanOut

/-! ### The credit of attestations -/

/-- The credit of attestations: the validators that attest, their weight, and the sum of their
signatures. -/
def Credit.ofAttestations (s : List (Attestation Key Sig)) : Credit Sig where
  signers := .ofList (s.map (·.index))
  weight := attestedWeight s
  aggregate := (AggregateScheme.aggregateSigs Key (s.map (·.signature))).toOption

variable {set message}

/-- The weight of attestations is that of the validators at their places. -/
theorem attestedWeight_eq_weightAt {l : List (Attestation Key Sig)}
    (h : ∀ a ∈ l, a.Genuine set message) :
  attestedWeight l = set.weightAt (l.map (·.index))
  := by
  rw [attestedWeight, ValidatorSet.weightAt, List.filterMap_map, ← List.filterMap_eq_map]
  congr 1
  apply List.filterMap_congr
  intro a ha
  simp only [Function.comp_apply, (h a ha).validator_eq, Option.map_some]

omit [AggregateScheme Key Sig] in
/-- More attestations carry a quorum if fewer do. -/
theorem MeetsQuorum.mono {quorum : Quorum} {p l : List (Attestation Key Sig)}
    (h : MeetsQuorum quorum set p) (hl : p <+: l) :
  MeetsQuorum quorum set l
  := by
  obtain ⟨rest, rfl⟩ := hl
  constructor
  · apply List.append_ne_nil_of_left_ne_nil h.1
  · have hle : attestedWeight p ≤ attestedWeight (p ++ rest) := by
      rw [attestedWeight, attestedWeight, List.map_append, totalWeight_append]
      apply Nat.le_add_right
    apply h.2.trans (Nat.mul_le_mul_right _ hle)

namespace AllGenuine

variable {s : List (Attestation Key Sig)} (h : AllGenuine set message s)

include h

/-- The validators that attest are in the set. -/
theorem index_lt {i : Nat} (hi : i ∈ s.map (·.index)) :
  i < set.validators.length
  := by
  obtain ⟨a, ha, rfl⟩ := List.mem_map.mp hi
  apply (List.getElem?_eq_some_iff.mp (h.genuine a ha).validator_eq).1

/-- The validators that attest are those that their places mark. -/
theorem marked_perm :
  (set.marked (.ofList (s.map (·.index)))).Perm (s.map (·.validator))
  := by
  have hb : (Signers.ofList (s.map (·.index))).bound ≤ set.validators.length := by
    apply (Signers.bound_le_iff _ _).mpr
    intro i hi
    apply h.index_lt
    apply (Signers.contains_ofList _ _).mp hi
  have hfind : (s.map (·.index)).filterMap (set.validators[·]?) = s.map (·.validator) := by
    rw [List.filterMap_map, ← List.filterMap_eq_map]
    apply List.filterMap_congr
    intro a ha
    apply (h.genuine a ha).validator_eq
  rw [← set.filterMap_toList hb, ← hfind]
  apply (Signers.toList_ofList_perm h.nodup).filterMap

/-- The weight of attestations is that of the validators that they mark. -/
theorem weight_eq :
  attestedWeight s = set.markedWeight (.ofList (s.map (·.index)))
  := by
  have hperm := h.marked_perm.map (·.weight)
  rw [ValidatorSet.markedWeight, totalWeight_perm hperm, List.map_map]
  rfl

/-- Attestations carry no more than the weight of the set. -/
theorem weight_le :
  attestedWeight s ≤ set.total.toNat
  := by
  rw [h.weight_eq]
  apply set.markedWeight_le

/-- The credit of attestations ends a round exactly if they carry the quorum. -/
theorem isReached_iff (quorum : Quorum) :
  (Credit.ofAttestations s).isReached set quorum = true ↔ MeetsQuorum quorum set s
  := by
  have hle := h.weight_le
  have hsize : (Credit.ofAttestations s).signers.size = s.length := by
    rw [Credit.ofAttestations, Signers.size, (Signers.toList_ofList_perm h.nodup).length_eq,
      List.length_map]
  have hweight : (Credit.ofAttestations s).weight = attestedWeight s := rfl
  rw [Credit.isReached, Quorum.isReached, Quorum.isMet, hsize, hweight, MeetsQuorum,
    Bool.and_eq_true, Bool.and_eq_true, decide_eq_true_eq, decide_eq_true_eq, decide_eq_true_eq,
    List.length_pos_iff]
  tauto

end AllGenuine

/-- The attestation of a validator that has not attested yet is added to the credit, as the
weight of all of them is part of that of the set. -/
theorem Credit.add_ofAttestations {s : List (Attestation Key Sig)} {a : Attestation Key Sig}
    (h : AllGenuine set message (s ++ [a])) :
  (ofAttestations s).add set a.index a.signature = .ok (ofAttestations (s ++ [a]))
  := by
  have hnew : ¬ (ofAttestations s).signers.contains a.index = true := by
    have hnodup := h.nodup
    rw [List.map_append, List.nodup_append] at hnodup
    rw [ofAttestations, Signers.contains_ofList]
    intro hmem
    exact hnodup.2.2 _ hmem _ (List.mem_singleton_self _) rfl
  have hweight : attestedWeight (s ++ [a]) = attestedWeight s + a.validator.weight.toNat := by
    rw [attestedWeight, List.map_append, totalWeight_append]
    rfl
  have hadd : addChecked (attestedWeight s) a.validator.weight
      = .ok (attestedWeight (s ++ [a])) := by
    have hlt := Nat.lt_of_le_of_lt h.weight_le set.total.toNat_lt_size
    rw [hweight] at hlt
    exact (addChecked_eq_ok_iff ..).mpr ⟨hlt, hweight⟩
  rw [add, if_neg hnew, (h.genuine a (List.mem_concat_self ..)).validator_eq]
  simp only [ofAttestations, Option.map_some, Option.getD_some, hadd, List.map_append,
    List.map_cons, List.map_nil, Signers.ofList_concat, AggregateScheme.aggregateSigs_concat]
  rfl

end Interchain
