import Interchain.Proofs.Round.Aggregation
import Interchain.Proofs.RoundTrip

/-!
# Rounds are exact

A round yields a message exactly if some of the first attestations carry the quorum, and then
the message is signed by as many of them as it takes, neither more nor fewer.
-/

namespace Interchain

variable {σ Key Sig : Type} [AggregateScheme Key Sig]

omit [AggregateScheme Key Sig] in
/-- The shortest beginning of a sequence of attestations that carries a quorum. -/
structure IsFirstQuorum (quorum : Quorum) (set : ValidatorSet Key)
    (s p : List (Attestation Key Sig)) : Prop where
  beginning : p <+: s
  meets : MeetsQuorum quorum set p
  shortest : ∀ q, q <+: s → MeetsQuorum quorum set q → p.length ≤ q.length

/-- A result is what attestations with a given sum of signatures come to: their message with
the sum, signed by exactly the validators that attest, and the weights of these and of the
whole set. -/
structure Attested.IsMadeOf (r : Attested) (set : ValidatorSet Key) (message : Message)
    (p : List (Attestation Key Sig)) (sum : Sig) : Prop where
  message_eq : r.message.message = message
  contains_iff : ∀ i, r.message.signers.contains i = true ↔ ∃ a ∈ p, a.index = i
  signature_eq : r.message.signature = AggregateScheme.encodeSig Key sum
  signed_eq : r.signed = set.markedWeight r.message.signers
  signed_le : r.signed ≤ r.total
  total_eq : r.total = set.total.toNat

/-- What attestations come to in a message that their signers and their sum are put in. -/
theorem isMadeOf_of_make {set : ValidatorSet Key} {message : Message}
    {p : List (Attestation Key Sig)} {sum : Sig} {m : SignedMessage}
    (hp : AllGenuine set message p)
    (hm : SignedMessage.make message (.ofList (p.map (·.index)))
      (AggregateScheme.encodeSig Key sum) = .ok m) :
  Attested.IsMadeOf ⟨m, attestedWeight p, set.total.toNat⟩ set message p sum
  := by
  obtain ⟨hmessage, hsigners, hsignature⟩ := (SignedMessage.make_eq_ok_iff _ _ _ m).mp hm
  have hweight := hp.weight_eq
  constructor
  · apply hmessage
  · intro i
    rw [hsigners, Signers.contains_ofList, List.mem_map]
  · apply hsignature
  · rw [hsigners]
    apply hweight
  · rw [hweight]
    apply set.markedWeight_le
  · rfl

omit [AggregateScheme Key Sig] in
/-- The size of a message with a signature of the validators that attest. -/
def signedSize (message : Message) (s : List (Attestation Key Sig)) : Nat :=
  message.bytes.length + (Signers.ofList (s.map (·.index))).bytes.length + 104

/-- The signers take up no more than a bit for each validator of the set. -/
theorem AllGenuine.signedSize_le {set : ValidatorSet Key} {message : Message}
    {s : List (Attestation Key Sig)} (h : AllGenuine set message s) :
  signedSize message s ≤ message.bytes.length + (set.validators.length + 7) / 8 + 104
  := by
  have hbound : (Signers.ofList (s.map (·.index))).bound ≤ set.validators.length := by
    apply (Signers.bound_le_iff _ _).mpr
    intro i hi
    apply h.index_lt
    apply (Signers.contains_ofList _ _).mp hi
  have hlength := Signers.length_bytes_le hbound
  rw [signedSize]
  omega

namespace Round

variable {s : Setting σ Key Sig} {r : Round σ Sig}

/-- A round whose attestations carry the quorum yields a message with their sum. -/
theorem Settled.result_of_meets (h : Settled s r)
    (hmeets : MeetsQuorum s.config.quorum s.set (attestations s.set s.message r.trace)) :
  ∃ sum, AggregateScheme.aggregateSigs Key
      ((attestations s.set s.message r.trace).map (·.signature)) = .ok sum ∧
    r.result s = (do
      let m ← SignedMessage.make s.message
        (.ofList ((attestations s.set s.message r.trace).map (·.index)))
        (AggregateScheme.encodeSig Key sum)
      return ⟨m, attestedWeight (attestations s.set s.message r.trace), s.set.total.toNat⟩)
  := by
  have hne : (attestations s.set s.message r.trace).map (·.signature) ≠ [] := by
    intro hnil
    exact hmeets.1 (List.map_eq_nil_iff.mp hnil)
  obtain ⟨sum, hsum⟩ := AggregateScheme.exists_aggregateSigs Key hne
  have hagg : r.credit.aggregate = some sum := by
    rw [h.credit_eq, Credit.ofAttestations, hsum]
    rfl
  use sum, hsum
  rw [result, h.sound]
  dsimp only
  rw [h.isReached_iff.mpr hmeets]
  simp only [hagg]
  rw [h.credit_eq]
  rfl

/-- A round whose attestations do not carry the quorum fails with their weight. -/
theorem Settled.result_of_not_meets (h : Settled s r)
    (hmeets : ¬ MeetsQuorum s.config.quorum s.set (attestations s.set s.message r.trace)) :
  r.result s = .error (.quorumNotReached (attestedWeight (attestations s.set s.message r.trace))
    s.set.total.toNat s.config.quorum.numerator.toNat s.config.quorum.denominator.toNat)
  := by
  have hr : r.credit.isReached s.set s.config.quorum = false := by
    rw [Bool.eq_false_iff]
    intro hr
    exact hmeets (h.isReached_iff.mp hr)
  rw [result, h.sound]
  dsimp only
  rw [hr, h.credit_eq]
  rfl

/-- A round has a result exactly if its attestations carry the quorum and the signed message is
not too large. -/
theorem Settled.exists_result_iff (h : Settled s r) :
  (∃ a, r.result s = .ok a)
    ↔ MeetsQuorum s.config.quorum s.set (attestations s.set s.message r.trace) ∧
        signedSize s.message (attestations s.set s.message r.trace) ≤ Wire.maxSize
  := by
  by_cases hmeets : MeetsQuorum s.config.quorum s.set (attestations s.set s.message r.trace)
  · obtain ⟨sum, -, hresult⟩ := h.result_of_meets hmeets
    rw [hresult, signedSize,
      ← SignedMessage.exists_make_iff _ _ (AggregateScheme.encodeSig Key sum)]
    constructor
    · rintro ⟨a, ha⟩
      obtain ⟨m, hm, -⟩ := bind_eq_ok_iff.mp ha
      use hmeets, m
    · rintro ⟨-, m, hm⟩
      rw [hm]
      exact ⟨_, rfl⟩
  · rw [h.result_of_not_meets hmeets]
    constructor
    · rintro ⟨a, ha⟩
      cases ha
    · rintro ⟨hmeets', -⟩
      exact absurd hmeets' hmeets

/-- A round whose attestations carry the quorum has a result, if that is not too large for a
message. -/
theorem Settled.exists_result (h : Settled s r)
    (hmeets : MeetsQuorum s.config.quorum s.set (attestations s.set s.message r.trace))
    (hsize : s.message.bytes.length + (s.set.validators.length + 7) / 8 + 104 ≤ Wire.maxSize) :
  ∃ a, r.result s = .ok a
  := by
  apply h.exists_result_iff.mpr
  use hmeets, h.allGenuine.signedSize_le.trans hsize

end Round

section Schedule

variable (net : Network σ Sig) (set : ValidatorSet Key) (config : RoundConfig) (message : Message)
variable (budget : Nat) (start : Moment) (network : σ)

/-- At the end of a round, however the nodes answer and in whatever order, its attestations are
accounted for. -/
theorem aggregate_settled
    (schedule : FanOut.Schedule net set message (max 1 config.maxConcurrency)
        (some (start.now + config.roundTimeout)) :=
      .earliestFirst net set message (max 1 config.maxConcurrency)
        (some (start.now + config.roundTimeout))) :
  ∃ s : Round.Setting σ Key Sig, s.set = set ∧ s.message = message ∧ s.config = config ∧
    Round.Settled s (aggregate net set config message budget start network schedule).2 ∧
    (aggregate net set config message budget start network schedule).1
      = (aggregate net set config message budget start network schedule).2.result s
  := by
  refine ⟨{ net, set, message, config, budget, deadline := some _, schedule }, rfl, rfl, rfl, ?_,
    rfl⟩
  apply Round.complete_settled
  apply Round.start_ongoing

/-- A result of a round is made of attestations of different validators that carry the
quorum. -/
theorem exists_isMadeOf
    {schedule : FanOut.Schedule net set message (max 1 config.maxConcurrency)
      (some (start.now + config.roundTimeout))} (r : Attested)
    (h : (aggregate net set config message budget start network schedule).1 = .ok r) :
  ∃ p sum, AllGenuine set message p ∧ MeetsQuorum config.quorum set p ∧
    AggregateScheme.aggregateSigs Key (p.map (·.signature)) = .ok sum ∧
    r.message.signers = .ofList (p.map (·.index)) ∧ r.IsMadeOf set message p sum
  := by
  obtain ⟨s, rfl, rfl, rfl, hsettled, hresult⟩ :=
    aggregate_settled net set config message budget start network schedule
  rw [h] at hresult
  by_cases hmeets : MeetsQuorum s.config.quorum s.set
      (attestations s.set s.message
        (aggregate net s.set s.config s.message budget start network schedule).2.trace)
  · obtain ⟨sum, hsum, hmake⟩ := hsettled.result_of_meets hmeets
    rw [hmake] at hresult
    obtain ⟨m, hm, hr⟩ := bind_eq_ok_iff.mp hresult.symm
    cases hr
    exact ⟨_, sum, hsettled.allGenuine, hmeets, hsum,
      ((SignedMessage.make_eq_ok_iff _ _ _ m).mp hm).2.1,
      isMadeOf_of_make hsettled.allGenuine hm⟩
  · rw [hsettled.result_of_not_meets hmeets] at hresult
    cases hresult

end Schedule

/-- However the nodes answer and in whatever order, take the attestations of a round in the
order in which they come.  If some of the first of them carry the quorum, the round yields the
message with the sum of the shortest such beginning, whose validators are the signers, each of
them once, unless that is too large for a message.  If none do, it fails with the weight of
all attestations. -/
theorem aggregate_exact (net : Network σ Sig) (set : ValidatorSet Key) (config : RoundConfig)
    (message : Message) (budget : Nat) (start : Moment) (network : σ)
    (schedule : FanOut.Schedule net set message (max 1 config.maxConcurrency)
      (some (start.now + config.roundTimeout))) :
  let outcome := aggregate net set config message budget start network schedule
  let s := attestations set message outcome.2.trace
  ((∃ p, p <+: s ∧ MeetsQuorum config.quorum set p) →
    ∃ p sum, IsFirstQuorum config.quorum set s p ∧ (p.map (·.index)).Nodup ∧
      AggregateScheme.aggregateSigs Key (p.map (·.signature)) = .ok sum ∧
      ((∃ e, SignedMessage.make message (.ofList (p.map (·.index)))
          (AggregateScheme.encodeSig Key sum) = .error e ∧ outcome.1 = .error e) ∨
        ∃ r, outcome.1 = .ok r ∧ r.IsMadeOf set message p sum)) ∧
  ((∀ p, p <+: s → ¬ MeetsQuorum config.quorum set p) →
    outcome.1 = .error (.quorumNotReached (attestedWeight s) set.total.toNat
      config.quorum.numerator.toNat config.quorum.denominator.toNat))
  := by
  intro outcome s
  obtain ⟨setting, rfl, rfl, rfl, hsettled, hresult⟩ :=
    aggregate_settled net set config message budget start network schedule
  constructor
  · rintro ⟨p, hp, hmeets⟩
    obtain rfl : p = s := hsettled.first p hp hmeets
    have hshortest : IsFirstQuorum setting.config.quorum setting.set s s := by
      use List.prefix_refl s, hmeets
      intro q hq hq'
      rw [hsettled.first q hq hq']
    obtain ⟨sum, hsum, hmake⟩ := hsettled.result_of_meets hmeets
    use s, sum, hshortest, hsettled.nodup, hsum
    cases hm : SignedMessage.make setting.message (.ofList (s.map (·.index)))
      (AggregateScheme.encodeSig Key sum) with
    | error e =>
        left
        use e, rfl
        apply hresult.trans
        rw [hmake, hm]
        rfl
    | ok m =>
        right
        use ⟨m, attestedWeight s, setting.set.total.toNat⟩
        constructor
        · apply hresult.trans
          rw [hmake, hm]
          rfl
        · apply isMadeOf_of_make hsettled.allGenuine hm
  · intro hnone
    apply hresult.trans
    apply hsettled.result_of_not_meets
    apply hnone s (List.prefix_refl s)

end Interchain
