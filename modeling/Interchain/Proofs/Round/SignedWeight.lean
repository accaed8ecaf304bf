import Interchain.Proofs.Round.Acceptance

/-!
# The weight behind what is accepted

A quorum is a fraction of the total weight that is not zero, so the signers of what is accepted
have weight unless the whole set has none, as `accepted_weight_pos_iff` says.  Against a total of
zero all weights are enough, and a single signer without any suffices, as
`accepted_without_weight` shows.
-/

namespace Interchain

/-- The weight that meets a quorum is zero exactly if the total is. -/
theorem Quorum.signed_pos_iff (quorum : Quorum) {signed total : Nat} (hle : signed ≤ total)
    (hmet : total * quorum.numerator.toNat ≤ signed * quorum.denominator.toNat) :
  0 < signed ↔ 0 < total
  := by
  constructor
  · intro hpos
    apply Nat.lt_of_lt_of_le hpos hle
  · intro hpos
    have hfraction : 0 < total * quorum.numerator.toNat := Nat.mul_pos hpos quorum.pos
    apply Nat.pos_of_mul_pos_right
    apply Nat.lt_of_lt_of_le hfraction hmet

/-- A message that is verified, and one that a round yields, has signers of positive weight
exactly if the weight of the whole set is positive. -/
theorem accepted_weight_pos_iff {Key Sig : Type} [AggregateScheme Key Sig]
    (set : ValidatorSet Key) :
  (∀ (m : SignedMessage) (network : UInt32) (quorum : Quorum),
    m.verify network set quorum = .ok () →
    (0 < set.markedWeight m.signers ↔ 0 < set.total.toNat)) ∧
  ∀ {σ : Type} (net : Network σ Sig) (config : RoundConfig) (message : Message) (budget : Nat)
    (start : Moment) (network : σ)
    (schedule : FanOut.Schedule net set message (max 1 config.maxConcurrency)
      (some (start.now + config.roundTimeout))) (r : Attested),
    (aggregate net set config message budget start network schedule).1 = .ok r →
    r.signed = set.markedWeight r.message.signers ∧ (0 < r.signed ↔ 0 < set.total.toNat)
  := by
  constructor
  · intro m network quorum h
    have haccepted := (m.verify_eq_ok_iff network set quorum).mp h
    apply quorum.signed_pos_iff (set.markedWeight_le _) haccepted.enough
  · intro σ net config message budget start network schedule r h
    obtain ⟨p, _, hp, hmeets, -, hplaces, hmade⟩ := exists_isMadeOf _ _ _ _ _ _ _ _ h
    have hweight : r.signed = attestedWeight p := by
      rw [hmade.signed_eq, hplaces, hp.weight_eq]
    use hmade.signed_eq
    rw [hweight]
    apply config.quorum.signed_pos_iff _ hmeets.2
    rw [hp.weight_eq]
    apply set.markedWeight_le

/-- In a canonical set without weight, a round yields a message without weight, which is
verified. -/
theorem accepted_without_weight :
  ∃ (message : Message) (r : Attested),
    let set : ValidatorSet Residue := .sole ⟨3, 0, [default]⟩
    ValidatorSet.ofRecords [⟨default, some (3 : Residue), 0⟩] = .ok set ∧
    (aggregate (Residue.prompt 3) set {} message 1 {} ()).1 = .ok r ∧
    r.message.verify message.network set .standard = .ok () ∧
    r.signed = 0 ∧ set.markedWeight r.message.signers = 0
  := by
  obtain ⟨message, hlength⟩ := Message.exists_length_bytes (show 0 + 42 ≤ Wire.maxSize by decide)
  have hsize : message.bytes.length + 105 ≤ Wire.maxSize := by
    rw [hlength]
    decide
  let v : Validator Residue := ⟨3, 0, [default]⟩
  obtain ⟨r, hr⟩ := Residue.exists_aggregate_sole (v := v) (by decide) rfl {} hsize Nat.one_pos
  obtain ⟨p, sum, hp, hmeets, hsum, hplaces, hmade⟩ := exists_isMadeOf _ _ _ _ _ _ _ _ hr
  have hkey : AggregateScheme.aggregateKeys (((ValidatorSet.sole v).marked r.message.signers).map
      (·.key)) ≠ .ok (0 : Residue) := by
    rw [Residue.marked_of_aggregate hr]
    decide
  have haccepted := hmade.accepted Residue.additive hp hmeets hsum hplaces hkey
  have hzero : r.signed = 0 := by
    apply Nat.le_zero.mp
    apply hmade.signed_le.trans
    rw [hmade.total_eq]
    rfl
  use message, r, ValidatorSet.ofRecords_sole default 3 0, hr, haccepted.verify_eq, hzero
  rw [← hzero]
  apply hmade.signed_eq.symm

end Interchain
