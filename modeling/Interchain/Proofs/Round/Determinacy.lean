import Interchain.Proofs.Round.Acceptance

/-!
# Same signers, same result

Who attests in a round, and in which order, depends on how the nodes answer.  If each validator
has only one signature over a message and signatures are points that are added up, the sum depends
on the signers alone, as `exists_represents` says.  So two rounds about a message that have the
same signers have the same result, as `aggregate_determined` says.
-/

namespace Interchain

open AggregateScheme

section Determinacy

variable {σ τ Key Sig Point : Type} [AggregateScheme Key Sig] [AddCommMonoid Point]
variable {Represents : Sig → Point → Prop} (h : PointAddition Key Represents)

include h

/-- However signers come to attest, their signatures over a message add up to one point. -/
theorem exists_represents (set : ValidatorSet Key) (message : Message) (signers : Signers) :
  ∃ point, ∀ (p : List (Attestation Key Sig)) (sum : Sig), AllGenuine set message p →
    signers = .ofList (p.map (·.index)) → aggregateSigs Key (p.map (·.signature)) = .ok sum →
    Represents sum point
  := by
  choose point hpoint using fun v : Validator Key => h.unique v.key message.id.bytes
  use ((set.marked signers).map point).sum
  rintro p sum hp rfl hsum
  have hperm := (hp.marked_perm.map point).sum_eq
  rw [List.map_map] at hperm
  rw [hperm]
  apply h.sum _ hsum
  intro a ha
  apply hpoint
  apply (hp.genuine a ha).verified

/-- Two rounds about a message, in whatever network, with whatever settings and in whatever order
the answers come, have the same result if they have results with the same signers. -/
theorem aggregate_determined (set : ValidatorSet Key) (message : Message)
    (net : Network σ Sig) (config : RoundConfig) (budget : Nat) (start : Moment) (network : σ)
    (schedule : FanOut.Schedule net set message (max 1 config.maxConcurrency)
      (some (start.now + config.roundTimeout)))
    (net' : Network τ Sig) (config' : RoundConfig) (budget' : Nat) (start' : Moment) (network' : τ)
    (schedule' : FanOut.Schedule net' set message (max 1 config'.maxConcurrency)
      (some (start'.now + config'.roundTimeout)))
    {r r' : Attested}
    (hr : (aggregate net set config message budget start network schedule).1 = .ok r)
    (hr' : (aggregate net' set config' message budget' start' network' schedule').1 = .ok r')
    (hsigners : ∀ i, r.message.signers.contains i = r'.message.signers.contains i) :
  r = r'
  := by
  obtain ⟨p, sum, hp, -, hsum, hplaces, hmade⟩ := exists_isMadeOf _ _ _ _ _ _ _ _ hr
  obtain ⟨p', sum', hp', -, hsum', hplaces', hmade'⟩ := exists_isMadeOf _ _ _ _ _ _ _ _ hr'
  have hsame := Signers.eq_of_contains hsigners
  obtain ⟨point, hpoint⟩ := exists_represents h set message r.message.signers
  have hsignature : r.message.signature = r'.message.signature := by
    rw [hmade.signature_eq, hmade'.signature_eq]
    apply h.encode (hpoint p sum hp hplaces hsum)
    apply hpoint p' sum' hp' (hsame.trans hplaces') hsum'
  have hmessage : r.message = r'.message := by
    apply SignedMessage.eq_of_contents _ hsame hsignature
    rw [hmade.message_eq, hmade'.message_eq]
  have hsigned : r.signed = r'.signed := by
    rw [hmade.signed_eq, hmade'.signed_eq, hmessage]
  have htotal : r.total = r'.total := by
    rw [hmade.total_eq, hmade'.total_eq]
  obtain ⟨m, signed, total⟩ := r
  obtain ⟨m', signed', total'⟩ := r'
  cases hmessage
  cases hsigned
  cases htotal
  rfl

end Determinacy

/-- Whether the first validator answers first or last, the result is the same. -/
theorem aggregate_determined_staggered :
  ∃ (message : Message) (r r' : Attested),
    PointAddition Residue (fun s p : Residue => s = p) ∧
    (aggregate (Residue.staggered fun i => i) Residue.trio Residue.unanimous message 3 {} ()).1
      = .ok r ∧
    (aggregate (Residue.staggered fun i => 2 - i) Residue.trio Residue.unanimous message 9 {}
      ()).1 = .ok r' ∧
    (∀ i, r.message.signers.contains i = r'.message.signers.contains i) ∧ r = r'
  := by
  obtain ⟨message, hlength⟩ := Message.exists_length_bytes (show 0 + 42 ≤ Wire.maxSize by decide)
  have hsize : message.bytes.length + 105 ≤ Wire.maxSize := by
    rw [hlength]
    decide
  obtain ⟨r, hr⟩ := Residue.exists_aggregate_staggered (fun i => i) (by decide) hsize
    (Nat.le_refl 3)
  obtain ⟨r', hr'⟩ := Residue.exists_aggregate_staggered (fun i => 2 - i) (by decide) hsize
    (show 3 ≤ 9 by decide)
  have hsigners : ∀ i, r.message.signers.contains i = r'.message.signers.contains i := by
    intro i
    rw [Residue.contains_of_unanimous hr, Residue.contains_of_unanimous hr']
  use message, r, r', Residue.pointAddition, hr, hr', hsigners
  apply aggregate_determined Residue.pointAddition _ _ _ _ _ _ _ _ _ _ _ _ _ _ hr hr' hsigners

end Interchain
