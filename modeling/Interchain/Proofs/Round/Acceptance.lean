import Interchain.Ledger.PredicateCheck
import Interchain.Proofs.Acceptance
import Interchain.Proofs.Round.Honesty

/-!
# Results are accepted

What a round yields is accepted wherever its validators and its quorum are required: as a
message, in its encoding, and as a packed predicate.
-/

namespace Interchain

open AggregateScheme

variable {σ Key Sig : Type} [AggregateScheme Key Sig]

/-- Attestations make up the sum of their signatures and the sum of the marked keys. -/
theorem isSumOf_attestations {set : ValidatorSet Key} {message : Message}
    {p : List (Attestation Key Sig)} {key : Key} {sum : Sig}
    (hp : AllGenuine set message p)
    (hkey : aggregateKeys ((set.marked (.ofList (p.map (·.index)))).map (·.key)) = .ok key)
    (hsum : aggregateSigs Key (p.map (·.signature)) = .ok sum) :
  IsSumOf message.id.bytes (p.map fun a => (a.validator.key, a.signature)) key sum
  := by
  constructor
  · intro q hq
    obtain ⟨a, ha, rfl⟩ := List.mem_map.mp hq
    apply (hp.genuine a ha).verified
  · refine ⟨_, ?_, hkey⟩
    have hperm := hp.marked_perm.map (·.key)
    rw [List.map_map] at hperm ⊢
    exact hperm
  · rw [List.map_map]
    exact hsum

/-- A message made of attestations that carry the quorum is accepted. -/
theorem Attested.IsMadeOf.accepted {r : Attested} {set : ValidatorSet Key} {message : Message}
    {p : List (Attestation Key Sig)} {sum : Sig} {quorum : Quorum} {identity : Key}
    (h : r.IsMadeOf set message p sum) (hscheme : Additive Key identity)
    (hp : AllGenuine set message p)
    (hmeets : MeetsQuorum quorum set p)
    (hsum : aggregateSigs Key (p.map (·.signature)) = .ok sum)
    (hsigners : r.message.signers = .ofList (p.map (·.index)))
    (hkey : aggregateKeys ((set.marked r.message.signers).map (·.key)) ≠ .ok identity) :
  r.message.Accepted message.network set quorum
  := by
  have hknown : ∀ i, r.message.signers.contains i = true → i < set.validators.length := by
    intro i hi
    apply hp.index_lt
    apply List.mem_map.mpr ((h.contains_iff i).mp hi)
  have hsigned : ∃ i, r.message.signers.contains i = true := by
    obtain ⟨a, ha⟩ := List.exists_mem_of_ne_nil p hmeets.1
    use a.index
    apply (h.contains_iff _).mpr
    use a, ha
  constructor
  · rw [h.message_eq]
  · apply hknown
  · apply hsigned
  · rw [hsigners, ← hp.weight_eq]
    apply hmeets.2
  · have hne : (set.marked r.message.signers).map (·.key) ≠ [] := by
      intro hnil
      exact set.marked_ne_nil hknown hsigned (List.map_eq_nil_iff.mp hnil)
    obtain ⟨key, hkey'⟩ := exists_aggregateKeys hne
    have hid : key ≠ identity := by
      rintro rfl
      exact hkey hkey'
    have hsumOf : IsSumOf message.id.bytes (p.map fun a => (a.validator.key, a.signature)) key
        sum := by
      apply isSumOf_attestations hp _ hsum
      rw [← hsigners]
      apply hkey'
    use key, sum, hkey'
    constructor
    · rw [h.signature_eq]
      apply hscheme.decode_sum hsumOf hid
    · rw [SignedMessage.id, h.message_eq]
      apply hscheme.verify_sum hsumOf hid

/-- A view with the set and the quorum that a message was accepted for accepts it as a packed
predicate. -/
theorem PredicateView.check_pack (view : PredicateView Key) {m : SignedMessage}
    {set : ValidatorSet Key} (hset : view.validators m.message.chain = .ok set)
    (h : m.verify view.network set view.quorum = .ok ()) :
  view.check (Predicate.pack m.bytes) = .ok m
  := by
  apply bind_eq_ok_iff.mpr
  use m, Predicate.decode_pack m
  apply bind_eq_ok_iff.mpr
  use set
  constructor
  · rw [hset]
    rfl
  · apply bind_eq_ok_iff.mpr
    use ()
    constructor
    · rw [h]
      rfl
    · rfl

/-! ### A round with three validators -/

namespace Residue

/-- Three nodes that sign, each in its own time. -/
def staggered (delay : Nat → Nat) : Network Unit Residue where
  ask _ node message network :=
    let i := if node = nodeAt 0 then 0 else if node = nodeAt 1 then 1 else 2
    (⟨some (delay i), .ok (sign (keyAt i) message.id.bytes)⟩, network)

/-- A round that takes all validators to sign. -/
def unanimous : RoundConfig where
  quorum := ⟨1, 1, by decide, by decide⟩

/-- A first reply is the signature of the validator that is asked. -/
theorem firstReply_staggered {delay : Nat → Nat} {message : Message} {config : RoundConfig}
    {start : Moment} {i : Nat} {reply : Reply Residue}
    (h : FirstReply (staggered delay) trio config message start () i reply) :
  i < 3 ∧ reply = ⟨some (delay i), .ok (sign (keyAt i) message.id.bytes)⟩
  := by
  obtain ⟨hcalled, -, -⟩ := h
  have hmem := hcalled.mem_firstRequests _ (List.mem_cons_self ..)
  rw [firstRequests_trio] at hmem
  simp only [List.mem_cons, List.not_mem_nil, or_false] at hmem
  rcases hmem with rfl | rfl | rfl
  · exact ⟨by decide, rfl⟩
  · exact ⟨by decide, rfl⟩
  · exact ⟨by decide, rfl⟩

/-- All three sign in time. -/
theorem honestQuorum_staggered {delay : Nat → Nat} (hdelay : delay 0 + delay 1 + delay 2 ≤ 30000)
    (message : Message) :
  HonestQuorum (staggered delay) trio unanimous message {} () (.ofList [0, 1, 2]) .empty delay
  := by
  constructor
  · intro i hi
    rw [Signers.contains_ofList] at hi
    fin_cases hi
    · exact ⟨_, _, rfl, rfl⟩
    · exact ⟨_, _, rfl, rfl⟩
    · exact ⟨_, _, rfl, rfl⟩
  · rintro i reply - hreply
    obtain ⟨hlt, rfl⟩ := firstReply_staggered hreply
    interval_cases i
    · exact ⟨_, _, rfl, rfl, verify_sign (by decide) _⟩
    · exact ⟨_, _, rfl, rfl, verify_sign (by decide) _⟩
    · exact ⟨_, _, rfl, rfl, verify_sign (by decide) _⟩
  · rintro i reply - hreply
    obtain ⟨-, rfl⟩ := firstReply_staggered hreply
    use delay i, rfl
  · intro i _
    apply Signers.contains_empty
  · decide
  · show delay 0 + (delay 1 + (delay 2 + 0)) ≤ 30000
    omega
  · use 0
    rfl
  · decide

/-- The weight of the three validators that are marked. -/
theorem markedWeight_trio (signers : Signers) :
  trio.markedWeight signers = (if signers.contains 0 then 7 else 0)
    + (if signers.contains 1 then 2 else 0) + if signers.contains 2 then 1 else 0
  := by
  by_cases h₀ : signers.contains 0
  all_goals by_cases h₁ : signers.contains 1
  all_goals by_cases h₂ : signers.contains 2
  all_goals simp [ValidatorSet.markedWeight, ValidatorSet.marked, trio, totalWeight, h₀, h₁, h₂]

/-- Exactly the three are signers of what a unanimous round yields. -/
theorem contains_of_unanimous {net : Network σ Residue} {message : Message} {budget : Nat}
    {start : Moment} {network : σ} {r : Attested}
    (h : (aggregate net trio unanimous message budget start network).1 = .ok r) (i : Nat) :
  r.message.signers.contains i = decide (i < 3)
  := by
  obtain ⟨p, _, hp, hmeets, -, hplaces, -⟩ := exists_isMadeOf _ _ _ _ _ _ _ _ h
  have henough : 10 * 1 ≤ attestedWeight p * 1 := hmeets.2
  rw [hp.weight_eq, ← hplaces, markedWeight_trio] at henough
  rcases Nat.lt_or_ge i 3 with hi | hi
  · rw [decide_eq_true hi]
    by_contra hmissing
    interval_cases i
    all_goals split_ifs at henough
    all_goals first | omega | contradiction
  · rw [decide_eq_false (Nat.not_lt_of_le hi), Bool.eq_false_iff]
    intro hcontains
    rw [hplaces, Signers.contains_ofList] at hcontains
    have hlt : i < 3 := hp.index_lt hcontains
    omega

/-- A unanimous round has a result. -/
theorem exists_aggregate_staggered (delay : Nat → Nat)
    (hdelay : delay 0 + delay 1 + delay 2 ≤ 30000) {message : Message}
    (hsize : message.bytes.length + 105 ≤ Wire.maxSize) {budget : Nat} (hbudget : 3 ≤ budget) :
  ∃ r, (aggregate (staggered delay) trio unanimous message budget {} ()).1 = .ok r
  := by
  let s : Round.Setting Unit Residue Residue :=
    { net := staggered delay, set := trio, message, config := unanimous, budget,
      deadline := some (0 + 30000) }
  have hsize' : s.message.bytes.length + (s.set.validators.length + 7) / 8 + 104
      ≤ Wire.maxSize := by
    have hlength : s.set.validators.length = 3 := rfl
    rw [hlength]
    apply hsize
  apply Round.exists_result_of_honestQuorum (s := s) (honestQuorum_staggered hdelay message) rfl
    hsize' hbudget rfl

/-- What a unanimous round yields is signed by the sum of the three keys. -/
theorem aggregateKeys_of_unanimous {net : Network σ Residue} {message : Message} {budget : Nat}
    {start : Moment} {network : σ} {r : Attested}
    (h : (aggregate net trio unanimous message budget start network).1 = .ok r) :
  aggregateKeys ((trio.marked r.message.signers).map (·.key)) = .ok (6 : Residue)
  := by
  have hmarked : trio.marked r.message.signers = trio.validators := by
    simp [ValidatorSet.marked, trio, contains_of_unanimous h]
  rw [hmarked]
  decide

end Residue

/-! ### What a round yields -/

/-- What a round yields is accepted for the set and the quorum of the round, is read back from
its encoding, and is accepted as a packed predicate by every view that requires this quorum and
has this set for the source, unless the keys of the signers cancel. -/
theorem aggregate_accepted {identity : Key} (hscheme : Additive Key identity)
    (net : Network σ Sig) (set : ValidatorSet Key) (config : RoundConfig) (message : Message)
    (budget : Nat) (start : Moment) (network : σ)
    (schedule : FanOut.Schedule net set message (max 1 config.maxConcurrency)
      (some (start.now + config.roundTimeout))) (r : Attested)
    (hr : (aggregate net set config message budget start network schedule).1 = .ok r)
    (hkey : aggregateKeys ((set.marked r.message.signers).map (·.key)) ≠ .ok identity) :
  r.message.verify message.network set config.quorum = .ok () ∧
  SignedMessage.parse r.message.bytes = .ok r.message ∧
  ∀ view : PredicateView Key, view.network = message.network → view.quorum = config.quorum →
    view.validators message.chain = .ok set →
    view.check (Predicate.pack r.message.bytes) = .ok r.message
  := by
  obtain ⟨p, sum, hp, hmeets, hsum, hsigners, hmade⟩ :=
    exists_isMadeOf net set config message budget start network r hr
  have haccepted := hmade.accepted hscheme hp hmeets hsum hsigners hkey
  use haccepted.verify_eq, r.message.parse_bytes
  intro view hnetwork hquorum hset
  rw [← hmade.message_eq] at hset
  apply view.check_pack hset
  rw [hnetwork, hquorum]
  apply haccepted.verify_eq

/-- What three validators sign, of which the last one answers first, is accepted. -/
theorem aggregate_accepted_staggered :
  ∃ (message : Message) (r : Attested),
    let net := Residue.staggered fun i => 2 - i
    let set := Residue.trio
    let config := Residue.unanimous
    Additive Residue (0 : Residue) ∧
    (aggregate net set config message 3 {} ()).1 = .ok r ∧
    (∀ i, r.message.signers.contains i = decide (i < 3)) ∧
    aggregateKeys ((set.marked r.message.signers).map (·.key)) ≠ .ok 0 ∧
    r.message.verify message.network set config.quorum = .ok () ∧
    SignedMessage.parse r.message.bytes = .ok r.message ∧
    ∀ view : PredicateView Residue, view.network = message.network →
      view.quorum = config.quorum → view.validators message.chain = .ok set →
      view.check (Predicate.pack r.message.bytes) = .ok r.message
  := by
  obtain ⟨message, hlength⟩ := Message.exists_length_bytes (show 0 + 42 ≤ Wire.maxSize by decide)
  have hsize : message.bytes.length + 105 ≤ Wire.maxSize := by
    rw [hlength]
    decide
  obtain ⟨r, hr⟩ := Residue.exists_aggregate_staggered (fun i => 2 - i) (by decide) hsize
    (Nat.le_refl 3)
  have hkey : aggregateKeys ((Residue.trio.marked r.message.signers).map (·.key))
      ≠ .ok (0 : Residue) := by
    rw [Residue.aggregateKeys_of_unanimous hr]
    decide
  use message, r, Residue.additive, hr, Residue.contains_of_unanimous hr, hkey
  apply aggregate_accepted Residue.additive _ _ _ _ _ _ _ _ _ hr hkey

end Interchain
