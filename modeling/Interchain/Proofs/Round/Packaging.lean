import Interchain.Proofs.Ledger.Emission
import Interchain.Proofs.Round.Honesty

/-!
# Putting the result together

When the attestations of a round carry the quorum, nothing but the size of the signed message
keeps the round from a result: the signed message is longer than the message by its signature and
by the byte form of its signers, and is under the same limit.  `aggregate_packs` says how much room
a message has to leave.  One that a call sent may leave too little, as `aggregate_tooLarge` shows.
-/

namespace Interchain

variable {σ Key Sig : Type} [AggregateScheme Key Sig]

/-- The message that a call announces is longer than its payload by the fields around it. -/
theorem Messenger.length_bytes_of_send {m : Messenger} {ctx : CallContext} {payload : Bytes}
    {limit : Nat} {c : CallResult} (h : m.send ctx payload limit = .ok c) {message : Message}
    (hmessage : c.announcements = [announcement ctx.caller message]) :
  message.bytes.length = payload.length + 76
  := by
  obtain ⟨call, sent, hcall, hsent, hannounced⟩ := announcements_send h
  have hdata : Abi.bytesArgument sent.bytes = Abi.bytesArgument message.bytes := by
    rw [hannounced] at hmessage
    apply congrArg Announcement.data (List.singleton_inj.mp hmessage)
  have hdecode := Abi.decodeAnnounced_bytesArgument sent
  rw [hdata, Abi.decodeAnnounced_bytesArgument] at hdecode
  cases hdecode
  rw [message.length_bytes, ((Message.make_eq_ok_iff ..).mp hsent).2.2, call.length_bytes,
    ((Call.make_eq_ok_iff ..).mp hcall).2]

namespace Round

variable {s : Setting σ Key Sig} {r : Round σ Sig}

/-- If the attestations carry the quorum but the signed message is too large, the round says
so. -/
theorem Settled.result_tooLarge (h : Settled s r)
    (hmeets : MeetsQuorum s.config.quorum s.set (attestations s.set s.message r.trace))
    (hsize : Wire.maxSize < signedSize s.message (attestations s.set s.message r.trace)) :
  ∃ n, Wire.maxSize < n ∧ n ≤ signedSize s.message (attestations s.set s.message r.trace) ∧
    r.result s = .error (.tooLarge n Wire.maxSize)
  := by
  obtain ⟨sum, -, hresult⟩ := h.result_of_meets hmeets
  cases hmake : SignedMessage.make s.message
      (.ofList ((attestations s.set s.message r.trace).map (·.index)))
      (AggregateScheme.encodeSig Key sum) with
  | ok m =>
      have hfits := (SignedMessage.exists_make_iff ..).mp ⟨m, hmake⟩
      rw [signedSize] at hsize
      omega
  | error e =>
      obtain ⟨n, hlt, hle, rfl⟩ := SignedMessage.eq_tooLarge_of_make hmake
      use n, hlt, hle
      rw [hresult, hmake]
      rfl

end Round

section TooLarge

variable (net : Network σ Sig) (set : ValidatorSet Key) (config : RoundConfig) (message : Message)
variable (budget : Nat) (start : Moment) (network : σ)

/-- If the attestations of a round carry the quorum but the signed message is too large, that is
what the round comes to. -/
theorem aggregate_eq_tooLarge
    {schedule : FanOut.Schedule net set message (max 1 config.maxConcurrency)
      (some (start.now + config.roundTimeout))} :
  let outcome := aggregate net set config message budget start network schedule
  let s := attestations set message outcome.2.trace
  MeetsQuorum config.quorum set s → Wire.maxSize < signedSize message s →
    ∃ n, Wire.maxSize < n ∧ n ≤ signedSize message s ∧
      outcome.1 = .error (.tooLarge n Wire.maxSize)
  := by
  intro outcome s hmeets hsize
  obtain ⟨setting, rfl, rfl, rfl, hsettled, hresult⟩ :=
    aggregate_settled net set config message budget start network schedule
  rw [show outcome.1 = _ from hresult]
  apply hsettled.result_tooLarge hmeets hsize

end TooLarge

/-- A round whose attestations carry the quorum has a result exactly if its message leaves room
for the signature and the signers, and otherwise fails because the signed message is too large.
The signers need a byte for every eight validators of the set at most, so the message of a call
has a result if its payload leaves that much room and 180 bytes. -/
theorem aggregate_packs (net : Network σ Sig) (set : ValidatorSet Key) (config : RoundConfig)
    (message : Message) (budget : Nat) (start : Moment) (network : σ)
    (schedule : FanOut.Schedule net set message (max 1 config.maxConcurrency)
      (some (start.now + config.roundTimeout))) :
  let outcome := aggregate net set config message budget start network schedule
  let s := attestations set message outcome.2.trace
  ((∃ r, outcome.1 = .ok r)
    ↔ MeetsQuorum config.quorum set s ∧ signedSize message s ≤ Wire.maxSize) ∧
  (MeetsQuorum config.quorum set s → Wire.maxSize < signedSize message s →
    ∃ n, Wire.maxSize < n ∧ n ≤ signedSize message s ∧
      outcome.1 = .error (.tooLarge n Wire.maxSize)) ∧
  (MeetsQuorum config.quorum set s →
    message.bytes.length + (set.validators.length + 7) / 8 + 104 ≤ Wire.maxSize →
    ∃ r, outcome.1 = .ok r) ∧
  ∀ (m : Messenger) (ctx : CallContext) (payload : Bytes) (limit : Nat) (c : CallResult),
    m.send ctx payload limit = .ok c →
    c.announcements = [Messenger.announcement ctx.caller message] →
    MeetsQuorum config.quorum set s →
    payload.length + (set.validators.length + 7) / 8 + 180 ≤ Wire.maxSize →
    ∃ r, outcome.1 = .ok r
  := by
  intro outcome s
  obtain ⟨setting, rfl, rfl, rfl, hsettled, hresult⟩ :=
    aggregate_settled net set config message budget start network schedule
  have hle : signedSize setting.message s ≤ _ := hsettled.allGenuine.signedSize_le
  have hiff : (∃ r, outcome.1 = .ok r) ↔ MeetsQuorum setting.config.quorum setting.set s ∧
      signedSize setting.message s ≤ Wire.maxSize := by
    rw [show outcome.1 = _ from hresult]
    apply hsettled.exists_result_iff
  use hiff
  use aggregate_eq_tooLarge _ _ _ _ _ _ _
  constructor
  · intro hmeets hroom
    apply hiff.mpr
    use hmeets, hle.trans hroom
  · intro m ctx payload limit c hsend hannounced hmeets hroom
    have hlength := Messenger.length_bytes_of_send hsend hannounced
    apply hiff.mpr
    use hmeets, by omega

/-- A message that a call sent may leave too little room, though the only validator signs it. -/
theorem aggregate_tooLarge :
  ∃ (c : CallResult) (message : Message) (n : Nat),
    let set : ValidatorSet Residue := .sole (Residue.validator 3)
    let outcome := aggregate (Residue.prompt 3) set {} message 1 {} ()
    (Messenger.mk 1 .zero).send ⟨.zero, false, []⟩ (.replicate 262068 0) 3000000 = .ok c ∧
    c.announcements = [Messenger.announcement .zero message] ∧
    MeetsQuorum .standard set (attestations set message outcome.2.trace) ∧
    outcome.1 = .error (.tooLarge n Wire.maxSize)
  := by
  have hlength : (List.replicate 262068 (0 : UInt8)).length = 262068 := List.length_replicate
  have hgas : 41500 + 8 * (List.replicate 262068 (0 : UInt8)).length ≤ 3000000 := by omega
  have hsize : (List.replicate 262068 (0 : UInt8)).length + 76 ≤ Wire.maxSize := by
    rw [hlength, Wire.maxSize]
  obtain ⟨c, hsend⟩ := (Messenger.mk 1 .zero).exists_send ⟨.zero, false, []⟩ hgas rfl hsize
  obtain ⟨-, message, -, -, hannounced⟩ := Messenger.announcements_send hsend
  have hmessage := Messenger.length_bytes_of_send hsend hannounced
  have hmeets := Residue.meetsQuorum_sole (v := Residue.validator 3) (by decide) rfl {} message
    Nat.one_pos
  let set : ValidatorSet Residue := .sole (Residue.validator 3)
  have hlarge : Wire.maxSize < signedSize message
      (attestations set message
        (aggregate (Residue.prompt 3) set {} message 1 {} ()).2.trace) := by
    rw [signedSize, hmessage, hlength, Wire.maxSize]
    omega
  obtain ⟨n, -, -, hresult⟩ := aggregate_eq_tooLarge _ _ _ _ _ _ _ hmeets hlarge
  use c, message, n, hsend, hannounced, hmeets, hresult

end Interchain
