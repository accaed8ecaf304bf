import Interchain.Node.Service
import Interchain.Proofs.Canonicity
import Interchain.Proofs.Delegation
import Interchain.Proofs.Quorum
import Interchain.Proofs.Round.Acceptance
import Interchain.Proofs.Round.Honesty

/-!
# Rounds of honest nodes

What a round of another node yields is what the client that asked for it gets, if the node is
honest and both resolve the same validators.  The node aims for the client's quorum rounded up
to hundredths, which is never below it (`Quorum.ceilPercent_spec`) and never refused
(`NodeSettings.exists_roundConfig`).  The main result is `Verifier.delegateIn_agrees`.
-/

namespace Interchain

open AggregateScheme

variable {σ Key Sig : Type} [AggregateScheme Key Sig]

/-- A message that is accepted for a percentage is accepted for a quorum that is no more. -/
theorem SignedMessage.Accepted.of_percent {m : SignedMessage} {network : UInt32}
    {set : ValidatorSet Key} {quorum quorum' : Quorum} (h : m.Accepted network set quorum)
    (hdenominator : quorum.denominator = 100)
    (hle : quorum'.numerator.toNat * 100 ≤ quorum.numerator.toNat * quorum'.denominator.toNat) :
  m.Accepted network set quorum'
  := by
  have henough := h.enough
  rw [hdenominator] at henough
  constructor
  · apply h.network_eq
  · apply h.known
  · apply h.signed
  · apply Quorum.le_of_percent hle henough
  · apply h.genuine

/-! ### What a service yields -/

/-- A node provides a message if it holds the message, or if the message is that a block of the
node's chain was accepted. -/
inductive Attestor.Provides (a : Attestor Key Sig) (message : Message) : Prop
  | call {c : Call} (hcontent : message.content = .ok (.call c))
      (hmessage : a.message message.id = .ok message) : Provides a message
  | block {block : Id} (hcontent : message.content = .ok (.blockHash block))
      (hnetwork : a.network = message.network) (hchain : a.chain = message.chain) :
      Provides a message

namespace Service

variable {s : Service Key Sig} {message : Message}

/-- A service that is asked to conduct a round takes a moment and changes the network. -/
def ask (s : Service Key Sig) (d : Directory Key) (net : Network σ Sig)
    (schedules : FanOut.Schedules Key net) (request : SignatureRequest) (percent : UInt64)
    (w : Moment × σ) : Except MessageError Bytes × Moment × σ :=
  s.attest d net request percent w.1 w.2 schedules

omit [AggregateScheme Key Sig] in
/-- A service that is enabled finds the message that its node provides. -/
theorem exists_request (henabled : s.settings.enabled = true)
    (hprovides : s.attestor.Provides message) :
  ∃ request, requestFor message = .ok request ∧ s.subject request = .ok message
  := by
  have hcheck : s.checkEnabled = .ok () := if_pos henabled
  cases hprovides with
  | call hcontent hmessage =>
      use .message message.id
      constructor
      · rw [requestFor, hcontent]
        rfl
      · rw [subject, Service.message, hcheck]
        apply hmessage
  | @block block hcontent hnetwork hchain =>
      use .block block
      constructor
      · rw [requestFor, hcontent]
        rfl
      · rw [subject, hcheck]
        apply (Message.make_eq_ok_iff ..).mpr
        use hnetwork.symm, hchain.symm
        apply (Payload.bytes_eq_of_parse hcontent).symm

end Service

/-- A round does not fail because of its quorum. -/
theorem aggregate_ne_invalidQuorum (net : Network σ Sig) (set : ValidatorSet Key)
    (config : RoundConfig) (message : Message) (budget : Nat) (start : Moment) (network : σ)
    (schedule : FanOut.Schedule net set message (max 1 config.maxConcurrency)
      (some (start.now + config.roundTimeout))) (numerator denominator : Nat) :
  (aggregate net set config message budget start network schedule).1
    ≠ .error (.invalidQuorum numerator denominator)
  := by
  intro h
  obtain ⟨s, rfl, rfl, rfl, hsettled, hresult⟩ :=
    aggregate_settled net set config message budget start network schedule
  rw [hresult] at h
  by_cases hmeets : MeetsQuorum s.config.quorum s.set
      (attestations s.set s.message
        (aggregate net s.set s.config s.message budget start network schedule).2.trace)
  · obtain ⟨sum, -, hmake⟩ := hsettled.result_of_meets hmeets
    rw [hmake] at h
    cases hm : SignedMessage.make s.message
        (.ofList ((attestations s.set s.message
          (aggregate net s.set s.config s.message budget start network schedule).2.trace).map
            (·.index)))
        (encodeSig Key sum) with
    | ok m =>
        rw [hm] at h
        cases h
    | error e =>
        rw [hm] at h
        cases h
        obtain ⟨size, -, -, he⟩ := SignedMessage.eq_tooLarge_of_make hm
        cases he
  · rw [hsettled.result_of_not_meets hmeets] at h
    cases h

/-- A client and a service resolve the same set for a message at the same height.  The client
knows the height before it asks, and resolves the set when it is answered. -/
structure Verifier.SharesSet (v : Verifier) (before after : Directory Key)
    (s : Service Key Sig) (d : Directory Key) (message : Message) (height : UInt64)
    (set : ValidatorSet Key) : Prop where
  height_eq : before.height = .ok height
  set_eq : after.sourceSet height message.chain v.own = .ok set
  service_height_eq : d.height = .ok height
  service_set_eq : ∃ own, d.subnetOf s.attestor.chain = .ok own ∧
    d.sourceSet height message.chain own = .ok set

/-- A service that resolves the set conducts a round with it. -/
theorem Verifier.SharesSet.conduct_eq {v : Verifier} {before after d : Directory Key}
    {s : Service Key Sig} {message : Message} {height percent : UInt64} {set : ValidatorSet Key}
    (h : v.SharesSet before after s d message height set) {config : RoundConfig}
    (hconfig : s.settings.roundConfig percent = .ok config) (net : Network σ Sig) (start : Moment)
    (network : σ) (schedules : FanOut.Schedules Key net) :
  (s.conduct d net message percent start network schedules).1
    = (aggregate net set config message config.maxAttempts start network
        (schedules set message _ _)).1
  := by
  obtain ⟨own, hown, hset⟩ := h.service_set_eq
  have hplan : s.plan d message percent = .ok (config, set) := by
    rw [Service.plan, hconfig, h.service_height_eq, hown]
    simp only [Bind.bind, Except.bind, hset]
    rfl
  rw [Service.conduct, hplan]

/-! ### A service for one validator -/

namespace Residue

/-- A round with one validator that answers at once has a result. -/
theorem exists_aggregate_prompt {key : Residue} (hkey : key ≠ 0) (config : RoundConfig)
    {message : Message} (hsize : message.bytes.length + 105 ≤ Wire.maxSize) {budget : Nat}
    (hbudget : 0 < budget) :
  ∃ r, (aggregate (prompt key) (.sole (validator key)) config message budget {} ()).1 = .ok r
  := exists_aggregate_sole (v := validator key) hkey rfl config hsize hbudget

/-- A node with a key that serves others. -/
def service (key : Residue) : Service Residue Residue where
  attestor :=
    { network := 1
      chain := .zero
      signer := { network := 1, chain := .zero, key, sign := sign key }
      cache := .ofCapacity 500 }
  settings := { enabled := true }

end Residue

namespace Verifier

/-- What a service yields in a round for a message, in whatever order the nodes answer, is what a
client that asks the service for the message gets, if the two resolve the same set at the same
height and the keys of the signers do not cancel.  The percentage that the client asks for is not
refused. -/
theorem delegateIn_agrees {identity : Key} (hscheme : Additive Key identity) (v : Verifier)
    (view : Moment × σ → Directory Key) (s : Service Key Sig) (d : Directory Key)
    (net : Network σ Sig) (schedules : FanOut.Schedules Key net) (message : Message)
    (w : Moment × σ) {percent height : UInt64} {set : ValidatorSet Key}
    (hpercent : v.quorum.ceilPercent = .ok percent)
    (hnetwork : v.network = message.network) (henabled : s.settings.enabled = true)
    (hprovides : s.attestor.Provides message)
    (hset : v.SharesSet (view w) (view (v.delegateIn view (s.ask d net schedules) message w).2) s d
      message height set) :
  (∀ r, (s.conduct d net message percent w.1 w.2 schedules).1 = .ok r →
    aggregateKeys ((set.marked r.message.signers).map (·.key)) ≠ .ok identity →
    (v.delegateIn view (s.ask d net schedules) message w).1 = .ok r) ∧
  ∀ request, requestFor message = .ok request → ∀ numerator denominator,
    (s.ask d net schedules request percent w).1 ≠ .error (.invalidQuorum numerator denominator)
  := by
  obtain ⟨hmin, hmax, hceil⟩ := Quorum.ceilPercent_spec hpercent
  obtain ⟨config, hconfig, hnumerator, hdenominator⟩ := s.settings.exists_roundConfig hmin hmax
  obtain ⟨request, hrequest, hsubject⟩ := s.exists_request henabled hprovides
  have hconduct := hset.conduct_eq hconfig net w.1 w.2 schedules
  have hask : (s.ask d net schedules request percent w).1
      = (s.conduct d net message percent w.1 w.2 schedules).1.map (·.message.bytes) := by
    rw [Service.ask, Service.attest, hsubject]
  constructor
  · intro r hr hkey
    rw [hconduct] at hr
    obtain ⟨p, sum, hp, hmeets, hsum, hsigners, hmade⟩ :=
      exists_isMadeOf net set config message _ _ _ r hr
    have haccepted := hmade.accepted hscheme hp hmeets hsum hsigners hkey
    have haccepted' : r.message.Accepted v.network set v.quorum := by
      rw [hnetwork]
      apply haccepted.of_percent hdenominator
      rwa [hnumerator]
    have hclient := hset.set_eq
    obtain rfl := hmade.message_eq
    rw [delegateIn_eq hset.height_eq hpercent hrequest, hask, hconduct, hr]
    apply (checkAnswer_of_accepted hclient haccepted').trans
    rw [← hmade.signed_eq, ← hmade.total_eq]
  · intro request' hrequest' numerator denominator h
    cases hrequest.symm.trans hrequest'
    rw [hask, hconduct] at h
    cases hresult : (aggregate net set config message config.maxAttempts w.1 w.2
      (schedules set message _ _)).1 with
    | ok r =>
        rw [hresult] at h
        cases h
    | error e =>
        rw [hresult] at h
        cases h
        apply aggregate_ne_invalidQuorum net set config message _ _ _ _ _ _ hresult

/-- What a service yields for a block of the only validator is what its client gets. -/
theorem delegateIn_agrees_sole :
  ∃ (message : Message) (r : Attested),
    let v : Verifier := ⟨1, .zero, .standard⟩
    let d : Directory Residue := .sole default 3
    let s := Residue.service 3
    let net := Residue.prompt 3
    let set : ValidatorSet Residue := .sole (Residue.validator 3)
    v.quorum.ceilPercent = .ok 67 ∧ v.network = message.network ∧ s.settings.enabled = true ∧
    s.attestor.Provides message ∧ v.SharesSet d d s d message 0 set ∧
    (s.conduct d net message 67 {} ()).1 = .ok r ∧
    aggregateKeys ((set.marked r.message.signers).map (·.key)) ≠ .ok 0 ∧
    (v.delegateIn (fun _ => d) (s.ask d net (.earliestFirst net)) message ({}, ())).1 = .ok r ∧
    ∀ request, requestFor message = .ok request → ∀ numerator denominator,
      (s.ask d net (.earliestFirst net) request 67 ({}, ())).1
        ≠ .error (.invalidQuorum numerator denominator)
  := by
  obtain ⟨message, hmessage⟩ := Message.exists_make 1 .zero
    (show (Payload.blockHash .zero).bytes.length + 42 ≤ Wire.maxSize by decide)
  obtain ⟨hnetwork, hchain, hpayload⟩ := (Message.make_eq_ok_iff ..).mp hmessage
  have hpercent : Quorum.standard.ceilPercent = .ok 67 := rfl
  have hprovides : (Residue.service 3).attestor.Provides message := by
    apply Attestor.Provides.block _ hnetwork.symm hchain.symm
    · exact .zero
    · rw [Message.content, hpayload, Payload.parse_blockHash]
  have hset : SharesSet ⟨1, .zero, .standard⟩ (Directory.sole default (3 : Residue))
      (.sole default 3) (Residue.service 3) (.sole default 3) message 0
      (.sole (Residue.validator 3)) := by
    constructor
    · rfl
    · apply Directory.sourceSet_sole
    · rfl
    · use .zero, rfl
      apply Directory.sourceSet_sole
  have hagree := delegateIn_agrees Residue.additive ⟨1, .zero, .standard⟩ (fun _ => .sole default 3)
    (Residue.service 3) (.sole default 3) (Residue.prompt 3) (.earliestFirst _) message ({}, ())
    hpercent hnetwork.symm rfl hprovides hset
  have hsize : message.bytes.length + 105 ≤ Wire.maxSize := by
    rw [message.length_bytes, hpayload]
    decide
  have hconfig : (Residue.service 3).settings.roundConfig 67 = .ok {} := rfl
  have hconduct := hset.conduct_eq hconfig (Residue.prompt 3) {} () (.earliestFirst _)
  obtain ⟨r, hr⟩ := Residue.exists_aggregate_prompt (show (3 : Residue) ≠ 0 by decide) {} hsize
    (show 0 < 100 by decide)
  have hkey : aggregateKeys (((ValidatorSet.sole (Residue.validator 3)).marked
      r.message.signers).map (·.key)) ≠ .ok (0 : Residue) := by
    rw [Residue.marked_of_aggregate hr]
    decide
  use message, r, hpercent, hnetwork.symm, rfl, hprovides, hset, hconduct.trans hr, hkey
  use hagree.1 r (hconduct.trans hr) hkey
  apply hagree.2

end Verifier

end Interchain
