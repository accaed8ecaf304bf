import Interchain.Node.Service
import Interchain.Proofs.Round.Exactness

/-!
# The network in a round

A round does nothing to the network but ask nodes, so what holds of the network and is kept
whenever a node is asked still holds when the round ends, as `holds_of_aggregate` says.
-/

namespace Interchain

variable {σ Key Sig : Type} {P : σ → Prop}

/-- What holds of a network still holds after any node was asked. -/
def Network.Keeps (net : Network σ Sig) (P : σ → Prop) : Prop :=
  ∀ now node m s, P s → P (net.ask now node m s).2

namespace FanOut

variable {net : Network σ Sig} {f : FanOut σ Sig}

theorem holds_of_launch (hnet : net.Keeps P) (set : ValidatorSet Key) (message : Message)
    (r : Request) (hf : P f.network) :
  P (launch net set message r f).2.network
  := by
  rw [launch]
  split
  · apply hnet _ _ _ _ hf
  · exact hf

theorem holds_of_sends (hnet : net.Keeps P) {set : ValidatorSet Key} {message : Message}
    {limit : Nat} {g : FanOut σ Sig} (h : Sends net set message limit f g) (hf : P f.network) :
  P g.network
  := by
  induction h with
  | done f => exact hf
  | @first f _ r _ _ _ _ ih =>
      apply ih
      apply holds_of_launch hnet set message r hf

/-- Until the next answer, nodes are asked. -/
theorem holds_of_proceeds (hnet : net.Keeps P) {set : ValidatorSet Key} {message : Message}
    {limit : Nat} {deadline : Option Nat} {answer : Option (Flight Sig)} {f' : FanOut σ Sig}
    (h : Proceeds net set message limit deadline f (answer, f')) (hf : P f.network) :
  P f'.network
  := by
  cases h with
  | silent hsends => apply holds_of_sends hnet hsends hf
  | comes hsends hcomes =>
      obtain ⟨_, _, _, -, rfl⟩ := hcomes.exists_flying
      apply holds_of_sends hnet hsends hf

end FanOut

variable [AggregateScheme Key Sig]

namespace Round

variable {s : Setting σ Key Sig}

/-- While the answers of a pass are taken, nodes are asked. -/
theorem holds_of_collect (hnet : s.net.Keeps P) (n : Nat) {f : FanOut σ Sig} (hf : P f.network)
    (credit : Credit Sig) (retry : List Nat) :
  P (collect s n f credit retry).2.1.network
  := by
  have hnext : ∀ {f g : FanOut σ Sig} {answer : Option (Flight Sig)}, P f.network →
      s.schedule.next f = (answer, g) → P g.network := by
    intro f g answer hf h
    have hproceeds := s.schedule.proceeds f
    rw [h] at hproceeds
    apply FanOut.holds_of_proceeds hnet hproceeds hf
  obtain ⟨m, f', credit', retry', hf', hends⟩ := collect_invariant s
    (P := fun _ f _ _ => P f.network)
    (by
      intro n f credit retry f' credit' retry' hf ht
      obtain ⟨flight, g, hg, rfl⟩ := ht.exists_next
      apply hnext hf hg)
    n f credit retry hf
  generalize collect s n f credit retry = result at hends
  cases hends with
  | completed => exact hf'
  | silent hg => apply hnext hf' hg
  | reached hg => apply hnext hf' hg
  | overflowed hg => apply hnext hf' hg

/-- In a pass and the pause behind it, nodes are asked. -/
theorem holds_of_pass (hnet : s.net.Keeps P) {r : Round σ Sig} (hr : P r.network) :
  P (pass s r).2.network
  := by
  have hholds := holds_of_collect hnet (r.requests s).length (f := r.toSend s) hr r.credit []
  obtain ⟨f, credit, ⟨failure, hcollect, hpass⟩ | ⟨retry, hcollect, hpass⟩⟩ := pass_cases s r
  · rw [hcollect] at hholds
    rw [hpass]
    exact hholds
  · obtain ⟨moment, hpause⟩ := exists_pause_eq s (r.whenAnswered s f credit retry)
    rw [hcollect] at hholds
    rw [hpass, hpause]
    exact hholds

/-- In a round, nodes are asked. -/
theorem holds_of_complete (hnet : s.net.Keeps P) {r : Round σ Sig} (hr : P r.network) :
  P (complete s r).network
  := by
  apply complete_invariant s (P := fun r => P r.network) (Q := fun r => P r.network)
  · intro r h _
    exact h
  · intro r h _ _
    apply holds_of_pass hnet h
  · intro r h _ _
    apply holds_of_pass hnet h
  · exact hr

end Round

variable {net : Network σ Sig} {network : σ}

/-- What holds of the network and is kept whenever a node is asked holds when a round ends. -/
theorem holds_of_aggregate (hnet : net.Keeps P) (set : ValidatorSet Key) (config : RoundConfig)
    (message : Message) (budget : Nat) (start : Moment)
    (schedule : FanOut.Schedule net set message (max 1 config.maxConcurrency)
      (some (start.now + config.roundTimeout))) (h : P network) :
  P (aggregate net set config message budget start network schedule).2.network
  := by
  apply Round.holds_of_complete
  · exact hnet
  · exact h

/-- What holds of the network and is kept whenever a node is asked holds when a service has
conducted a round. -/
theorem Service.holds_of_attest (hnet : net.Keeps P) (s : Service Key Sig) (d : Directory Key)
    (request : SignatureRequest) (percent : UInt64) (start : Moment)
    (schedules : FanOut.Schedules Key net) (h : P network) :
  P (s.attest d net request percent start network schedules).2.2
  := by
  rw [attest]
  split
  · exact h
  · next m _ =>
    show P (s.conduct d net m percent start network schedules).2.2
    rw [conduct]
    split
    · exact h
    · apply holds_of_aggregate hnet _ _ _ _ _ _ h

/-- A round that comes to something comes to the message that it was about. -/
theorem message_of_aggregate_eq_ok {set : ValidatorSet Key} {config : RoundConfig}
    {message : Message} {budget : Nat} {start : Moment}
    {schedule : FanOut.Schedule net set message (max 1 config.maxConcurrency)
      (some (start.now + config.roundTimeout))} {a : Attested}
    (h : (aggregate net set config message budget start network schedule).1 = .ok a) :
  a.message.message = message
  := by
  obtain ⟨_, _, -, -, -, -, hmade⟩ :=
    exists_isMadeOf net set config message budget start network a h
  exact hmade.message_eq

end Interchain
