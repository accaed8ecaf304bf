import Interchain.Message.Verification
import Interchain.Proofs.Checks
import Interchain.Proofs.Marking

/-!
# When a signed message is accepted

`SignedMessage.Accepted` says what has to hold of a message, its signers and the sum of
their signatures, and `SignedMessage.Refused` names the error for the first of these
conditions that fails.  A message is either accepted or refused for one reason, and
`SignedMessage.verify` tells which.
-/

namespace Interchain.SignedMessage

variable {Key Sig : Type} [AggregateScheme Key Sig]

/-- The signature decodes to one over the name of the message that is that of the sum of the
keys of the given validators. -/
def IsSignedBy (m : SignedMessage) (vs : List (Validator Key)) : Prop :=
  ∃ key sig, AggregateScheme.aggregateKeys (vs.map (·.key)) = .ok key ∧
    AggregateScheme.decodeSig? Key m.signature = some sig ∧
    AggregateScheme.verify key m.id.bytes sig = true

/-- What has to hold for a message to be accepted. -/
structure Accepted (m : SignedMessage) (network : UInt32) (set : ValidatorSet Key)
    (quorum : Quorum) : Prop where
  network_eq : m.message.network = network
  /-- All signers are validators of the set. -/
  known : ∀ i, m.signers.contains i = true → i < set.validators.length
  /-- Somebody signed. -/
  signed : ∃ i, m.signers.contains i = true
  /-- The signers carry the quorum. -/
  enough : set.total.toNat * quorum.numerator.toNat
    ≤ set.markedWeight m.signers * quorum.denominator.toNat
  genuine : m.IsSignedBy (set.marked m.signers)

/-- The error for the first condition that fails. -/
inductive Refused (m : SignedMessage) (network : UInt32) (set : ValidatorSet Key)
    (quorum : Quorum) : MessageError → Prop where
  | network (hn : m.message.network ≠ network) :
    Refused m network set quorum
      (.networkMismatch network.toNat m.message.network.toNat)
  /-- The greatest signer is not in the set. -/
  | unknown (hn : m.message.network = network) {i : Nat}
      (hi : IsGreatest { i | m.signers.contains i = true } i)
      (hk : set.validators.length ≤ i) :
    Refused m network set quorum (.unknownValidator i set.validators.length)
  | unsigned (hn : m.message.network = network)
      (hs : ∀ i, m.signers.contains i = false) :
    Refused m network set quorum .noSigners
  | insufficient (hn : m.message.network = network)
      (hk : ∀ i, m.signers.contains i = true → i < set.validators.length)
      (hs : ∃ i, m.signers.contains i = true)
      (hw : set.markedWeight m.signers * quorum.denominator.toNat
        < set.total.toNat * quorum.numerator.toNat) :
    Refused m network set quorum
      (.insufficientWeight (set.markedWeight m.signers) set.total.toNat
        quorum.numerator.toNat quorum.denominator.toNat)
  | forged (hn : m.message.network = network)
      (hk : ∀ i, m.signers.contains i = true → i < set.validators.length)
      (hs : ∃ i, m.signers.contains i = true)
      (hw : set.total.toNat * quorum.numerator.toNat
        ≤ set.markedWeight m.signers * quorum.denominator.toNat)
      (hg : ¬ m.IsSignedBy (set.marked m.signers)) :
    Refused m network set quorum .invalidAggregate

variable (m : SignedMessage) (network : UInt32) (set : ValidatorSet Key) (quorum : Quorum)

omit [AggregateScheme Key Sig] in
/-- Whether the signers carry the quorum decides what the check of their weight says. -/
theorem checkWeight_markedWeight (signers : Signers) :
  quorum.checkWeight (set.markedWeight signers) set.total.toNat
    = if set.total.toNat * quorum.numerator.toNat
          ≤ set.markedWeight signers * quorum.denominator.toNat then .ok ()
      else .error (.insufficientWeight (set.markedWeight signers) set.total.toNat
        quorum.numerator.toNat quorum.denominator.toNat)
  := by
  have hle := set.markedWeight_le signers
  rw [Quorum.checkWeight, Quorum.checkBounded, if_neg (Nat.not_lt_of_le hle), Quorum.isMet]
  by_cases hw : set.total.toNat * quorum.numerator.toNat
      ≤ set.markedWeight signers * quorum.denominator.toNat
  · rw [if_pos hw, decide_eq_true hw]
    rfl
  · rw [if_neg hw, decide_eq_false hw]
    rfl

/-- What is left to check of a signature once the sum of keys is known. -/
theorem isSignedBy_iff {vs : List (Validator Key)} {key : Key}
    (hkey : AggregateScheme.aggregateKeys (vs.map (·.key)) = .ok key) :
  m.IsSignedBy vs ↔ ∃ sig, AggregateScheme.decodeSig? Key m.signature = some sig ∧
    AggregateScheme.verify key m.id.bytes sig = true
  := by
  constructor
  · rintro ⟨key', sig, hkey', h⟩
    rw [hkey] at hkey'
    cases hkey'
    use sig
  · rintro ⟨sig, h⟩
    use key, sig

open Classical in
/-- A message of the right network whose signers are in the set is judged by their number,
their weight and the signature. -/
theorem verify_eq_of_known (hn : m.message.network = network)
    (hk : ∀ i, m.signers.contains i = true → i < set.validators.length) :
  m.verify network set quorum
    = if set.marked m.signers = [] then .error .noSigners
      else if set.total.toNat * quorum.numerator.toNat
          ≤ set.markedWeight m.signers * quorum.denominator.toNat then
        if m.IsSignedBy (set.marked m.signers) then .ok () else .error .invalidAggregate
      else .error (.insufficientWeight (set.markedWeight m.signers) set.total.toNat
        quorum.numerator.toNat quorum.denominator.toNat)
  := by
  rw [verify, set.select_eq_ok ((m.signers.bound_le_iff _).mpr hk)]
  simp only [hn, ne_eq, not_true_eq_false, if_false, Bind.bind, Except.bind,
    set.sumWeights_marked, checkWeight_markedWeight]
  cases hvs : set.marked m.signers with
  | nil => rfl
  | cons v vs =>
      obtain ⟨key, hkey⟩ : ∃ key,
          AggregateScheme.aggregateKeys ((v :: vs).map (·.key)) = .ok key := ⟨_, rfl⟩
      rw [ValidatorSet.aggregateKey, hkey, if_neg (List.cons_ne_nil v vs)]
      simp only [isSignedBy_iff m hkey, List.isEmpty_cons, Bool.false_eq_true, if_false,
        Except.mapError]
      by_cases hw : set.total.toNat * quorum.numerator.toNat
          ≤ set.markedWeight m.signers * quorum.denominator.toNat
      · rw [if_pos hw, if_pos hw]
        cases AggregateScheme.decodeSig? Key m.signature with
        | none =>
            simp only [reduceCtorEq, false_and, exists_false, if_false]
            rfl
        | some sig =>
            simp only [Option.some.injEq, exists_eq_left']
            cases AggregateScheme.verify key m.id.bytes sig with
            | false => rfl
            | true => rfl
      · rw [if_neg hw, if_neg hw]

/-! ### Acceptance and refusal -/

/-- A message for which all conditions hold is verified. -/
theorem Accepted.verify_eq {m : SignedMessage} {network : UInt32} {set : ValidatorSet Key}
    {quorum : Quorum} (h : m.Accepted network set quorum) :
  m.verify network set quorum = .ok ()
  := by
  rw [verify_eq_of_known m network set quorum h.network_eq h.known,
    if_neg (set.marked_ne_nil h.known h.signed), if_pos h.enough, if_pos h.genuine]

/-- A message for which a condition fails is refused with its error. -/
theorem Refused.verify_eq {m : SignedMessage} {network : UInt32} {set : ValidatorSet Key}
    {quorum : Quorum} {e : MessageError} (h : m.Refused network set quorum e) :
  m.verify network set quorum = .error e
  := by
  cases h with
  | network hn =>
      rw [verify, if_pos hn]
      rfl
  | unknown hn hi hk =>
      have hlt := m.signers.lt_bound _ hi.1
      have hb : set.validators.length < m.signers.bound := by omega
      rw [verify, ValidatorSet.select, if_pos hb, if_neg (not_not.mpr hn),
        (m.signers.isGreatest_pred_bound hb).unique hi]
      rfl
  | unsigned hn hs =>
      have hk : ∀ i, m.signers.contains i = true → i < set.validators.length := by
        intro i hi
        rw [hs i] at hi
        cases hi
      rw [verify_eq_of_known m network set quorum hn hk, if_pos (set.marked_eq_nil hs)]
  | insufficient hn hk hs hw =>
      rw [verify_eq_of_known m network set quorum hn hk, if_neg (set.marked_ne_nil hk hs),
        if_neg (Nat.not_le_of_lt hw)]
  | forged hn hk hs hw hg =>
      rw [verify_eq_of_known m network set quorum hn hk, if_neg (set.marked_ne_nil hk hs),
        if_pos hw, if_neg hg]

/-- All conditions hold or one of them is the first to fail. -/
theorem accepted_or_refused :
  m.Accepted network set quorum ∨ ∃ e, m.Refused network set quorum e
  := by
  by_cases hn : m.message.network = network
  swap
  · right
    exact ⟨_, .network hn⟩
  by_cases hk : ∀ i, m.signers.contains i = true → i < set.validators.length
  swap
  · right
    have hb : set.validators.length < m.signers.bound := by
      by_contra h
      apply hk
      apply (m.signers.bound_le_iff _).mp (Nat.le_of_not_lt h)
    exact ⟨_, .unknown hn (m.signers.isGreatest_pred_bound hb) (by omega)⟩
  by_cases hs : ∃ i, m.signers.contains i = true
  swap
  · right
    exact ⟨_, .unsigned hn (by simpa using hs)⟩
  by_cases hw : set.total.toNat * quorum.numerator.toNat
      ≤ set.markedWeight m.signers * quorum.denominator.toNat
  swap
  · right
    exact ⟨_, .insufficient hn hk hs (Nat.lt_of_not_le hw)⟩
  by_cases hg : m.IsSignedBy (set.marked m.signers)
  swap
  · right
    exact ⟨_, .forged hn hk hs hw hg⟩
  left
  exact ⟨hn, hk, hs, hw, hg⟩

/-- A message is verified exactly if it is accepted. -/
theorem verify_eq_ok_iff :
  m.verify network set quorum = .ok () ↔ m.Accepted network set quorum
  := by
  constructor
  · intro h
    obtain ha | ⟨e, he⟩ := m.accepted_or_refused network set quorum
    · apply ha
    · rw [he.verify_eq] at h
      cases h
  · apply Accepted.verify_eq

/-- Verification fails with an error exactly if the message is refused for that reason. -/
theorem verify_eq_error_iff (e : MessageError) :
  m.verify network set quorum = .error e ↔ m.Refused network set quorum e
  := by
  constructor
  · intro h
    obtain ha | ⟨e', he⟩ := m.accepted_or_refused network set quorum
    · rw [ha.verify_eq] at h
      cases h
    · rw [he.verify_eq] at h
      cases h
      apply he
  · apply Refused.verify_eq

/-- A message is verified at a height if it is accepted for the set that attests for its
chain then, and the weights are those of its signers and of the set. -/
theorem verifyAt_eq_ok_iff (d : Directory Key) (own : Id) (height : UInt64) (w : VerifiedWeight) :
  m.verifyAt d network own height quorum = .ok w
    ↔ ∃ set, d.sourceSet height m.message.chain own = .ok set ∧
        m.Accepted network set quorum ∧ w = ⟨set.markedWeight m.signers, set.total.toNat⟩
  := by
  rw [verifyAt, bind_eq_ok_iff]
  apply exists_congr
  intro set
  apply and_congr_right
  intro _
  rw [bind_eq_ok_iff]
  constructor
  · rintro ⟨⟨⟩, hverify, hw⟩
    have ha := (m.verify_eq_ok_iff network set quorum).mp hverify
    rw [set.select_eq_ok ((m.signers.bound_le_iff _).mpr ha.known)] at hw
    simp only [Bind.bind, Except.bind, set.sumWeights_marked] at hw
    cases hw
    use ha
  · rintro ⟨ha, rfl⟩
    use (), ha.verify_eq
    rw [set.select_eq_ok ((m.signers.bound_le_iff _).mpr ha.known)]
    simp only [Bind.bind, Except.bind, set.sumWeights_marked]
    rfl

/-- A message that the only validator signed is accepted. -/
theorem accepted_sole {m : SignedMessage} {v : Validator Key} {sig : Sig}
    (hn : m.message.network = network) (hs : m.signers = .ofList [0])
    (hd : AggregateScheme.decodeSig? Key m.signature = some sig)
    (hv : AggregateScheme.verify v.key m.id.bytes sig = true) :
  m.Accepted network (.sole v) quorum
  := by
  constructor
  · apply hn
  · intro i hi
    rw [hs, Signers.contains_ofList, List.mem_singleton] at hi
    rw [hi]
    apply Nat.one_pos
  · use 0
    rw [hs, Signers.contains_ofList, List.mem_singleton]
  · rw [hs, ValidatorSet.markedWeight_sole]
    apply Nat.mul_le_mul_left v.weight.toNat quorum.le
  · rw [hs, ValidatorSet.marked_sole]
    exact ⟨v.key, sig, rfl, hd, hv⟩

/-- A message is verified exactly if it is of the right network, all its signers are in the
set, there are some, they carry the quorum, and the signature is that of the sum of their
keys.  Otherwise the error is that of the first of these that fails.  No sum of weights
overflows, nor does the weight of the signers exceed that of the set. -/
theorem verify_decides_acceptance :
  (m.verify network set quorum = .ok () ↔ m.Accepted network set quorum) ∧
  (∀ e, m.verify network set quorum = .error e ↔ m.Refused network set quorum e) ∧
  m.verify network set quorum ≠ .error .weightOverflow ∧
  ∀ signed total, m.verify network set quorum ≠ .error (.weightExceedsTotal signed total)
  := by
  use m.verify_eq_ok_iff network set quorum, m.verify_eq_error_iff network set quorum
  constructor
  · intro h
    cases (m.verify_eq_error_iff network set quorum _).mp h
  · intro signed total h
    cases (m.verify_eq_error_iff network set quorum _).mp h

end Interchain.SignedMessage
