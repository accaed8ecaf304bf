import Interchain.Node.Delegation
import Interchain.Proofs.Acceptance
import Interchain.Proofs.RoundTrip
import Interchain.Proofs.Scheme

/-!
# What a delegated round is worth

Whatever another node answers, `Verifier.delegateIn` only yields the message that was asked
for, with signers that are validators of its source, carry the quorum and signed it.  The
validators are those at the height that was known before the node was asked, even where the
node changes what is known.
-/

namespace Interchain

open AggregateScheme

variable {σ Key Sig : Type} [AggregateScheme Key Sig]

/-- The set that attests for a chain is that of the subnet that validates the chain, or of
the own subnet where that is the primary network. -/
theorem Directory.sourceSet_eq_ok_iff (d : Directory Key)
    (height : UInt64) (chain own : Id) (set : ValidatorSet Key) :
  d.sourceSet height chain own = .ok set
    ↔ ∃ source records, d.subnetOf chain = .ok source ∧
        d.snapshot height (if source = .primaryNetwork then own else source) = .ok records ∧
        ValidatorSet.ofRecords records = .ok set
  := by
  rw [sourceSet, bind_eq_ok_iff]
  apply exists_congr
  intro source
  rw [canonicalSet, attestingSubnet, bind_eq_ok_iff, exists_and_left]

namespace Verifier

/-- A result is the message that was asked for, of the right network, signed by validators of
a set that carry the quorum, with their weight and that of the set. -/
structure Confirms (v : Verifier) (set : ValidatorSet Key) (message : Message) (r : Attested) :
    Prop where
  message_eq : r.message.message = message
  network_eq : r.message.message.network = v.network
  known : ∀ i, r.message.signers.contains i = true → i < set.validators.length
  signed : ∃ i, r.message.signers.contains i = true
  signed_eq : r.signed = set.markedWeight r.message.signers
  total_eq : r.total = set.total.toNat
  enough : r.total * v.quorum.numerator.toNat ≤ r.signed * v.quorum.denominator.toNat
  genuine : r.message.IsSignedBy (set.marked r.message.signers)

/-- An answer that passes the check holds the message, verified at the height. -/
theorem eq_of_checkAnswer_eq_ok {v : Verifier} {d : Directory Key} {height : UInt64}
    {message : Message} {answer : Bytes} {r : Attested}
    (h : v.checkAnswer d height message answer = .ok r) :
  SignedMessage.parse answer = .ok r.message ∧ r.message.message = message ∧
    r.message.verifyAt d v.network v.own height v.quorum = .ok ⟨r.signed, r.total⟩
  := by
  obtain ⟨signed, hparse, h⟩ := bind_eq_ok_iff.mp h
  split at h
  · cases h
  · next hm =>
    obtain ⟨w, hw, hr⟩ := bind_eq_ok_iff.mp h
    cases hr
    use hparse, not_not.mp hm, hw

/-- An answer with the message that was asked for is a result if the message is accepted for the
set that attests for its chain. -/
theorem checkAnswer_of_accepted {v : Verifier} {d : Directory Key} {height : UInt64}
    {m : SignedMessage} {set : ValidatorSet Key}
    (hset : d.sourceSet height m.message.chain v.own = .ok set)
    (h : m.Accepted v.network set v.quorum) :
  v.checkAnswer d height m.message m.bytes
    = .ok ⟨m, set.markedWeight m.signers, set.total.toNat⟩
  := by
  apply bind_eq_ok_iff.mpr
  use m, m.parse_bytes
  rw [if_neg (not_not.mpr rfl)]
  apply bind_eq_ok_iff.mpr
  use ⟨set.markedWeight m.signers, set.total.toNat⟩
  constructor
  · apply (m.verifyAt_eq_ok_iff ..).mpr
    use set, hset, h
  · rfl

/-- A result of another node's round comes from an answer that was checked against the
validators as they are then known, at the height that was known before. -/
theorem checkAnswer_of_delegateIn_eq_ok {v : Verifier} {view : σ → Directory Key}
    {ask : SignatureRequest → UInt64 → σ → Except MessageError Bytes × σ} {message : Message}
    {s : σ} {r : Attested} (h : (v.delegateIn view ask message s).1 = .ok r) :
  ∃ height answer, (view s).height = .ok height ∧
    v.checkAnswer (view (v.delegateIn view ask message s).2) height message answer = .ok r
  := by
  rw [delegateIn] at h ⊢
  split at h
  · cases h
  · next height percent request hq =>
    obtain ⟨height', hheight, hq⟩ := bind_eq_ok_iff.mp hq
    obtain ⟨percent', -, hq⟩ := bind_eq_ok_iff.mp hq
    obtain ⟨request', -, hq⟩ := bind_eq_ok_iff.mp hq
    cases hq
    obtain ⟨answer, -, hr⟩ := bind_eq_ok_iff.mp h
    exact ⟨height, answer, hheight, hr⟩

/-- If it is known what to ask for, a result is what the answer is worth. -/
theorem delegateIn_eq {v : Verifier} {view : σ → Directory Key}
    {ask : SignatureRequest → UInt64 → σ → Except MessageError Bytes × σ} {message : Message}
    {s : σ} {height percent : UInt64} {request : SignatureRequest}
    (hheight : (view s).height = .ok height) (hpercent : v.quorum.ceilPercent = .ok percent)
    (hrequest : requestFor message = .ok request) :
  (v.delegateIn view ask message s).1
    = (ask request percent s).1 >>=
        v.checkAnswer (view (v.delegateIn view ask message s).2) height message
  := by
  rw [delegateIn]
  simp only [hheight, hpercent, hrequest, Bind.bind, Except.bind, pure, Except.pure]

end Verifier

/-! ### A directory of one validator -/

/-- A directory in which one node validates every chain, with a key and the weight one. -/
def Directory.sole (node : NodeId) (key : Key) : Directory Key where
  height := .ok 0
  subnetOf chain := .ok chain
  snapshot _ _ := .ok [⟨node, some key, 1⟩]

/-- The set of a directory of one validator. -/
theorem Directory.sourceSet_sole (node : NodeId) (key : Key) (height : UInt64) (chain own : Id) :
  (sole node key).sourceSet height chain own = .ok (.sole ⟨key, 1, [node]⟩)
  := by
  apply (sourceSet_eq_ok_iff ..).mpr
  use chain, [⟨node, some key, 1⟩], rfl, rfl
  apply ValidatorSet.ofRecords_sole

/-- A message that is not too large can be signed by a single validator. -/
theorem SignedMessage.exists_signed {message : Message} {key : Residue} (hkey : key ≠ 0)
    (hsize : message.bytes.length + 105 ≤ Wire.maxSize) :
  ∃ m : SignedMessage, m.message = message ∧ m.signers = .ofList [0] ∧
    ∃ sig : Residue, decodeSig? Residue m.signature = some sig ∧
      AggregateScheme.verify key m.id.bytes sig = true
  := by
  have hlength : (Signers.ofList [0]).bytes.length = 1 := by decide
  have hfits : message.bytes.length + (Signers.ofList [0]).bytes.length + 104
      ≤ Wire.maxSize := by
    rw [hlength]
    omega
  obtain ⟨m, hm⟩ := SignedMessage.exists_make
    (encodeSig Residue (Residue.sign key message.id.bytes)) hfits
  obtain ⟨rfl, hs, hsignature⟩ := (SignedMessage.make_eq_ok_iff ..).mp hm
  use m, rfl, hs, Residue.sign key m.message.id.bytes
  constructor
  · rw [hsignature]
    apply Residue.decode_sign hkey
  · apply Residue.verify_sign hkey

namespace Verifier

/-- An answer with the message that was asked for, signed by the only validator, is a
result. -/
theorem checkAnswer_sole (v : Verifier) (node : NodeId) {key : Key} (height : UInt64)
    {m : SignedMessage} {sig : Sig} (hn : m.message.network = v.network)
    (hs : m.signers = .ofList [0]) (hd : decodeSig? Key m.signature = some sig)
    (hv : verify key m.id.bytes sig = true) :
  v.checkAnswer (.sole node key) height m.message m.bytes = .ok ⟨m, 1, 1⟩
  := by
  have haccepted := SignedMessage.accepted_sole v.network v.quorum (v := ⟨key, 1, [node]⟩) hn hs
    hd hv
  have hset := Directory.sourceSet_sole node key height m.message.chain v.own
  rw [checkAnswer_of_accepted hset haccepted, hs, ValidatorSet.markedWeight_sole]
  rfl

/-! ### What a result is -/

/-- Whatever another node answers and however it changes what is known, a result is the
message that was asked for, confirmed with the validators that attest for its chain at the
height that was known before the node was asked. -/
theorem delegateIn_confirms (v : Verifier) (view : σ → Directory Key)
    (ask : SignatureRequest → UInt64 → σ → Except MessageError Bytes × σ) (message : Message)
    (s : σ) (r : Attested) (h : (v.delegateIn view ask message s).1 = .ok r) :
  ∃ height source records set,
    (view s).height = .ok height ∧
    (view (v.delegateIn view ask message s).2).subnetOf message.chain = .ok source ∧
    (view (v.delegateIn view ask message s).2).snapshot height
      (if source = .primaryNetwork then v.own else source) = .ok records ∧
    ValidatorSet.ofRecords records = .ok set ∧
    v.Confirms set message r
  := by
  obtain ⟨height, answer, hheight, hcheck⟩ := checkAnswer_of_delegateIn_eq_ok h
  obtain ⟨-, hmessage, hverify⟩ := eq_of_checkAnswer_eq_ok hcheck
  obtain ⟨set, hset, ha, hw⟩ := (r.message.verifyAt_eq_ok_iff ..).mp hverify
  obtain ⟨source, records, hsource, hrecords, hset⟩ := (Directory.sourceSet_eq_ok_iff ..).mp hset
  obtain ⟨hsigned, htotal⟩ := VerifiedWeight.mk.inj hw
  rw [hmessage] at hsource
  refine ⟨height, source, records, set, hheight, hsource, hrecords, hset, ?_⟩
  constructor
  · apply hmessage
  · apply ha.network_eq
  · apply ha.known
  · apply ha.signed
  · apply hsigned
  · apply htotal
  · rw [hsigned, htotal]
    apply ha.enough
  · apply ha.genuine

/-- A message of the only validator of a directory is confirmed. -/
theorem delegateIn_confirms_sole :
  ∃ (message : Message) (answer : Bytes) (r : Attested),
    let v : Verifier := ⟨1, .zero, .standard⟩
    let d : Directory Residue := .sole default 3
    (v.delegateIn (fun _ => d) (fun _ _ s => (.ok answer, s)) message ()).1 = .ok r ∧
    ∃ height source records set,
      d.height = .ok height ∧
      d.subnetOf message.chain = .ok source ∧
      d.snapshot height (if source = .primaryNetwork then v.own else source) = .ok records ∧
      ValidatorSet.ofRecords records = .ok set ∧
      v.Confirms set message r
  := by
  obtain ⟨message, hmessage⟩ := Message.exists_make 1 .zero
    (show (Payload.blockHash .zero).bytes.length + 42 ≤ Wire.maxSize by decide)
  obtain ⟨hnetwork, -, hpayload⟩ := (Message.make_eq_ok_iff ..).mp hmessage
  have hsize : message.bytes.length + 105 ≤ Wire.maxSize := by
    rw [message.length_bytes, hpayload]
    decide
  obtain ⟨m, rfl, hsigners, sig, hdecode, hverify⟩ :=
    SignedMessage.exists_signed (show (3 : Residue) ≠ 0 by decide) hsize
  have hrequest : requestFor m.message = .ok (.block .zero) := by
    rw [requestFor, Message.content, hpayload, Payload.parse_blockHash]
    rfl
  have hpercent : Quorum.standard.ceilPercent = .ok 67 := rfl
  have hr : (Verifier.delegateIn ⟨1, .zero, .standard⟩ (fun _ => .sole default (3 : Residue))
      (fun _ _ s => (.ok m.bytes, s)) m.message ()).1 = .ok ⟨m, 1, 1⟩ := by
    have hheight : (Directory.sole default (3 : Residue)).height = .ok 0 := rfl
    simp only [delegateIn, hheight, hpercent, hrequest, Bind.bind, Except.bind, pure, Except.pure]
    exact checkAnswer_sole _ _ _ hnetwork hsigners hdecode hverify
  use m.message, m.bytes, ⟨m, 1, 1⟩, hr
  apply delegateIn_confirms _ _ _ _ _ _ hr

end Verifier

end Interchain
