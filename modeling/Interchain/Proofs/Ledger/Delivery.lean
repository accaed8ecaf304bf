import Interchain.Proofs.Exposure
import Interchain.Proofs.Ledger.Admission
import Interchain.Proofs.Ledger.Inquiry
import Interchain.Proofs.Packing

/-!
# What a delivery comes to

A delivery is a transaction with one predicate, the encoding of a signed message, that reads the
call in this message.  If it is executed successfully, the validators of the source of the
message accepted it, as the chain learned of them when it asked, and the call that was read is
the one in the message.  `Chain.Delivers` says so, whoever answers the questions of the chain
and however the answers change from one question to the next.
-/

namespace Interchain

variable {Key Sig : Type} [AggregateScheme Key Sig]

/-! ### One predicate -/

omit [AggregateScheme Key Sig] in
/-- What was put into a view is what it holds. -/
theorem PredicateView.validators_insert (v : PredicateView Key) (chain : Id)
    (set : Except MessageError (ValidatorSet Key)) :
  (v.insert chain set).validators chain = set
  := by
  rw [insert, validators, List.find?_cons_of_pos (by simp)]

namespace Chain

/-- The validators of the source of a message accept it, as a chain is told of them: the height
first, then the subnet of the source and last the validators of the subnet that attests, at that
height. -/
def Accepts (c : Chain) (answers : Nat → Directory Key) (m : SignedMessage) : Prop :=
  ∃ height subnet records set, (answers 0).height = .ok height ∧
    (answers 1).subnetOf m.message.chain = .ok subnet ∧
    (answers 2).snapshot height (Directory.attestingSubnet subnet c.config.subnet) = .ok records ∧
    ValidatorSet.ofRecords records = .ok set ∧
    m.Accepted c.config.network set c.config.quorum

/-- One predicate has one result, which is a message exactly if it is the one that the predicate
carries and the chain is told of validators that accept it. -/
theorem exists_resolve_inquire (c : Chain) (answers : Nat → Directory Key) (m : SignedMessage) :
  ∃ result, (c.inquire [Predicate.pack m.bytes]).resolve answers = [result] ∧
    ∀ m', result = .ok m' ↔ m' = m ∧ c.Accepts answers m
  := by
  have hcheck (v : PredicateView Key) (set : Except MessageError (ValidatorSet Key))
      (m' : SignedMessage) :
      (v.insert m.message.chain set).check (Predicate.pack m.bytes) = .ok m'
        ↔ m' = m ∧ ∃ set', set = .ok set' ∧ m.Accepted v.network set' v.quorum := by
    rw [PredicateView.check_eq_ok_iff, Predicate.decode_pack, Except.ok.injEq]
    constructor
    · rintro ⟨rfl, h⟩
      rw [PredicateView.validators_insert] at h
      exact ⟨rfl, h⟩
    · rintro ⟨rfl, h⟩
      rw [PredicateView.validators_insert]
      exact ⟨rfl, h⟩
  rw [inquire, if_neg (by simp), PredicateView.inquire]
  simp only [Bind.bind, Inquiry.bind, Inquiry.resolve]
  cases hheight : (answers 0).height with
  | error e =>
      refine ⟨_, rfl, fun m' => ⟨?_, ?_⟩⟩
      · rintro ⟨⟩
      · rintro ⟨-, height, _, _, _, hheight', -⟩
        cases hheight.symm.trans hheight'
  | ok height =>
      dsimp only
      rw [List.foldlM_cons, PredicateView.inquireFor, Predicate.decode_pack]
      dsimp only
      rw [if_neg (by simp), Directory.inquireSet]
      simp only [Functor.map, Bind.bind, Inquiry.bind, Inquiry.resolve, Nat.zero_add]
      cases hsubnet : (answers 1).subnetOf m.message.chain with
      | error e =>
          refine ⟨_, rfl, fun m' => (hcheck ..).trans (and_congr_right fun _ => ⟨?_, ?_⟩)⟩
          · rintro ⟨_, ⟨⟩, -⟩
          · rintro ⟨_, subnet, _, _, -, hsubnet', -⟩
            cases hsubnet.symm.trans hsubnet'
      | ok subnet =>
          refine ⟨_, rfl, fun m' => (hcheck ..).trans (and_congr_right fun _ => ⟨?_, ?_⟩)⟩
          · rintro ⟨set, hset, haccepted⟩
            obtain ⟨records, hrecords, hset⟩ := bind_eq_ok_iff.mp hset
            exact ⟨height, subnet, records, set, hheight, hsubnet, hrecords, hset, haccepted⟩
          · rintro ⟨_, _, records, set, hheight', hsubnet', hrecords, hset, haccepted⟩
            cases hheight.symm.trans hheight'
            cases hsubnet.symm.trans hsubnet'
            exact ⟨set, bind_eq_ok_iff.mpr ⟨records, hrecords, hset⟩, haccepted⟩

/-! ### Reading what was delivered -/

/-- The delivery of a message, executed as told, shows a call: the message is what the predicate
of the transaction proves, as the chain accepts it, and the call is what the messenger reads in
it. -/
structure Delivers (c : Chain) (answers : Nat → Directory Key) (t : Transaction) (x : Execution)
    (m : SignedMessage) (w : Abi.VerifiedCall) : Prop where
  performed : c.performUnder answers t = .ok x
  accepted : c.Accepts answers m
  proved : (c.inquire (t.predicatesFor messengerAddress)).resolve answers = [.ok m]
  shown : ∃ r,
    c.messenger.execute ⟨t.sender, false, [.ok m]⟩ t.data (t.gas.toNat - t.price) = .ok r ∧
    Abi.decodeCall r.output = .ok (w, true)

/-- A delivery that is executed successfully shows the call in the message. -/
theorem delivers_of_performUnder {c : Chain} {answers : Nat → Directory Key} {t : Transaction}
    {x : Execution} {m : SignedMessage} {call : Call}
    (hx : c.performUnder answers t = .ok x) (hsuccessful : x.successful = true)
    (hrecipient : t.recipient = messengerAddress)
    (hdata : t.data = (Abi.Function.readCall 0).encode)
    (hpredicates : t.predicatesFor messengerAddress = [Predicate.pack m.bytes])
    (hcall : Payload.parse m.message.payload = .ok (.call call)) :
  c.Delivers answers t x m ⟨m.message.chain, call.source, call.payload⟩
  := by
  have hperformed := hx
  obtain ⟨intrinsic, hadmission, rfl⟩ := (c.performUnder_eq_ok_iff ..).mp hx
  obtain ⟨-, -, rfl, -⟩ := (c.admission_eq_ok_iff ..).mp hadmission
  obtain ⟨r, hr, -⟩ := execute_of_successful hrecipient hsuccessful
  obtain ⟨result, hresult, haccepts⟩ := c.exists_resolve_inquire answers m
  rw [← hpredicates] at hresult
  have hread := hr
  rw [hresult, hdata, ← List.append_nil (Abi.Function.encode _),
    (c.messenger.execute_encode_append ..).1, Messenger.readCall_eq_ok_iff] at hread
  cases hread with
  | absent h hgas => cases h
  | present h hw hgas =>
      cases h
      obtain ⟨rfl, haccepted⟩ := (haccepts _).mp rfl
      obtain ⟨call', hcall', rfl⟩ := hw
      rw [hcall] at hcall'
      cases hcall'
      rw [hresult] at hr
      refine ⟨hperformed, haccepted, hresult, _, hr, ?_⟩
      apply Abi.decodeCall_encodeCall
      apply Nat.lt_of_le_of_lt call.length_payload_le
      norm_num [Wire.maxSize, UInt32.size]

/-- A delivery of a message that the chain accepts, and that carries a call, is executed
successfully if there is gas for reading it. -/
theorem successful_of_accepts {c : Chain} {answers : Nat → Directory Key} {t : Transaction}
    (intrinsic : Nat) {m : SignedMessage} {call : Call} (haccepts : c.Accepts answers m)
    (hrecipient : t.recipient = messengerAddress)
    (hdata : t.data = (Abi.Function.readCall 0).encode)
    (hpredicates : t.predicatesFor messengerAddress = [Predicate.pack m.bytes])
    (hcall : Payload.parse m.message.payload = .ok (.call call))
    (hgas : Gas.readBase + 100 * m.bytes.length ≤ t.gas.toNat - intrinsic) :
  (c.execute t intrinsic
    ((c.inquire (t.predicatesFor messengerAddress)).resolve answers)).successful = true
  := by
  obtain ⟨result, hresult, hiff⟩ := c.exists_resolve_inquire answers m
  cases (hiff m).mpr ⟨rfl, haccepts⟩
  obtain ⟨r, hread⟩ : ∃ r, c.messenger.execute ⟨t.sender, false, [.ok m]⟩ t.data
      (t.gas.toNat - intrinsic) = .ok r := by
    rw [hdata, ← List.append_nil (Abi.Function.encode _),
      (c.messenger.execute_encode_append ..).1]
    exact ⟨_, (Messenger.readCall_eq_ok_iff ..).mpr (.present rfl ⟨call, hcall, rfl⟩ hgas)⟩
  rw [hpredicates, hresult, execute, if_neg (not_not.mpr hrecipient)]
  dsimp only
  rw [hread]

end Chain

end Interchain
