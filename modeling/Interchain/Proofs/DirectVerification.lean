import Interchain.Proofs.Delegation
import Interchain.Proofs.Predicates

/-!
# Predicates and direct verification

Predicates are checked with validator sets that were loaded beforehand, one for each source
that some predicate names, and a failure to load one is kept in place of it.  What a predicate
comes to is nevertheless what verifying its message by itself says, so neither the other
predicates nor their order matter.
-/

namespace Interchain

variable {Key Sig : Type} [AggregateScheme Key Sig]

/-- A message is verified at a height by looking up the set that attests for its chain and
measuring it against this set; the weights behind it are then known. -/
theorem SignedMessage.verifyAt_eq (m : SignedMessage) (d : Directory Key) (network : UInt32)
    (own : Id) (height : UInt64) (quorum : Quorum) :
  m.verifyAt d network own height quorum = (do
    let set ← d.sourceSet height m.message.chain own
    m.verify network set quorum
    return ⟨set.markedWeight m.signers, set.total.toNat⟩)
  := by
  rw [verifyAt]
  congr 1
  funext set
  cases hverify : m.verify network set quorum with
  | error e => rfl
  | ok u =>
      have ha := (m.verify_eq_ok_iff network set quorum).mp hverify
      simp only [Bind.bind, Except.bind,
        set.select_eq_ok ((m.signers.bound_le_iff _).mpr ha.known), set.sumWeights_marked]

/-- What the message of a packed predicate comes to if it is verified by itself at a height. -/
def Predicate.verifyAt (d : Directory Key) (network : UInt32) (own : Id) (height : UInt64)
    (quorum : Quorum) (packed : Bytes) : Except ChainError SignedMessage :=
  match decode packed with
  | .error e => .error e
  | .ok m =>
    match m.verifyAt d network own height quorum with
    | .ok _ => .ok m
    | .error e => .error (.message e)

namespace PredicateView

/-- Checking a predicate with the right validators verifies its message. -/
theorem check_eq_verifyAt {d : Directory Key} {own : Id} {v : PredicateView Key} {packed : Bytes}
    (hagrees : v.Agrees d own) (hcovers : v.Covers packed) :
  v.check packed = Predicate.verifyAt d v.network own v.height v.quorum packed
  := by
  rw [check, Predicate.verifyAt]
  cases hdecode : Predicate.decode packed with
  | error e => rfl
  | ok m =>
      simp only [Bind.bind, Except.bind, validators_eq d own hagrees (hcovers m hdecode),
        m.verifyAt_eq, ChainError.ofMessage]
      cases d.sourceSet v.height m.message.chain own with
      | error e => rfl
      | ok set =>
          simp only [Except.mapError]
          cases m.verify v.network set v.quorum with
          | error e => rfl
          | ok u => rfl

/-- Loading takes the height that the directory has, and then what every source has. -/
theorem load_eq_ok_iff (d : Directory Key) (network : UInt32) (own : Id) (quorum : Quorum)
    (predicates : List Bytes) (v : PredicateView Key) :
  load d network own quorum predicates = .ok v
    ↔ ∃ height, d.height = .ok height ∧
        v = predicates.foldl (loadFor d own) { network, quorum, height }
  := by
  rw [load, bind_eq_ok_iff]
  apply exists_congr
  intro height
  apply and_congr_right
  intro _
  exact ⟨fun h => (Except.ok.inj h).symm, congrArg Except.ok ∘ Eq.symm⟩

/-- What predicates come to is what their messages come to if each is verified by itself. -/
theorem checkAll_eq_map_verifyAt {d : Directory Key} {network : UInt32} {own : Id}
    {quorum : Quorum} {predicates : List Bytes} {v : PredicateView Key}
    (h : load d network own quorum predicates = .ok v) :
  d.height = .ok v.height ∧
  v.checkAll predicates
    = predicates.map (Predicate.verifyAt d network own v.height quorum)
  := by
  obtain ⟨height, hheight, rfl⟩ := (load_eq_ok_iff ..).mp h
  have hload := loadedFrom_foldl d own predicates
    (v := { network, quorum, height }) (by simp [Agrees])
  rw [hload.height_eq]
  use hheight
  rw [checkAll]
  apply List.map_congr_left
  intro p hp
  rw [check_eq_verifyAt hload.agrees (hload.covers p hp), hload.network_eq, hload.quorum_eq,
    hload.height_eq]

/-- Once the validators of the sources of some predicates are loaded at a height, the result at
each place is the error with which the predicate there does not decode, or the message that it
carries if verifying this message at that height succeeds, or else the error with which
verifying it fails.  The result is the same wherever the predicate stands among whatever
others. -/
theorem checkAll_verifies (d : Directory Key) (network : UInt32) (own : Id)
    (quorum : Quorum) (predicates : List Bytes) (v : PredicateView Key)
    (h : load d network own quorum predicates = .ok v) :
  d.height = .ok v.height ∧
  (v.checkAll predicates).length = predicates.length ∧
  (∀ (i : Nat) packed, predicates[i]? = some packed →
    (∀ e, Predicate.decode packed = .error e →
      (v.checkAll predicates)[i]? = some (.error e)) ∧
    ∀ m, Predicate.decode packed = .ok m →
      (∀ w, m.verifyAt d network own v.height quorum = .ok w →
        (v.checkAll predicates)[i]? = some (.ok m)) ∧
      ∀ e, m.verifyAt d network own v.height quorum = .error e →
        (v.checkAll predicates)[i]? = some (.error (.message e))) ∧
  ∀ others w, load d network own quorum others = .ok w →
    ∀ i j : Nat, predicates[i]? = others[j]? →
      (v.checkAll predicates)[i]? = (w.checkAll others)[j]?
  := by
  obtain ⟨hheight, hresults⟩ := checkAll_eq_map_verifyAt h
  use hheight
  refine ⟨?length, ?verified, ?independent⟩
  case length => rw [checkAll, List.length_map]
  case verified =>
    intro i packed hpacked
    rw [hresults, List.getElem?_map, hpacked, Option.map_some, Predicate.verifyAt]
    constructor
    · intro e he
      rw [he]
    · intro m hm
      rw [hm]
      constructor
      · intro w hw
        simp only [hw]
      · intro e he
        simp only [he]
  case independent =>
    intro others w hw i j hij
    obtain ⟨hheight', hresults'⟩ := checkAll_eq_map_verifyAt hw
    have heq : w.height = v.height := Except.ok.inj (hheight'.symm.trans hheight)
    rw [hresults, hresults', heq, List.getElem?_map, List.getElem?_map, hij]

end PredicateView

/-! ### A directory of one chain -/

/-- There is a message of a chain that the key of a validator alone signed. -/
theorem SignedMessage.exists_signed_residue (network : UInt32) (chain : Id) {key : Residue}
    (hkey : key ≠ 0) :
  ∃ m : SignedMessage, m.message.network = network ∧ m.message.chain = chain ∧
    m.signers = .ofList [0] ∧
    ∃ sig : Residue, AggregateScheme.decodeSig? Residue m.signature = some sig ∧
      AggregateScheme.verify key m.id.bytes sig = true
  := by
  obtain ⟨message, hmessage⟩ := Message.exists_make network chain
    (show (Payload.blockHash .zero).bytes.length + 42 ≤ Wire.maxSize by decide)
  obtain ⟨hnetwork, hchain, hpayload⟩ := (Message.make_eq_ok_iff ..).mp hmessage
  have hsize : message.bytes.length + 105 ≤ Wire.maxSize := by
    rw [message.length_bytes, hpayload]
    decide
  obtain ⟨m, rfl, hsigned⟩ := exists_signed hkey hsize
  exact ⟨m, hnetwork, hchain, hsigned⟩

/-- A message signed by the only validator that attests for its chain is verified. -/
theorem SignedMessage.verifyAt_of_sole {d : Directory Key} {m : SignedMessage} (node : NodeId)
    {key : Key} {sig : Sig} {own : Id} {height : UInt64} (quorum : Quorum)
    (hset : d.sourceSet height m.message.chain own = .ok (.sole ⟨key, 1, [node]⟩))
    (hs : m.signers = .ofList [0])
    (hd : AggregateScheme.decodeSig? Key m.signature = some sig)
    (hv : AggregateScheme.verify key m.id.bytes sig = true) :
  m.verifyAt d m.message.network own height quorum = .ok ⟨1, 1⟩
  := by
  apply (m.verifyAt_eq_ok_iff ..).mpr
  use .sole ⟨key, 1, [node]⟩, hset
  constructor
  · apply SignedMessage.accepted_sole _ quorum rfl hs hd hv
  · rw [hs, ValidatorSet.markedWeight_sole]
    rfl

/-- The directory of one validator in which only one chain is known. -/
def Directory.onlyChain (chain : Id) (node : NodeId) (key : Key) : Directory Key :=
  { sole node key with subnetOf := fun c => if c = chain then .ok c else .error (.unknownChain c) }

/-- A message of the only chain, signed by its validator, is verified, and one of another
chain is not. -/
theorem Directory.verifyAt_onlyChain (chain own : Id) (node : NodeId) {key : Key}
    {m : SignedMessage} {sig : Sig} (height : UInt64) (quorum : Quorum)
    (hs : m.signers = .ofList [0])
    (hd : AggregateScheme.decodeSig? Key m.signature = some sig)
    (hv : AggregateScheme.verify key m.id.bytes sig = true) :
  m.verifyAt (onlyChain chain node key) m.message.network own height quorum
    = if m.message.chain = chain then .ok ⟨1, 1⟩ else .error (.unknownChain m.message.chain)
  := by
  split
  case isTrue hchain =>
    apply SignedMessage.verifyAt_of_sole node quorum _ hs hd hv
    apply (sourceSet_eq_ok_iff ..).mpr
    use chain, [⟨node, some key, 1⟩]
    rw [hchain]
    exact ⟨if_pos rfl, rfl, ValidatorSet.ofRecords_sole ..⟩
  case isFalse hchain =>
    have hsubnet : (onlyChain chain node key).subnetOf m.message.chain
        = .error (.unknownChain m.message.chain) := if_neg hchain
    rw [m.verifyAt_eq, sourceSet, hsubnet]
    rfl

/-- Of a message of the only known chain, no message, one of an unknown chain and the first
again, each comes to what it is worth. -/
theorem PredicateView.checkAll_verifies_onlyChain :
  let d : Directory Residue := .onlyChain .zero default 3
  ∃ (m foreign : SignedMessage) (v : PredicateView Residue),
    let predicates := [m.bytes, [], foreign.bytes, m.bytes].map Predicate.pack
    load d 1 .zero .standard predicates = .ok v ∧
    (v.checkAll predicates)[0]? = some (.ok m) ∧
    (∃ e, (v.checkAll predicates)[1]? = some (.error e)) ∧
    (v.checkAll predicates)[2]? = some (.error (.message (.unknownChain foreign.message.chain))) ∧
    (v.checkAll predicates)[3]? = some (.ok m)
  := by
  intro d
  obtain ⟨m, hnetwork, hchain, hs, sig, hd, hsig⟩ :=
    SignedMessage.exists_signed_residue 1 .zero (show (3 : Residue) ≠ 0 by decide)
  obtain ⟨foreign, hnetwork', hchain', hs', sig', hd', hsig'⟩ :=
    SignedMessage.exists_signed_residue 1 ⟨.replicate 32 1⟩ (show (3 : Residue) ≠ 0 by decide)
  let predicates := [m.bytes, [], foreign.bytes, m.bytes].map Predicate.pack
  obtain ⟨v, hload⟩ : ∃ v, load d 1 .zero .standard predicates = .ok v := ⟨_, rfl⟩
  obtain ⟨-, -, hresults, -⟩ := checkAll_verifies d 1 .zero .standard predicates v hload
  have hverified : m.verifyAt d 1 .zero v.height .standard = .ok ⟨1, 1⟩ := by
    rw [← hnetwork, Directory.verifyAt_onlyChain _ _ _ _ _ hs hd hsig, if_pos hchain]
  have hunknown : foreign.verifyAt d 1 .zero v.height .standard
      = .error (.unknownChain foreign.message.chain) := by
    rw [← hnetwork', Directory.verifyAt_onlyChain _ _ _ _ _ hs' hd' hsig', if_neg]
    rw [hchain']
    decide
  use m, foreign, v, hload
  refine ⟨?_, ?_, ?_, ?_⟩
  · apply ((hresults 0 _ rfl).2 m (Predicate.decode_pack m)).1 _ hverified
  · exact ⟨_, (hresults 1 _ rfl).1 _ rfl⟩
  · apply ((hresults 2 _ rfl).2 foreign (Predicate.decode_pack foreign)).2 _ hunknown
  · apply ((hresults 3 _ rfl).2 m (Predicate.decode_pack m)).1 _ hverified

end Interchain
