import Interchain.Ledger.Chain
import Interchain.Proofs.Acceptance

/-!
# What predicates prove

The view that is loaded for the predicates of a transaction agrees with the directory about
every source that one of them names.  So a predicate that is checked comes to a message
exactly if it carries this message and the validators of its source, at the height that was
read, accept it.  `Chain.Proves` says so of the predicate at a place in the access list, and
`Chain.getElem?_checkPredicates_iff_proves` finds it among the results.
-/

namespace Interchain

variable {Key Sig : Type} [AggregateScheme Key Sig]

/-- A packed predicate carries the signed message that is read from what was packed. -/
theorem Predicate.decode_eq_ok_iff (packed : Bytes) (m : SignedMessage) :
  decode packed = .ok m ↔ ∃ b, unpack packed = .ok b ∧ SignedMessage.parse b = .ok m
  := by
  rw [decode, bind_eq_ok_iff]
  apply exists_congr
  intro b
  apply and_congr_right
  intro _
  apply mapError_eq_ok_iff

namespace PredicateView

/-! ### Loading -/

/-- What a view holds of a source is what the directory says at the height of the view. -/
def Agrees (v : PredicateView Key) (d : Directory Key) (own : Id) : Prop :=
  ∀ e ∈ v.sets, e.2 = d.sourceSet v.height e.1 own

/-- The view holds something of the source of a packed predicate. -/
def Covers (v : PredicateView Key) (packed : Bytes) : Prop :=
  ∀ m, Predicate.decode packed = .ok m → ∃ e ∈ v.sets, e.1 = m.message.chain

variable (d : Directory Key) (own : Id)

/-- Loading the source of one predicate changes nothing but adds what the directory says. -/
theorem loadFor_cases (v : PredicateView Key) (packed : Bytes) :
  (loadFor d own v packed = v ∧ v.Covers packed) ∨
  ∃ m, Predicate.decode packed = .ok m ∧
    loadFor d own v packed
      = v.insert m.message.chain (d.sourceSet v.height m.message.chain own)
  := by
  rw [loadFor]
  cases hdecode : Predicate.decode packed with
  | error e =>
      left
      use rfl
      intro m hm
      rw [hdecode] at hm
      cases hm
  | ok m =>
      by_cases hany : v.sets.any (·.1 = m.message.chain) = true
      · left
        simp only [hany, if_true, true_and]
        intro m' hm'
        rw [hdecode] at hm'
        cases hm'
        simpa using hany
      · right
        use m, rfl
        simp only [if_neg hany]

/-- What loading the sources of predicates leaves as it was, and what it makes of the rest. -/
structure LoadedFrom (v v' : PredicateView Key) (predicates : List Bytes) : Prop where
  network_eq : v'.network = v.network
  quorum_eq : v'.quorum = v.quorum
  height_eq : v'.height = v.height
  agrees : v'.Agrees d own
  subset : v.sets ⊆ v'.sets
  covers : ∀ p ∈ predicates, v'.Covers p

/-- Loading the source of one predicate. -/
theorem loadedFrom_loadFor {v : PredicateView Key} (h : v.Agrees d own) (packed : Bytes) :
  LoadedFrom d own v (loadFor d own v packed) [packed]
  := by
  obtain ⟨hv, hcovers⟩ | ⟨m, hm, hv⟩ := loadFor_cases d own v packed
  · rw [hv]
    exact ⟨rfl, rfl, rfl, h, List.Subset.refl _, by simpa using hcovers⟩
  · rw [hv]
    refine ⟨rfl, rfl, rfl, ?_, List.subset_cons_self _ _, ?_⟩
    · intro e he
      obtain rfl | he := List.mem_cons.mp he
      · rfl
      · apply h e he
    · intro p hp
      rw [List.mem_singleton.mp hp]
      intro m' hm'
      rw [hm] at hm'
      cases hm'
      exact ⟨_, List.mem_cons_self, rfl⟩

omit [AggregateScheme Key Sig] in
theorem Covers.mono {v v' : PredicateView Key} {packed : Bytes} (h : v.Covers packed)
    (hsub : v.sets ⊆ v'.sets) :
  v'.Covers packed
  := by
  intro m hm
  obtain ⟨e, he, hchain⟩ := h m hm
  exact ⟨e, hsub he, hchain⟩

/-- Loading the sources of predicates one after another. -/
theorem loadedFrom_foldl (predicates : List Bytes) {v : PredicateView Key}
    (h : v.Agrees d own) :
  LoadedFrom d own v (predicates.foldl (loadFor d own) v) predicates
  := by
  induction predicates generalizing v with
  | nil => exact ⟨rfl, rfl, rfl, h, List.Subset.refl _, by simp⟩
  | cons p predicates ih =>
      have hfirst := loadedFrom_loadFor d own h p
      have hrest := ih hfirst.agrees
      rw [List.foldl_cons]
      refine ⟨hrest.network_eq.trans hfirst.network_eq, hrest.quorum_eq.trans hfirst.quorum_eq,
        hrest.height_eq.trans hfirst.height_eq, hrest.agrees,
        List.Subset.trans hfirst.subset hrest.subset, ?_⟩
      intro q hq
      obtain rfl | hq := List.mem_cons.mp hq
      · apply (hfirst.covers q List.mem_cons_self).mono hrest.subset
      · apply hrest.covers q hq

/-- A view says of a source that it covers what the directory says. -/
theorem validators_eq {v : PredicateView Key} (h : v.Agrees d own) {chain : Id}
    (hchain : ∃ e ∈ v.sets, e.1 = chain) :
  v.validators chain = d.sourceSet v.height chain own
  := by
  have hsome : (v.sets.find? (·.1 = chain)).isSome = true := by
    rw [List.find?_isSome]
    simpa using hchain
  obtain ⟨e, he⟩ := Option.isSome_iff_exists.mp hsome
  have hname : e.1 = chain := by simpa using List.find?_some he
  rw [validators, he, ← hname]
  apply h e (List.mem_of_find?_eq_some he)

/-! ### Checking -/

/-- A packed predicate comes to the message that it carries if the validators of its source
accept this message. -/
theorem check_eq_ok_iff (v : PredicateView Key) (packed : Bytes) (m : SignedMessage) :
  v.check packed = .ok m
    ↔ Predicate.decode packed = .ok m ∧
        ∃ set, v.validators m.message.chain = .ok set ∧ m.Accepted v.network set v.quorum
  := by
  simp only [check, bind_eq_ok_iff]
  constructor
  · rintro ⟨m', hdecode, set, hset, ⟨⟩, hverify, hm⟩
    cases hm
    use hdecode, set, mapError_eq_ok_iff.mp hset
    apply (m.verify_eq_ok_iff _ _ _).mp (mapError_eq_ok_iff.mp hverify)
  · rintro ⟨hdecode, set, hset, haccepted⟩
    exact ⟨m, hdecode, set, mapError_eq_ok_iff.mpr hset, (),
      mapError_eq_ok_iff.mpr haccepted.verify_eq, rfl⟩

/-- A predicate among those that a view was loaded for comes to the message that it carries
if the set which attests for its source at the present height accepts this message. -/
theorem check_load_eq_ok_iff {d : Directory Key} {network : UInt32} {own : Id} {quorum : Quorum}
    {predicates : List Bytes} {v : PredicateView Key}
    (h : load d network own quorum predicates = .ok v) {packed : Bytes}
    (hpacked : packed ∈ predicates) (m : SignedMessage) :
  v.check packed = .ok m
    ↔ Predicate.decode packed = .ok m ∧
        ∃ height set, d.height = .ok height ∧
          d.sourceSet height m.message.chain own = .ok set ∧ m.Accepted network set quorum
  := by
  obtain ⟨height, hheight, hv⟩ := bind_eq_ok_iff.mp h
  cases hv
  have hload := loadedFrom_foldl d own predicates
    (v := { network, quorum, height }) (by simp [Agrees])
  rw [check_eq_ok_iff, hload.network_eq, hload.quorum_eq]
  apply and_congr_right
  intro hdecode
  rw [validators_eq d own hload.agrees (hload.covers packed hpacked m hdecode), hload.height_eq]
  constructor
  · rintro ⟨set, h⟩
    exact ⟨height, set, hheight, h⟩
  · rintro ⟨height', set, hheight', h⟩
    rw [hheight] at hheight'
    cases hheight'
    use set

end PredicateView

namespace Chain

variable (c : Chain) (d : Directory Key) (t : Transaction)

/-- The entry at a place among those that the access list has for the messenger carries a
signed message, which is accepted by the validators of its source at the present height. -/
structure Proves (i : Nat) (m : SignedMessage) : Prop where
  carried : ∃ e b, (t.accessList.filter (·.address = messengerAddress))[i]? = some e ∧
    Predicate.unpack (Predicate.ofStorageKeys e.keys) = .ok b ∧ SignedMessage.parse b = .ok m
  attested : ∃ height set, d.height = .ok height ∧
    d.sourceSet height m.message.chain c.config.subnet = .ok set ∧
    m.Accepted c.config.network set c.config.quorum

/-- There are as many results as predicates. -/
theorem length_checkPredicates (predicates : List Bytes) :
  (c.checkPredicates d predicates).length = predicates.length
  := by
  rw [checkPredicates]
  cases predicates with
  | nil => rfl
  | cons p predicates =>
      rw [if_neg (by simp)]
      split
      · rw [PredicateView.checkAll, List.length_map]
      · rw [PredicateResults.allFailed, List.length_replicate]

/-- The result at a place is a message if the predicate there carries it and the set that
attests for its source at the present height accepts it. -/
theorem getElem?_checkPredicates (predicates : List Bytes) (i : Nat) (m : SignedMessage) :
  (c.checkPredicates d predicates)[i]? = some (.ok m)
    ↔ ∃ p, predicates[i]? = some p ∧ Predicate.decode p = .ok m ∧
        ∃ height set, d.height = .ok height ∧
          d.sourceSet height m.message.chain c.config.subnet = .ok set ∧
          m.Accepted c.config.network set c.config.quorum
  := by
  rw [checkPredicates]
  by_cases hempty : predicates.isEmpty = true
  · rw [if_pos hempty, List.isEmpty_iff.mp hempty]
    simp
  rw [if_neg hempty]
  cases hload : PredicateView.load d c.config.network c.config.subnet c.config.quorum
      predicates with
  | ok view =>
      simp only [PredicateView.checkAll, List.getElem?_map, Option.map_eq_some_iff]
      apply exists_congr
      intro p
      apply and_congr_right
      intro hp
      exact PredicateView.check_load_eq_ok_iff hload (List.mem_of_getElem? hp) m
  | error e =>
      constructor
      · intro h
        have herror := List.eq_of_mem_replicate (List.mem_of_getElem? h)
        cases herror
      · rintro ⟨-, -, -, height, -, hheight, -⟩
        rw [PredicateView.load, hheight] at hload
        cases hload

/-- The result at a place is the message that the predicate there proves. -/
theorem getElem?_checkPredicates_iff_proves (i : Nat) (m : SignedMessage) :
  (c.checkPredicates d (t.predicatesFor messengerAddress))[i]? = some (.ok m)
    ↔ c.Proves d t i m
  := by
  simp only [getElem?_checkPredicates, Transaction.predicatesFor, List.getElem?_map,
    Option.map_eq_some_iff, Predicate.decode_eq_ok_iff]
  constructor
  · rintro ⟨-, ⟨e, he, rfl⟩, ⟨b, hunpack, hparse⟩, hattested⟩
    exact ⟨⟨e, b, he, hunpack, hparse⟩, hattested⟩
  · rintro ⟨⟨e, b, he, hunpack, hparse⟩, hattested⟩
    exact ⟨_, ⟨e, he, rfl⟩, ⟨b, hunpack, hparse⟩, hattested⟩

/-- There is a result at every place for which the access list has an entry. -/
theorem getElem?_checkPredicates_eq_none_iff (i : Nat) :
  (c.checkPredicates d (t.predicatesFor messengerAddress))[i]? = none
    ↔ (t.accessList.filter (·.address = messengerAddress)).length ≤ i
  := by
  rw [List.getElem?_eq_none_iff, length_checkPredicates, Transaction.predicatesFor,
    List.length_map]

end Chain

end Interchain
