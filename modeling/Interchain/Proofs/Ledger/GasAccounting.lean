import Interchain.Proofs.Ledger.Outcome
import Interchain.Proofs.Messenger

/-!
# Gas

The price of a transaction before execution is a sum of natural numbers, and the gas of an
admitted transaction covers it.  What execution uses is this price and what the call of the
messenger costs, or all of the gas if the call fails: `Execution.Accounts` says so, and
`Sequencer.gas_accounted` that every receipt on a chain accounts for the gas of a transaction
that was sealed, however calls took turns and whatever was answered about validators.  So adding
up and taking off prices in 64 bits never wraps around.
-/

namespace Interchain

/-! ### Results -/

/-- The signed message that the predicate at a place carries. -/
def Transaction.carried (t : Transaction) (i : Nat) : Option SignedMessage :=
  (t.predicatesFor messengerAddress)[i]?.bind fun p => (Predicate.decode p).toOption

variable {Key Sig : Type} [AggregateScheme Key Sig]

/-- Whatever is answered about validators, predicates are checked in some view or all fail. -/
theorem Chain.resolve_inquire_cases (c : Chain) (predicates : List Bytes)
    (answers : Nat → Directory Key) :
  (∃ view : PredicateView Key,
    (c.inquire predicates).resolve answers = view.checkAll predicates) ∨
  ∃ e, (c.inquire predicates).resolve answers = .allFailed predicates.length e
  := by
  rw [inquire]
  by_cases hempty : predicates.isEmpty = true
  · rw [if_pos hempty, List.isEmpty_iff.mp hempty]
    exact .inr ⟨.gasOverflow, rfl⟩
  · rw [if_neg hempty]
    let view : Inquiry Key (Except MessageError (PredicateView Key)) :=
      PredicateView.inquire c.config.network c.config.subnet c.config.quorum predicates
    obtain ⟨n, hresolve⟩ := view.exists_resolve_bind _ answers
    rw [hresolve]
    cases view.resolve answers with
    | error e => exact .inr ⟨.message e, rfl⟩
    | ok view => exact .inl ⟨view, rfl⟩

/-- The results of the predicates of a transaction show no messages but those that they carry. -/
theorem Chain.show_resolve_inquire (c : Chain) (t : Transaction)
    (answers : Nat → Directory Key) :
  ((c.inquire (t.predicatesFor messengerAddress)).resolve answers).Show t.carried
  := by
  obtain ⟨view, hresults⟩ | ⟨e, hresults⟩ :=
    c.resolve_inquire_cases (t.predicatesFor messengerAddress) answers
  · rw [hresults, PredicateView.checkAll]
    constructor
    · intro i hi
      rw [List.getElem?_map, Option.map_eq_none_iff] at hi
      rw [Transaction.carried, hi]
      rfl
    · intro i m hi
      rw [List.getElem?_map, Option.map_eq_some_iff] at hi
      obtain ⟨p, hp, hcheck⟩ := hi
      rw [Transaction.carried, hp, Option.bind_some, ((view.check_eq_ok_iff p m).mp hcheck).1]
      rfl
  · rw [hresults, PredicateResults.allFailed]
    constructor
    · intro i hi
      rw [List.getElem?_eq_none_iff, List.length_replicate] at hi
      rw [Transaction.carried, List.getElem?_eq_none hi]
      rfl
    · intro i m hi
      cases List.eq_of_mem_replicate (List.mem_of_getElem? hi)

/-! ### Executions -/

/-- The gas that an execution used is accounted for: it is the price of the transaction and the
cost of the call if there is one and it succeeds, and all of the gas if it fails. -/
structure Execution.Accounts (x : Execution) (t : Transaction) : Prop where
  price_le : t.price ≤ x.gasUsed
  gasUsed_le : x.gasUsed ≤ t.gas.toNat
  failed : x.successful = false → x.gasUsed = t.gas.toNat
  elsewhere : t.recipient ≠ messengerAddress → x.successful = true ∧ x.gasUsed = t.price
  called : t.recipient = messengerAddress → x.successful = true →
    ∃ f, Abi.Function.decode t.data = .ok f ∧ x.gasUsed = t.price + f.cost t.carried

/-- The outcome of a transaction whose gas covers its price accounts for the gas. -/
theorem ChainConfig.accounts_outcome (config : ChainConfig) (answers : Nat → Directory Key)
    {t : Transaction} (ht : t.price ≤ t.gas.toNat) :
  (config.outcome answers t).Accounts t
  := by
  have hshow := ({ config } : Chain).show_resolve_inquire t answers
  rw [outcome, Chain.execute]
  by_cases hrecipient : t.recipient ≠ messengerAddress
  · rw [if_pos hrecipient]
    constructor
    case price_le => exact Nat.le_refl _
    case gasUsed_le => exact ht
    case failed => rintro ⟨⟩
    case elsewhere => exact fun _ => ⟨rfl, rfl⟩
    case called => exact fun h => absurd h hrecipient
  · rw [if_neg hrecipient]
    dsimp only
    split
    · next r hr =>
      obtain ⟨f, hdecode, hcost, hle⟩ := Messenger.gasUsed_of_execute hr hshow
      constructor
      case price_le => exact Nat.le_add_right _ _
      case gasUsed_le =>
        dsimp only
        omega
      case failed => rintro ⟨⟩
      case elsewhere => exact fun h => absurd h hrecipient
      case called =>
        intro _ _
        use f, hdecode
        rw [hcost]
    · constructor
      case price_le => exact ht
      case gasUsed_le => exact Nat.le_refl _
      case failed => exact fun _ => rfl
      case elsewhere => exact fun h => absurd h hrecipient
      case called => rintro _ ⟨⟩

/-- Taking the price off the gas does not wrap around in 64 bits, and neither does adding what the
call used to the price. -/
theorem Execution.Accounts.toNat_eq {x : Execution} {t : Transaction} (h : x.Accounts t) :
  (t.gas - .ofNat t.price).toNat = t.gas.toNat - t.price ∧
  ∀ used, x.gasUsed = t.price + used → (UInt64.ofNat t.price + .ofNat used).toNat = x.gasUsed
  := by
  have hprice := h.price_le
  have hgas := h.gasUsed_le
  have hlimit : t.gas.toNat < UInt64.size := t.gas.toNat_lt
  have hword : (UInt64.ofNat t.price).toNat = t.price :=
    UInt64.toNat_ofNat_of_lt' (by omega)
  constructor
  · rw [UInt64.toNat_sub_of_le, hword]
    rw [UInt64.le_iff_toNat_le, hword]
    omega
  · intro used hused
    rw [← UInt64.ofNat_add, ← hused]
    exact UInt64.toNat_ofNat_of_lt' (by omega)

/-! ### Receipts -/

namespace Sequencer

/-- The price of a transaction before execution is accepted exactly if its gas covers it, and is
an error if it is too great or does not fit in 64 bits; a call of the messenger uses no more than
its limit; and every receipt on a chain accounts for the gas of a transaction that was sealed,
without any number wrapping around, however calls took turns. -/
theorem gas_accounted (w : World Key Sig) (config : ChainConfig)
    (heightFault : Option MessageError) (turns : List (Turn Key)) :
  let i := w.sites.length
  let s := (start w config heightFault).run i turns
  (∀ t : Transaction, Chain.intrinsicGas t (t.predicatesFor messengerAddress)
    = if UInt64.size ≤ t.price then .error .gasOverflow
      else if t.gas.toNat < t.price then .error (.intrinsicGasTooLow t.price t.gas.toNat)
      else .ok t.price) ∧
  (∀ (m : Messenger) (ctx : CallContext) (input : Bytes) (limit : Nat) (r : CallResult),
    m.execute ctx input limit = .ok r → r.gasUsed ≤ limit) ∧
  ∃ site, s.1.world.sites[i]? = some site ∧
    ∀ name r, site.chain.receipt name = .ok r → ∃ a ∈ s.2,
      a.transaction.hash = name ∧ a.receipt = r ∧ r.outcome.Accounts a.transaction ∧
      (a.transaction.gas - .ofNat a.transaction.price).toNat
        = a.transaction.gas.toNat - a.transaction.price ∧
      ∀ used, r.gasUsed = a.transaction.price + used →
        (UInt64.ofNat a.transaction.price + .ofNat used).toNat = r.gasUsed
  := by
  intro i s
  refine ⟨Chain.intrinsicGas_eq, ?_, ?_⟩
  · intro m ctx input limit r hr
    obtain ⟨messages, hshow⟩ := ctx.predicates.exists_show
    obtain ⟨-, -, -, hle⟩ := Messenger.gasUsed_of_execute hr hshow
    exact hle
  · obtain ⟨site, ho⟩ := (ordered_start w config heightFault).run turns
    rw [List.nil_append] at ho
    use site, ho.site_eq
    intro name r hr
    obtain ⟨a, ha, hname, rfl⟩ := ho.grown.exists_sealing hr
    have haccounts : a.receipt.outcome.Accounts a.transaction := by
      obtain ⟨-, c, intrinsic, -, -, -, hadmission, -⟩ := ho.grown.grownFrom.exists_execute ha
      obtain ⟨-, -, -, hprice⟩ := (c.admission_eq_ok_iff ..).mp hadmission
      obtain ⟨answers, hx⟩ :=
        (ordered_start w config heightFault).exists_outcome_run rfl turns ha
      rw [a.outcome_receipt, hx]
      apply config.accounts_outcome answers hprice
    exact ⟨a, ha, hname, rfl, haccounts, haccounts.toNat_eq⟩

end Sequencer

end Interchain
