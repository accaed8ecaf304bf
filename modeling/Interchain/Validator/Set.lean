import Interchain.Message.Signers
import Interchain.OrderedTable

/-!
# Validator sets

A query answers with one record for each node.  The canonical set has one validator for
each key among them, in the order of the keys' byte forms, with the weights and nodes of
all records of that key; records without a key count toward the total weight only.  A
`Tally` counts the records one after the other, and no sum of weights may leave 64 bits on
the way.
-/

namespace Interchain

/-- What a query says about a node. -/
structure ValidatorRecord (Key : Type) where
  node : NodeId
  /-- The key that the node signs with, if it has one. -/
  key : Option Key
  weight : UInt64

/-- A key with the weight and the nodes behind it. -/
structure Validator (Key : Type) where
  key : Key
  weight : UInt64
  nodes : List NodeId

/-- The sum of weights as a natural number. -/
def totalWeight : List UInt64 → Nat
  | [] => 0
  | w :: ws => w.toNat + totalWeight ws

@[simp]
theorem totalWeight_append (l m : List UInt64) :
  totalWeight (l ++ m) = totalWeight l + totalWeight m
  := by
  induction l with
  | nil => simp [totalWeight]
  | cons w l ih =>
    rw [List.cons_append, totalWeight, totalWeight, ih]
    omega

theorem totalWeight_perm {l m : List UInt64} (h : l.Perm m) :
  totalWeight l = totalWeight m
  := by
  induction h with
  | nil => rfl
  | cons w _ ih => rw [totalWeight, totalWeight, ih]
  | swap v w l =>
    simp only [totalWeight]
    omega
  | trans _ _ ih₁ ih₂ => exact ih₁.trans ih₂

/-- A sum of weights with one more, or the greatest number of 64 bits if that is less. -/
def addWeight (sum : Nat) (weight : UInt64) : Nat := min (sum + weight.toNat) (UInt64.size - 1)

/-- A sum of weights with one more, if it fits in 64 bits. -/
def addChecked (sum : Nat) (weight : UInt64) : Except MessageError Nat :=
  if sum + weight.toNat < UInt64.size then .ok (sum + weight.toNat) else .error .weightOverflow

theorem addChecked_eq_ok_iff (sum : Nat) (weight : UInt64) (sum' : Nat) :
  addChecked sum weight = .ok sum'
    ↔ sum + weight.toNat < UInt64.size ∧ sum' = sum + weight.toNat
  := by
  rw [addChecked]
  split
  case isTrue h => rw [Except.ok.injEq, and_iff_right h, eq_comm]
  case isFalse h => exact ⟨nofun, fun hlt => absurd hlt.1 h⟩

/-- A sum that fits in 64 bits can be kept there. -/
theorem toNat_ofNat_of_addChecked {sum sum' : Nat} {weight : UInt64}
    (h : addChecked sum weight = .ok sum') :
  (UInt64.ofNat sum').toNat = sum + weight.toNat
  := by
  obtain ⟨hlt, rfl⟩ := (addChecked_eq_ok_iff ..).mp h
  exact UInt64.toNat_ofNat_of_lt' hlt

theorem addChecked_eq_error_iff (sum : Nat) (weight : UInt64) (e : MessageError) :
  addChecked sum weight = .error e
    ↔ UInt64.size ≤ sum + weight.toNat ∧ e = .weightOverflow
  := by
  rw [addChecked]
  split
  case isTrue h => exact ⟨nofun, fun hle => absurd h (Nat.not_lt_of_le hle.1)⟩
  case isFalse h => rw [Except.error.injEq, and_iff_right (Nat.le_of_not_lt h), eq_comm]

/-- The sum of weights, if it fits in 64 bits after each of them. -/
def sumWeights (weights : List UInt64) : Except MessageError Nat := weights.foldlM addChecked 0

/-- A sum fits in 64 bits after each weight if it does after the last one. -/
theorem foldlM_addChecked (weights : List UInt64) {sum : Nat} (h : sum < UInt64.size) :
  weights.foldlM addChecked sum
    = if sum + totalWeight weights < UInt64.size then .ok (sum + totalWeight weights)
      else .error .weightOverflow
  := by
  induction weights generalizing sum with
  | nil => exact (if_pos h).symm
  | cons w weights ih =>
      rw [List.foldlM_cons, totalWeight, ← Nat.add_assoc, addChecked]
      split
      case isTrue hlt => exact ih hlt
      case isFalse hle =>
        rw [if_neg]
        · rfl
        · omega

theorem sumWeights_eq (weights : List UInt64) :
  sumWeights weights
    = if totalWeight weights < UInt64.size then .ok (totalWeight weights)
      else .error .weightOverflow
  := by
  have h := foldlM_addChecked weights (Nat.two_pow_pos 64)
  rwa [Nat.zero_add] at h

/-- What weights add up to is their sum as natural numbers. -/
theorem eq_totalWeight_of_sumWeights {weights : List UInt64} {sum : Nat}
    (h : sumWeights weights = .ok sum) :
  sum = totalWeight weights
  := by
  rw [sumWeights_eq] at h
  split at h
  case isTrue => exact (Except.ok.inj h).symm
  case isFalse => cases h

/-- Validators in the order that signers refer to, and the weight of a whole snapshot. -/
structure ValidatorSet (Key : Type) where
  validators : List (Validator Key)
  total : UInt64
  covered : totalWeight (validators.map (·.weight)) ≤ total.toNat

namespace ValidatorSet

variable {Key Sig : Type}

/-- The set without validators. -/
def empty : ValidatorSet Key := ⟨[], 0, Nat.zero_le _⟩

instance : Inhabited (ValidatorSet Key) := ⟨empty⟩

/-- The set of the given validators, in this order, out of a snapshot of the given weight. -/
def ofParts (validators : List (Validator Key)) (total : UInt64) :
    Except MessageError (ValidatorSet Key) :=
  match hsum : sumWeights (validators.map (·.weight)) with
  | .error e => .error e
  | .ok signing =>
    if hle : signing ≤ total.toNat then
      .ok ⟨validators, total, by rwa [← eq_totalWeight_of_sumWeights hsum]⟩
    else .error (.weightExceedsTotal signing total.toNat)

/-- The parts make up a set exactly if they are those of one. -/
theorem ofParts_eq_ok_iff (validators : List (Validator Key)) (total : UInt64)
    (set : ValidatorSet Key) :
  ofParts validators total = .ok set ↔ set.validators = validators ∧ set.total = total
  := by
  constructor
  · intro h
    rw [ofParts] at h
    split at h
    · cases h
    · split at h
      · cases h
        exact ⟨rfl, rfl⟩
      · cases h
  · rintro ⟨rfl, rfl⟩
    have hle := set.covered
    have hlt := set.total.toNat_lt_size
    have hsum := sumWeights_eq (set.validators.map (·.weight))
    rw [if_pos (Nat.lt_of_le_of_lt hle hlt)] at hsum
    rw [ofParts]
    split
    case h_1 h => rw [hsum] at h; cases h
    case h_2 h =>
      rw [hsum] at h
      cases h
      rw [dif_pos hle]

end ValidatorSet

/-! ### The canonical set -/

/-- What has been counted of the records of a query. -/
structure Tally (Key : Type) where
  /-- The weight of all records. -/
  total : UInt64
  /-- The validators by the byte forms of their keys, with nodes in the order of the records. -/
  byKey : OrderedTable 48 (Validator Key)
  covered : totalWeight (byKey.values.map (·.weight)) ≤ total.toNat

namespace Tally

variable {Key Sig : Type}

/-- No record has been counted. -/
def empty : Tally Key := ⟨0, .empty, Nat.zero_le _⟩

variable [AggregateScheme Key Sig]

/-- The validator of a key, without weight and nodes if no record of the key was counted. -/
def validator (t : Tally Key) (key : Key) : Validator Key :=
  (t.byKey.get? (AggregateScheme.encodeKey key)).getD ⟨key, 0, []⟩

/-- What a key's validator gains in weight is gained by all. -/
theorem totalWeight_put (t : Tally Key) (key : Key) {v : Validator Key} {weight : Nat}
    (h : v.weight.toNat = (t.validator key).weight.toNat + weight) :
  totalWeight ((t.byKey.put (AggregateScheme.encodeKey key) v).values.map (·.weight))
    = totalWeight (t.byKey.values.map (·.weight)) + weight
  := by
  have hperm : ∀ w, totalWeight ((t.byKey.put (AggregateScheme.encodeKey key) w).values.map
      (·.weight)) = w.weight.toNat + totalWeight (((t.byKey.entries.filter
        (·.1 ≠ AggregateScheme.encodeKey key)).map (·.2)).map (·.weight)) :=
    fun w => totalWeight_perm (((t.byKey.entries_put_perm _ w).map (·.2)).map (·.weight))
  rw [validator] at h
  cases hget : t.byKey.get? (AggregateScheme.encodeKey key) with
  | none =>
      rw [hget, Option.getD_none] at h
      rw [hperm v, Table.filter_entries_of_get?_eq_none hget, h, OrderedTable.values]
      show 0 + weight + _ = _
      omega
  | some u =>
      have hu := hperm u
      rw [OrderedTable.values, OrderedTable.put_of_get?_eq_some hget] at hu
      rw [hget, Option.getD_some] at h
      rw [hperm v, OrderedTable.values, hu]
      omega

/-- The tally with one more record, unless a sum of weights leaves 64 bits. -/
def count (t : Tally Key) (r : ValidatorRecord Key) : Except MessageError (Tally Key) :=
  match htotal : addChecked t.total.toNat r.weight with
  | .error e => .error e
  | .ok total =>
    match r.key with
    | none =>
      .ok { t with
        total := .ofNat total
        covered := by
          rw [toNat_ofNat_of_addChecked htotal]
          exact Nat.le_add_right_of_le t.covered }
    | some key =>
      let v := t.validator key
      match hweight : addChecked v.weight.toNat r.weight with
      | .error e => .error e
      | .ok weight =>
        .ok {
          total := .ofNat total
          byKey := t.byKey.put (AggregateScheme.encodeKey key)
            { v with weight := .ofNat weight, nodes := v.nodes ++ [r.node] }
          covered := by
            rw [toNat_ofNat_of_addChecked htotal, t.totalWeight_put key
              (toNat_ofNat_of_addChecked hweight)]
            exact Nat.add_le_add_right t.covered _ }

/-- The set of the validators that were counted, each with its nodes in order. -/
def toSet (t : Tally Key) : ValidatorSet Key where
  validators := t.byKey.values.map fun v => { v with nodes := v.nodes.mergeSort NodeId.precedes }
  total := t.total
  covered := by
    rw [List.map_map]
    exact t.covered

end Tally

namespace ValidatorSet

variable {Key Sig : Type} [AggregateScheme Key Sig]

/-- The canonical set of the records of a query. -/
def ofRecords (records : List (ValidatorRecord Key)) : Except MessageError (ValidatorSet Key) :=
  Tally.toSet <$> records.foldlM Tally.count .empty

/-! ### Signers of a set -/

omit [AggregateScheme Key Sig] in
/-- The validators that signers refer to. -/
def select (set : ValidatorSet Key) (signers : Signers) :
    Except MessageError (List (Validator Key)) :=
  if set.validators.length < signers.bound then
    .error (.unknownValidator (signers.bound - 1) set.validators.length)
  else .ok (signers.toList.filterMap (set.validators[·]?))

/-- The sum of the keys of some validators. -/
def aggregateKey (vs : List (Validator Key)) : Except MessageError Key :=
  if vs.isEmpty then .error .noSigners
  else (AggregateScheme.aggregateKeys (vs.map (·.key))).mapError .crypto

end ValidatorSet

end Interchain
