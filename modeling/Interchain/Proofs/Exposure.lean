import Interchain.Proofs.Abi
import Interchain.Proofs.Predicates

/-!
# What reading exposes

A call that reads the verified message with an index succeeds in two cases: the access list
of the enclosing transaction has no predicate for the messenger at that index, which the
result says, or the predicate there proves a message whose payload is of the kind asked for,
and the result is read from that payload.  `Chain.Exposes` names the two cases, and
`Messenger.execute_read_iff_exposes` says that there is no other.
-/

namespace Interchain

variable {Key Sig : Type} [AggregateScheme Key Sig]

/-! ### Payloads and prices -/

namespace Payload

/-- A call is parsed exactly from its encoding as a payload. -/
theorem parseCall_eq_ok_iff (b : Bytes) (c : Call) :
  parseCall b = .ok c ↔ parse b = .ok (.call c)
  := by
  rw [parseCall]
  cases parse b with
  | error e => simp
  | ok p =>
      cases p with
      | blockHash block => simp
      | call c' => simp

/-- A block is parsed exactly from its encoding as a payload. -/
theorem parseBlockHash_eq_ok_iff (b : Bytes) (block : Id) :
  parseBlockHash b = .ok block ↔ parse b = .ok (.blockHash block)
  := by
  rw [parseBlockHash]
  cases parse b with
  | error e => simp
  | ok p =>
      cases p with
      | blockHash block => simp
      | call c => simp

end Payload

namespace Gas

theorem charge_eq_ok_iff (required limit : Nat) (u : Unit) :
  charge required limit = .ok u ↔ required ≤ limit
  := by
  rw [charge]
  by_cases h : limit < required
  · simp [h]
  · simp [h, Nat.le_of_not_lt h]

/-- The price of reading a message that may be encoded fits in 64 bits. -/
theorem read_eq_ok {size : Nat} (h : size ≤ Wire.maxSize) :
  read size = .ok (readBase + 100 * size)
  := by
  rw [Wire.maxSize] at h
  rw [read, checked, if_pos]
  rw [readBase, UInt64.size]
  omega

end Gas

/-! ### Reading -/

/-- What reading a place makes of the results of predicates, where `IsReadOf` says what is
read from a message and `encode` how this is told. -/
inductive Messenger.Reads {α : Type} [Inhabited α] (results : PredicateResults)
    (IsReadOf : SignedMessage → α → Prop) (encode : α → Bool → Bytes) (i limit : Nat) :
    CallResult → Prop where
  /-- There is no predicate at the place. -/
  | absent (h : results[i]? = none) (hgas : Gas.readBase ≤ limit) :
    Reads results IsReadOf encode i limit
      { gasUsed := Gas.readBase, output := encode default false }
  /-- The predicate at the place proved a message. -/
  | present {m : SignedMessage} {w : α} (h : results[i]? = some (.ok m)) (hw : IsReadOf m w)
      (hgas : Gas.readBase + 100 * m.bytes.length ≤ limit) :
    Reads results IsReadOf encode i limit
      { gasUsed := Gas.readBase + 100 * m.bytes.length, output := encode w true }

namespace SignedMessage

/-- The message carries a call, read as one of its chain. -/
def IsCall (m : SignedMessage) (w : Abi.VerifiedCall) : Prop :=
  ∃ call, Payload.parse m.message.payload = .ok (.call call) ∧
    w = ⟨m.message.chain, call.source, call.payload⟩

/-- The message attests a block, read as one of its chain. -/
def IsBlock (m : SignedMessage) (w : Abi.VerifiedBlock) : Prop :=
  ∃ block, Payload.parse m.message.payload = .ok (.blockHash block) ∧ w = ⟨m.message.chain, block⟩

end SignedMessage

namespace Messenger

/-- A verified message is found where a predicate proved one and its price is within the
limit; where there is no predicate, this is told for the least price. -/
theorem verified_eq_ok_iff (ctx : CallContext) (i : UInt32) (limit : Nat)
    (found : Option SignedMessage) (gas : Nat) :
  verified ctx i limit = .ok (found, gas)
    ↔ (ctx.predicates[i.toNat]? = none ∧ found = none ∧ gas = Gas.readBase ∧ gas ≤ limit) ∨
      ∃ m, ctx.predicates[i.toNat]? = some (.ok m) ∧ found = some m ∧
        gas = Gas.readBase + 100 * m.bytes.length ∧ gas ≤ limit
  := by
  simp only [verified, bind_eq_ok_iff, Gas.charge_eq_ok_iff]
  cases hresult : ctx.predicates[i.toNat]? with
  | none =>
      constructor
      · rintro ⟨-, hgas, h⟩
        cases h
        exact .inl ⟨rfl, rfl, rfl, hgas⟩
      · rintro (⟨-, rfl, rfl, hgas⟩ | ⟨m, hm, -⟩)
        · exact ⟨(), hgas, rfl⟩
        · cases hm
  | some result =>
      cases result with
      | error e =>
          constructor
          · rintro ⟨-, -, h⟩
            cases h
          · rintro (⟨h, -⟩ | ⟨m, hm, -⟩)
            · cases h
            · cases hm
      | ok m =>
          simp only [bind_eq_ok_iff, Gas.read_eq_ok m.length_bytes_le, Gas.charge_eq_ok_iff]
          constructor
          · rintro ⟨-, -, gas', hgas', -, hle, h⟩
            cases hgas'
            cases h
            exact .inr ⟨m, rfl, rfl, rfl, hle⟩
          · rintro (⟨h, -⟩ | ⟨m', hm, rfl, rfl, hle⟩)
            · cases h
            · cases hm
              exact ⟨(), by omega, _, rfl, (), hle, rfl⟩

/-- Reading a place, where `parse` reads the payload of a message, `value` says what is read
and `encode` how this is told. -/
def readWith {α β : Type} [Inhabited α] (parse : Bytes → Except MessageError β)
    (value : SignedMessage → β → α) (encode : α → Bool → Bytes) (ctx : CallContext)
    (i : UInt32) (limit : Nat) : Except ChainError CallResult := do
  let (found, gasUsed) ← verified ctx i limit
  match found with
  | none => return { gasUsed, output := encode default false }
  | some m =>
    let p ← ChainError.ofMessage (parse m.message.payload)
    return { gasUsed, output := encode (value m p) true }

/-- What reading a place comes to. -/
theorem readWith_eq_ok_iff {α β : Type} [Inhabited α] (parse : Bytes → Except MessageError β)
    (value : SignedMessage → β → α) (encode : α → Bool → Bytes) (ctx : CallContext)
    (i : UInt32) (limit : Nat) (r : CallResult) :
  readWith parse value encode ctx i limit = .ok r
    ↔ Reads ctx.predicates (fun m w => ∃ p, parse m.message.payload = .ok p ∧ w = value m p)
        encode i.toNat limit r
  := by
  rw [readWith, bind_eq_ok_iff]
  constructor
  · rintro ⟨⟨found, gas⟩, hverified, h⟩
    obtain ⟨hnone, rfl, rfl, hgas⟩ | ⟨m, hm, rfl, rfl, hgas⟩ :=
      (verified_eq_ok_iff ..).mp hverified
    · cases h
      exact .absent hnone hgas
    · obtain ⟨p, hp, hr⟩ := bind_eq_ok_iff.mp h
      cases hr
      exact .present hm ⟨p, mapError_eq_ok_iff.mp hp, rfl⟩ hgas
  · intro h
    cases h with
    | absent hnone hgas =>
        use (none, Gas.readBase), (verified_eq_ok_iff ..).mpr (.inl ⟨hnone, rfl, rfl, hgas⟩)
        rfl
    | @present m w hm hw hgas =>
        obtain ⟨p, hp, rfl⟩ := hw
        use (some m, Gas.readBase + 100 * m.bytes.length),
          (verified_eq_ok_iff ..).mpr (.inr ⟨m, hm, rfl, rfl, hgas⟩)
        apply bind_eq_ok_iff.mpr
        use p, mapError_eq_ok_iff.mpr hp
        rfl

/-- What reading a call comes to. -/
theorem readCall_eq_ok_iff (ctx : CallContext) (i : UInt32) (limit : Nat) (r : CallResult) :
  readCall ctx i limit = .ok r
    ↔ Reads ctx.predicates SignedMessage.IsCall Abi.encodeCall i.toNat limit r
  := by
  have h := readWith_eq_ok_iff Payload.parseCall
    (fun m call => ⟨m.message.chain, call.source, call.payload⟩) Abi.encodeCall ctx i limit r
  simp only [Payload.parseCall_eq_ok_iff] at h
  apply h

/-- What reading a block comes to. -/
theorem readBlock_eq_ok_iff (ctx : CallContext) (i : UInt32) (limit : Nat) (r : CallResult) :
  readBlock ctx i limit = .ok r
    ↔ Reads ctx.predicates SignedMessage.IsBlock Abi.encodeBlock i.toNat limit r
  := by
  have h := readWith_eq_ok_iff Payload.parseBlockHash
    (fun m block => ⟨m.message.chain, block⟩) Abi.encodeBlock ctx i limit r
  simp only [Payload.parseBlockHash_eq_ok_iff] at h
  apply h

end Messenger

/-! ### Exposure -/

/-- What reading a place within a limit of gas exposes to the calls of a transaction, where
`IsReadOf` says what is read from a message. -/
inductive Chain.Exposes {α : Type} [Inhabited α] (c : Chain) (d : Directory Key)
    (t : Transaction) (IsReadOf : SignedMessage → α → Prop) (i limit : Nat) :
    α → Bool → Prop where
  /-- The access list has fewer entries for the messenger. -/
  | absent (hi : (t.accessList.filter (·.address = messengerAddress)).length ≤ i)
      (hgas : Gas.readBase ≤ limit) :
    Exposes c d t IsReadOf i limit default false
  /-- The entry at the place proves a message. -/
  | proved {m : SignedMessage} {w : α} (hm : c.Proves d t i m) (hw : IsReadOf m w)
      (hgas : Gas.readBase + 100 * m.bytes.length ≤ limit) :
    Exposes c d t IsReadOf i limit w true

/-- What is read from the results of the predicates of a transaction is what the transaction
exposes, as long as it decodes from how it is told. -/
theorem Messenger.Reads.decodes_iff {α : Type} [Inhabited α] {c : Chain} {d : Directory Key}
    {t : Transaction} {IsReadOf : SignedMessage → α → Prop} {encode : α → Bool → Bytes}
    {decode : Bytes → Except ChainError (α × Bool)}
    (hdefault : decode (encode default false) = .ok (default, false))
    (hread : ∀ m w, IsReadOf m w → decode (encode w true) = .ok (w, true)) (i limit : Nat) :
  let results := c.checkPredicates d (t.predicatesFor messengerAddress)
  (∀ r, Reads results IsReadOf encode i limit r →
    ∃ w valid, decode r.output = .ok (w, valid)) ∧
  ∀ w valid,
    (∃ r, Reads results IsReadOf encode i limit r ∧ decode r.output = .ok (w, valid))
      ↔ c.Exposes d t IsReadOf i limit w valid
  := by
  intro results
  constructor
  · intro r h
    cases h with
    | absent => exact ⟨_, _, hdefault⟩
    | present h hw => exact ⟨_, _, hread _ _ hw⟩
  · intro w valid
    constructor
    · rintro ⟨r, h, hdecode⟩
      cases h with
      | absent h hgas =>
          rw [hdefault] at hdecode
          cases hdecode
          exact .absent ((c.getElem?_checkPredicates_eq_none_iff d t i).mp h) hgas
      | present h hw hgas =>
          rw [hread _ _ hw] at hdecode
          cases hdecode
          exact .proved ((c.getElem?_checkPredicates_iff_proves d t i _).mp h) hw hgas
    · intro h
      cases h with
      | absent hi hgas =>
          exact ⟨_, .absent ((c.getElem?_checkPredicates_eq_none_iff d t i).mpr hi) hgas, hdefault⟩
      | proved hm hw hgas =>
          exact ⟨_, .present ((c.getElem?_checkPredicates_iff_proves d t i _).mpr hm) hw hgas,
            hread _ _ hw⟩

/-- Reading is executed by its function. -/
theorem Messenger.execute_encode_append (m : Messenger) (ctx : CallContext) (i : UInt32)
    (rest : Bytes) (limit : Nat) :
  m.execute ctx ((Abi.Function.readCall i).encode ++ rest) limit = readCall ctx i limit ∧
  m.execute ctx ((Abi.Function.readBlock i).encode ++ rest) limit = readBlock ctx i limit
  := by
  constructor
  · rw [execute, Abi.Function.decode_encode (by simp)]
    rfl
  · rw [execute, Abi.Function.decode_encode (by simp)]
    rfl

/-- A call that reads the verified call or block with an index, with the predicates of a
transaction as they were checked, succeeds with what the transaction exposes at that index
and with nothing else: a call or block that its entry proves, or that there is no such
entry. -/
theorem Messenger.execute_read_iff_exposes (c : Chain) (messenger : Messenger)
    (d : Directory Key) (t : Transaction) (caller : Address) (readOnly : Bool) (i : UInt32)
    (rest : Bytes) (limit : Nat) :
  let ctx : CallContext :=
    ⟨caller, readOnly, c.checkPredicates d (t.predicatesFor messengerAddress)⟩
  let call := messenger.execute ctx ((Abi.Function.readCall i).encode ++ rest) limit
  let block := messenger.execute ctx ((Abi.Function.readBlock i).encode ++ rest) limit
  ((∀ r, call = .ok r → ∃ w valid, Abi.decodeCall r.output = .ok (w, valid)) ∧
    ∀ w valid, (∃ r, call = .ok r ∧ Abi.decodeCall r.output = .ok (w, valid))
      ↔ c.Exposes d t SignedMessage.IsCall i.toNat limit w valid) ∧
  ((∀ r, block = .ok r → ∃ w valid, Abi.decodeBlock r.output = .ok (w, valid)) ∧
    ∀ w valid, (∃ r, block = .ok r ∧ Abi.decodeBlock r.output = .ok (w, valid))
      ↔ c.Exposes d t SignedMessage.IsBlock i.toNat limit w valid)
  := by
  intro ctx call block
  obtain ⟨hcall, hblock⟩ := messenger.execute_encode_append ctx i rest limit
  simp only [call, block, hcall, hblock, readCall_eq_ok_iff, readBlock_eq_ok_iff]
  constructor
  · apply Reads.decodes_iff
    · apply Abi.decodeCall_encodeCall
      norm_num [default, UInt32.size]
    · rintro m w ⟨call, -, rfl⟩
      apply Abi.decodeCall_encodeCall
      apply Nat.lt_of_le_of_lt call.length_payload_le
      norm_num [Wire.maxSize, UInt32.size]
  · apply Reads.decodes_iff
    · apply Abi.decodeBlock_encodeBlock
    · intro m w _
      apply Abi.decodeBlock_encodeBlock

end Interchain
