import Interchain.Proofs.Canonicity
import Interchain.Proofs.Exposure

/-!
# The two kinds of payloads

Payloads are canonical, and so are those of each kind for the parser of that kind alone.  No byte
string is taken for both kinds: `Payload.Sorted` says what the two parsers answer to a byte string,
given what the parser of payloads does, and `Payload.kinds_canonical` that they always do.

The one field of a payload that might have a length of its own without having one is the account of
a call.  An encoding in which it is not 20 bytes long is refused, whatever follows it: this is
`Payload.parse_misaddressed`.
-/

namespace Interchain

open Wire

namespace Call

/-- The account and the payload of a call. -/
def fields (c : Call) : Address × Bytes := (c.source, c.payload)

/-- A call can be made exactly if its encoding is not too large. -/
theorem exists_make_iff (source : Address) (payload : Bytes) :
  (∃ c, make source payload = .ok c) ↔ payload.length + 34 ≤ maxSize
  := by
  constructor
  · rintro ⟨c, h⟩
    obtain ⟨-, rfl⟩ := (make_eq_ok_iff ..).mp h
    rw [← c.length_bytes]
    apply c.length_bytes_le
  · apply exists_make

/-- An account has 20 bytes. -/
theorem ofBytes_of_length_ne {source : Bytes} (payload : Bytes) (h : source.length ≠ 20) :
  ofBytes source payload = .error (.wrongFieldLength .sourceAddress 20 source.length)
  := by
  rw [ofBytes, Address.ofBytes, Identifier.ofBytes, FixedBytes.ofBytes?, dif_neg h]
  rfl

end Call

namespace Payload

/-! ### Contents -/

/-- The block of an attestation, or the account and the payload of a call. -/
def fields : Payload → Id ⊕ Address × Bytes
  | blockHash block => .inl block
  | call c => .inr c.fields

/-- The payload with these contents, unless it is too large. -/
def ofFields : Id ⊕ Address × Bytes → Except MessageError Payload
  | .inl block => .ok (blockHash block)
  | .inr (source, payload) => do return call (← Call.make source payload)

/-- What is made of contents has these contents. -/
theorem ofFields_eq_ok_iff (x : Id ⊕ Address × Bytes) (p : Payload) :
  ofFields x = .ok p ↔ p.fields = x
  := by
  cases x with
  | inl block =>
      rw [ofFields, Except.ok.injEq]
      cases p with
      | blockHash block' => simp [fields, eq_comm]
      | call c => simp [fields]
  | inr x =>
      obtain ⟨source, payload⟩ := x
      simp only [ofFields, bind_eq_ok_iff, Call.make_eq_ok_iff, pure, Except.pure, Except.ok.injEq]
      cases p with
      | blockHash block => simp [fields]
      | call c => simp [fields, Call.fields]

/-! ### Canonical encodings -/

/-- A payload is read from its encoding only. -/
theorem parse_eq_ok_iff (b : Bytes) (p : Payload) :
  parse b = .ok p ↔ p.bytes = b
  := by
  constructor
  · apply bytes_eq_of_parse
  · rintro rfl
    apply p.parse_bytes

/-- The format of payloads is canonical. -/
theorem isCanonical :
  IsCanonical ofFields fields bytes parse
  := isCanonical_of_parse_iff ofFields_eq_ok_iff parse_eq_ok_iff length_bytes_le

/-- The format of attestations is canonical. -/
theorem isCanonical_blockHash :
  IsCanonical .ok id (fun block => (blockHash block).bytes) parseBlockHash
  := by
  apply isCanonical_of_parse_iff
  · intro block block'
    rw [Except.ok.injEq, eq_comm, id]
  · intro b block
    rw [parseBlockHash_eq_ok_iff, parse_eq_ok_iff]
  · intro block
    apply length_bytes_le

/-- The format of calls is canonical. -/
theorem isCanonical_call :
  IsCanonical (fun x => Call.make x.1 x.2) Call.fields Call.bytes parseCall
  := by
  apply isCanonical_of_parse_iff _ _ Call.length_bytes_le
  · rintro ⟨source, payload⟩ c
    rw [Call.make_eq_ok_iff, Call.fields, Prod.mk_inj]
  · intro b c
    rw [parseCall_eq_ok_iff, parse_eq_ok_iff]
    rfl

/-! ### Telling the kinds apart -/

/-- What the parsers of the two kinds answer where the parser of payloads answers something: the
parser of the kind at hand gives the same, the other one names both kinds, and neither says anything
else of a byte string that is no payload. -/
inductive Sorted :
    Except MessageError Payload → Except MessageError Id → Except MessageError Call → Prop where
  | blockHash (block : Id) :
    Sorted (.ok (.blockHash block)) (.ok block) (.error (.payloadMismatch 1 0))
  | call (c : Call) : Sorted (.ok (.call c)) (.error (.payloadMismatch 0 1)) (.ok c)
  | refused (e : MessageError) : Sorted (.error e) (.error e) (.error e)

theorem Sorted.eq_of_refused {e : MessageError} {block : Except MessageError Id}
    {c : Except MessageError Call} (h : Sorted (.error e) block c) :
  block = .error e ∧ c = .error e
  := by
  cases h with
  | refused => exact ⟨rfl, rfl⟩

theorem sorted (b : Bytes) :
  Sorted (parse b) (parseBlockHash b) (parseCall b)
  := by
  rw [parseBlockHash, parseCall]
  cases parse b with
  | error e => apply Sorted.refused
  | ok p =>
      cases p with
      | blockHash block => apply Sorted.blockHash
      | call c => apply Sorted.call

/-! ### Accounts of another length -/

/-- The encoding of a call, but for the length of its account. -/
def callEncoding (source payload : Bytes) : Bytes :=
  encoding [header, .u32 1, .counted source, .counted payload]

/-- The encoding of a call is the one of its account. -/
theorem bytes_call (c : Call) :
  (call c).bytes = callEncoding c.source.bytes c.payload
  := ((write_eq_ok_iff _ _ _).mp c.written).2.2

/-- What is refused because of its size, or else because its account has another length. -/
def refusal (b source : Bytes) : MessageError :=
  if b.length ≤ maxSize then .wrongFieldLength .sourceAddress 20 source.length
  else .tooLarge b.length maxSize

/-- An encoding whose account does not have 20 bytes is refused, whatever follows it. -/
theorem parse_misaddressed {source : Bytes} (payload rest : Bytes) (h : source.length ≠ 20) :
  let b := callEncoding source payload ++ rest
  parse b = .error (refusal b source)
  := by
  intro b
  rw [parse, Wire.read, refusal]
  by_cases hsize : b.length ≤ maxSize
  · rw [if_neg (Nat.not_lt_of_le hsize), if_pos hsize]
    have hb : b = header.bytes ++ (Bytes.ofUInt32 1 ++
        ((Field.counted source).bytes ++ ((Field.counted payload).bytes ++ rest))) := by
      simp only [b, callEncoding, encoding, List.flatMap_cons, List.flatMap_nil, List.append_nil,
        List.append_assoc]
      rfl
    have hlength := congrArg List.length hb
    simp only [List.length_append, Field.bytes] at hlength
    have hsource : source.length ≤ maxSize := by omega
    have hpayload : payload.length ≤ maxSize := by omega
    dsimp only
    -- both fields are read before the account is looked at, and what follows is never read
    rw [hb, Reader.bind_apply_of_ok (Reader.delimits_header.consumes _)]
    apply Reader.bind_apply_of_error
    rw [reader, Reader.bind_apply_of_ok (Reader.consumes_u32 1 _), if_neg (by decide),
      if_pos rfl, Reader.bind_apply_of_ok ((Reader.delimits_counted hsource).consumes _),
      Reader.bind_apply_of_ok ((Reader.delimits_counted hpayload).consumes _)]
    apply Reader.bind_apply_of_error
    rw [Reader.lift, Call.ofBytes_of_length_ne payload h]
  · rw [if_pos (Nat.lt_of_not_le hsize), if_neg hsize]

/-- Payloads are canonical, and so are the payloads of each kind for the parser of this kind.  Calls
can be made of every account and every payload that fits.  Each byte string is taken by one of the
two parsers if it is a payload, and by none if it is not.  Neither takes the encoding of a call
whose account does not have 20 bytes, which cannot be made of these either. -/
theorem kinds_canonical :
  IsCanonical ofFields fields bytes parse ∧
  IsCanonical .ok id (fun block => (blockHash block).bytes) parseBlockHash ∧
  IsCanonical (fun x => Call.make x.1 x.2) Call.fields Call.bytes parseCall ∧
  (∀ source payload,
    (∃ c, Call.make source payload = .ok c) ↔ payload.length + 34 ≤ maxSize) ∧
  (∀ b, Sorted (parse b) (parseBlockHash b) (parseCall b)) ∧
  (∀ c, (call c).bytes = callEncoding c.source.bytes c.payload) ∧
  ∀ source payload rest : Bytes, source.length ≠ 20 →
    let b := callEncoding source payload ++ rest
    parse b = .error (refusal b source) ∧
    parseBlockHash b = .error (refusal b source) ∧
    parseCall b = .error (refusal b source) ∧
    Call.ofBytes source payload = .error (.wrongFieldLength .sourceAddress 20 source.length)
  := by
  refine ⟨isCanonical, isCanonical_blockHash, isCanonical_call, Call.exists_make_iff, sorted,
    bytes_call, ?_⟩
  intro source payload rest h b
  have hparse : parse b = .error (refusal b source) := parse_misaddressed payload rest h
  have hsorted := sorted b
  rw [hparse] at hsorted
  obtain ⟨hblock, hcall⟩ := hsorted.eq_of_refused
  exact ⟨hparse, hblock, hcall, Call.ofBytes_of_length_ne payload h⟩

/-- A call without an account is refused by all parsers, and cannot be made. -/
theorem kinds_canonical_unaddressed :
  ([] : Bytes).length ≠ 20 ∧
  let e := MessageError.wrongFieldLength .sourceAddress 20 0
  let b := callEncoding [] []
  parse b = .error e ∧ parseBlockHash b = .error e ∧ parseCall b = .error e ∧
  Call.ofBytes [] [] = .error e
  := by
  have hlength : ([] : Bytes).length ≠ 20 := by decide
  obtain ⟨-, -, -, -, -, -, hrefused⟩ := kinds_canonical
  use hlength
  apply hrefused [] [] [] hlength

end Payload

end Interchain
