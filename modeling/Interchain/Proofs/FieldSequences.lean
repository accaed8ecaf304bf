import Interchain.Proofs.Wire

/-!
# Sequences of fields

Fields are written one after another, each whether or not there was room for those before it, and
what has been written are the fields that found room (`Writing.fields_apply`).  Reading them back
by their shapes gives these fields again (`Reader.consumes_fields`).  `fields_inverse` puts the two
together and adds what a field that finds no room and a reader that finds too little leave behind.
-/

namespace Interchain.Wire

/-! ### Writing -/

/-- A byte string is the form of a field: its numbers stand with the most significant byte first
in as many bytes as they have, and its bytes as they are. -/
inductive Field.IsWrittenAs : Field → Bytes → Prop
  | u16 {value : UInt16} {b : Bytes} (hlength : b.length = 2) (hvalue : b.toNat = value.toNat) :
      IsWrittenAs (.u16 value) b
  | u32 {value : UInt32} {b : Bytes} (hlength : b.length = 4) (hvalue : b.toNat = value.toNat) :
      IsWrittenAs (.u32 value) b
  | fixed (value : Bytes) : IsWrittenAs (.fixed value) value
  | counted {value size : Bytes} (hlength : size.length = 4) (hvalue : size.toNat = value.length) :
      IsWrittenAs (.counted value) (size ++ value)

/-- The bytes of a field are its form, if its length can be written. -/
theorem Field.isWrittenAs_bytes {f : Field} (h : f.isCountable = true) :
  f.IsWrittenAs f.bytes
  := by
  cases f with
  | u16 value =>
      apply IsWrittenAs.u16 (Bytes.length_ofNat 2 value.toNat)
      exact (Bytes.toNat_ofNat 2 value.toNat).trans (Nat.mod_eq_of_lt value.toNat_lt)
  | u32 value =>
      apply IsWrittenAs.u32 (Bytes.length_ofNat 4 value.toNat)
      exact (Bytes.toNat_ofNat 4 value.toNat).trans (Nat.mod_eq_of_lt value.toNat_lt)
  | fixed value => exact .fixed value
  | counted value =>
      have hlt : value.length < UInt32.size := of_decide_eq_true h
      apply IsWrittenAs.counted (Bytes.length_ofNat 4 value.length)
      exact (Bytes.toNat_ofNat 4 value.length).trans (Nat.mod_eq_of_lt hlt)

namespace Writing

/-- Writing goes on if there is room for as many bytes as are to be written, and otherwise nothing
changes. -/
theorem reserve_bind_apply (additional : Nat) (f : Unit → Writing Unit) (w : Writer) :
  (reserve additional >>= f) w
    = if w.bytes.length + additional ≤ w.max then f () w
      else (.error (.tooLarge (w.bytes.length + additional) w.max), w)
  := by
  by_cases hroom : w.bytes.length + additional ≤ w.max
  · have hreserve : reserve additional w = (.ok (), w) := by
      show (if w.max < w.bytes.length + additional then (throw _ : Writing Unit) else pure ()) w = _
      rw [if_neg (Nat.not_lt_of_le hroom)]
      rfl
    rw [if_pos hroom]
    show ExceptT.bindCont f (reserve additional w).1 (reserve additional w).2 = f () w
    rw [hreserve]
    rfl
  · have hreserve : reserve additional w
        = (.error (.tooLarge (w.bytes.length + additional) w.max), w) := by
      show (if w.max < w.bytes.length + additional then (throw _ : Writing Unit) else pure ()) w = _
      rw [if_pos (Nat.lt_of_not_le hroom)]
      rfl
    rw [if_neg hroom]
    show ExceptT.bindCont f (reserve additional w).1 (reserve additional w).2 = _
    rw [hreserve]
    rfl

/-- A field is appended if there is room for it, and otherwise nothing changes. -/
theorem field_apply {f : Field} (h : f.isCountable = true) (w : Writer) :
  field f w
    = if w.bytes.length + f.bytes.length ≤ w.max then
        (.ok (), { w with bytes := w.bytes ++ f.bytes })
      else (.error (.tooLarge (w.bytes.length + f.bytes.length) w.max), w)
  := by
  cases f with
  | u16 value => exact reserve_bind_apply 2 (fun _ => append (Bytes.ofUInt16 value)) w
  | u32 value => exact reserve_bind_apply 4 (fun _ => append (Bytes.ofUInt32 value)) w
  | fixed value => exact reserve_bind_apply value.length (fun _ => append value) w
  | counted value =>
      have hlt : ¬ UInt32.size ≤ value.length := Nat.not_le_of_lt (of_decide_eq_true h)
      rw [field, if_neg hlt]
      have hlength : (Field.counted value).bytes.length = 4 + value.length := by
        rw [Field.bytes, List.length_append, Bytes.length_ofNat]
      rw [hlength]
      apply (reserve_bind_apply (4 + value.length) _ w).trans
      congr 1
      show (_, { w with bytes := w.bytes ++ Bytes.ofNat 4 value.length ++ value }) = _
      rw [List.append_assoc, Field.bytes]

/-- A byte string whose length cannot be written is not, and nothing changes. -/
theorem field_apply_of_not_isCountable {f : Field} (h : ¬ f.isCountable = true) (w : Writer) :
  field f w = (.error (.tooLarge (f.bytes.length - 4) w.max), w)
  := by
  cases f with
  | counted value =>
      have hle : UInt32.size ≤ value.length := by simpa [Field.isCountable] using h
      have hlength : (Field.counted value).bytes.length - 4 = value.length := by
        rw [Field.bytes, List.length_append, Bytes.length_ofNat, Nat.add_sub_cancel_left]
      rw [field, if_pos hle, hlength]
      rfl
  | u16 value => exact absurd rfl h
  | u32 value => exact absurd rfl h
  | fixed value => exact absurd rfl h

/-- A field is written as a writer puts it. -/
theorem field_eq_put (f : Field) (w : Writer) :
  field f w
    = match w.put f with
      | .ok w' => (.ok (), w')
      | .error e => (.error e, w)
  := by
  rw [Writer.put]
  by_cases h : f.isCountable = true
  · rw [field_apply h, h]
    by_cases hroom : w.bytes.length + f.bytes.length ≤ w.max
    · simp [hroom, Nat.not_lt_of_le hroom]
    · simp [hroom, Nat.lt_of_not_le hroom]
  · rw [field_apply_of_not_isCountable h]
    simp [h]

/-- Writes one field after another, each whether or not those before it were written, and tells
what came of each. -/
def fields : List Field → StateM Writer (List (Except MessageError Unit))
  | [] => return []
  | f :: rest => do
    let result ← (field f).run
    return result :: (← fields rest)

/-- Fields are written one after another. -/
theorem fields_cons (f : Field) (rest : List Field) (w : Writer) :
  fields (f :: rest) w
    = ((field f w).1 :: (fields rest (field f w).2).1, (fields rest (field f w).2).2)
  := rfl

/-- Those of some fields that were written. -/
def written (fs : List Field) (results : List (Except MessageError Unit)) : List Field :=
  ((fs.zip results).filter (·.2.isOk)).map (·.1)

/-- What is written of a sequence of fields are those that find room. -/
theorem fields_apply (fs : List Field) (w : Writer) (h : w.bytes.length ≤ w.max) :
  let (results, w') := fields fs w
  results.length = fs.length ∧
  w' = { w with bytes := w.bytes ++ encoding (written fs results) } ∧
  w'.bytes.length ≤ w.max ∧
  ∀ f ∈ written fs results, f.isCountable = true
  := by
  induction fs generalizing w with
  | nil =>
      refine ⟨rfl, ?_, h, ?_⟩
      · show w = { w with bytes := w.bytes ++ [] }
        rw [List.append_nil]
      · intro f hf
        cases hf
  | cons f rest ih =>
      by_cases hwritten : f.isCountable = true ∧ w.bytes.length + f.bytes.length ≤ w.max
      · obtain ⟨hcount, hroom⟩ := hwritten
        have hfield : field f w = (.ok (), { w with bytes := w.bytes ++ f.bytes }) := by
          rw [field_apply hcount, if_pos hroom]
        obtain ⟨hlength, hw, hle, hkept⟩ := ih { w with bytes := w.bytes ++ f.bytes }
          (by rwa [List.length_append])
        rw [fields_cons, hfield]
        refine ⟨congrArg (· + 1) hlength, ?_, hle, List.forall_mem_cons.mpr ⟨hcount, hkept⟩⟩
        rw [List.append_assoc] at hw
        exact hw
      · have hfield : ∃ e, field f w = (.error e, w) := by
          by_cases hcount : f.isCountable = true
          · rw [field_apply hcount, if_neg (fun hroom => hwritten ⟨hcount, hroom⟩)]
            exact ⟨_, rfl⟩
          · exact ⟨_, field_apply_of_not_isCountable hcount w⟩
        obtain ⟨e, hfield⟩ := hfield
        obtain ⟨hlength, hw, hle, hkept⟩ := ih w h
        rw [fields_cons, hfield]
        exact ⟨congrArg (· + 1) hlength, hw, hle, hkept⟩

end Writing

/-! ### Reading -/

/-- What a reader has to know of a field. -/
inductive Shape where
  | u16
  | u32
  | fixed (n : Nat)
  | counted

/-- The shape of a field. -/
def Field.shape : Field → Shape
  | .u16 _ => .u16
  | .u32 _ => .u32
  | .fixed value => .fixed value.length
  | .counted _ => .counted

namespace Reader

/-- The next field, which has a shape. -/
def field : Shape → Reader Field
  | .u16 => return .u16 (← u16)
  | .u32 => return .u32 (← u32)
  | .fixed n => return .fixed (← fixed n).bytes
  | .counted => return .counted (← counted)

/-- The next fields, which have some shapes. -/
def fields : List Shape → Reader (List Field)
  | [] => return []
  | s :: rest => do
    let f ← field s
    return f :: (← fields rest)

end Reader

/-- Whether a field is not longer than what is read. -/
def Field.IsReadable : Field → Prop
  | .counted value => value.length ≤ maxSize
  | _ => True

namespace Reader

/-- A field is read by its shape as it was written. -/
theorem consumes_field {f : Field} (h : f.IsReadable) :
  (field f.shape).Consumes f.bytes f
  := by
  rw [← List.append_nil f.bytes]
  cases f with
  | u16 value => exact (consumes_u16 value).bind (consumes_pure _)
  | u32 value => exact (consumes_u32 value).bind (consumes_pure _)
  | fixed value => exact (consumes_fixed ⟨value, rfl⟩).bind (consumes_pure _)
  | counted value => exact (delimits_counted h).consumes.bind (consumes_pure _)

/-- Fields are read by their shapes as they were written. -/
theorem consumes_fields {fs : List Field} (h : ∀ f ∈ fs, f.IsReadable) :
  (fields (fs.map Field.shape)).Consumes (encoding fs) fs
  := by
  induction fs with
  | nil => exact consumes_pure []
  | cons f fs ih =>
      obtain ⟨hf, hfs⟩ := List.forall_mem_cons.mp h
      have hrest := (ih hfs).bind (f := fun fs => pure (f :: fs)) (consumes_pure _)
      rw [List.append_nil] at hrest
      exact (consumes_field hf).bind hrest

/-- Fields that are read by their shapes are all that there is to read. -/
theorem fields_finish_apply {fs : List Field} (h : ∀ f ∈ fs, f.IsReadable) :
  (do let fs ← fields (fs.map Field.shape); finish; return fs : Reader (List Field)) (encoding fs)
    = (.ok fs, [])
  := by
  have hfields := consumes_fields h []
  rw [List.append_nil] at hfields
  rw [bind_apply_of_ok hfields]
  rfl

/-! ### Too little to read -/

/-- The reader needs so many bytes: it fails for want of bytes exactly if there are fewer, names
both numbers, and leaves the input as it is. -/
def Needs {α : Type} (r : Reader α) (n : Nat) : Prop :=
  ∀ b needed remaining rest,
    r b = (.error (.truncated needed remaining), rest)
      ↔ b.length < n ∧ needed = n ∧ remaining = b.length ∧ rest = b

theorem needs_take (n : Nat) :
  (take n).Needs n
  := by
  intro b needed remaining rest
  rw [take_apply]
  split
  · next hshort =>
    constructor
    · intro h
      cases h
      exact ⟨hshort, rfl, rfl, rfl⟩
    · rintro ⟨-, rfl, rfl, rfl⟩
      rfl
  · next henough =>
    constructor
    · nofun
    · rintro ⟨hshort, -⟩
      exact absurd hshort henough

/-- A reader needs no more than the one that it begins with if it goes on without reading. -/
theorem Needs.bind {α β : Type} {r : Reader α} {n : Nat} (h : r.Needs n) {f : α → Reader β}
    (hf : ∀ a b needed remaining, (f a b).1 ≠ .error (.truncated needed remaining)) :
  (r >>= f).Needs n
  := by
  intro b needed remaining rest
  rw [← h b needed remaining rest]
  show ExceptT.bindCont f (r b).1 (r b).2 = _ ↔ _
  rcases r b with ⟨e | a, c⟩
  · show ((.error e, c) : Except MessageError β × Bytes) = (_, _)
      ↔ ((.error e, c) : Except MessageError α × Bytes) = (_, _)
    rw [Prod.mk_inj, Prod.mk_inj, Except.error.injEq, Except.error.injEq]
  · show f a c = _ ↔ _
    constructor
    · intro hfailed
      exact absurd (congrArg Prod.fst hfailed) (hf a c needed remaining)
    · intro hfailed
      cases hfailed

theorem needs_u16 :
  u16.Needs 2
  := (needs_take 2).bind fun _ _ _ _ => nofun

theorem needs_u32 :
  u32.Needs 4
  := (needs_take 4).bind fun _ _ _ _ => nofun

theorem needs_fixed (n : Nat) :
  (fixed n).Needs n
  := (needs_take n).bind fun _ _ _ _ => nofun

theorem needs_header :
  header.Needs 2
  := by
  apply needs_u16.bind
  intro v b needed remaining
  split
  · nofun
  · nofun

end Reader

/-- Fields that are written one after another, whether or not there is room for each, are appended
in their form as long as they stay within the limit, and a field that would not changes nothing
and is refused with the size that would have come about.  So what has been written are the fields
that found room, within the limit, and reading it by their shapes gives them back, if no byte
string is longer than what is read.  A number, a byte string of known length and a version need
their bytes, and leave the input as it is if there are fewer. -/
theorem fields_inverse (max : Nat) (fs : List Field) :
  (∀ (w : Writer) (f : Field), f.isCountable = true →
    ∃ b, f.IsWrittenAs b ∧
      Writing.field f w
        = if w.bytes.length + b.length ≤ w.max then (.ok (), { w with bytes := w.bytes ++ b })
          else (.error (.tooLarge (w.bytes.length + b.length) w.max), w)) ∧
  (let (results, w) := Writing.fields fs { max }
    let kept := Writing.written fs results
    results.length = fs.length ∧
    w.bytes = encoding kept ∧ (∀ f ∈ kept, f.IsWrittenAs f.bytes) ∧ w.bytes.length ≤ max ∧
    ((∀ f ∈ kept, f.IsReadable) →
      (do
        let read ← Reader.fields (kept.map Field.shape)
        Reader.finish
        return read : Reader (List Field)) w.bytes = (.ok kept, []))) ∧
  Reader.u16.Needs 2 ∧ Reader.u32.Needs 4 ∧ (∀ n, (Reader.fixed n).Needs n) ∧
  Reader.header.Needs 2
  := by
  refine ⟨?_, ?_, Reader.needs_u16, Reader.needs_u32, Reader.needs_fixed, Reader.needs_header⟩
  · intro w f hcount
    use f.bytes, f.isWrittenAs_bytes hcount
    apply Writing.field_apply hcount
  · obtain ⟨hlength, hw, hle, hkept⟩ := Writing.fields_apply fs { max } (Nat.zero_le max)
    have hbytes := congrArg Writer.bytes hw
    refine ⟨hlength, hbytes, ?_, hle, ?_⟩
    · intro f hf
      exact f.isWrittenAs_bytes (hkept f hf)
    · intro hreadable
      rw [hbytes]
      exact Reader.fields_finish_apply hreadable

end Interchain.Wire
