import Interchain.Bytes.Lemmas
import Interchain.Message.Wire
import Interchain.Proofs.Checks

/-!
# Fields written and read

`write_eq_ok_iff` says that a sequence of fields is written as their bytes one after
another, if these stay within the limit.  `Reader.Consumes` says that a reader takes a byte
string off the front of any input and what it makes of it, and `Reader.Delimits` that moreover
an input which breaks off before the end of this byte string ends inside a field.  `delimits_*`
say which fields the readers delimit, and `read_eq_ok`, `isTruncated_read` and `read_append` put
them together to the whole of an input: an encoding, one that breaks off and one that is
continued.  `Reader.Yields` says the reverse, that a reader makes something of an input only if
this starts with the bytes that stand for it, and `eq_of_read_eq_ok` that nothing else is read.
-/

namespace Interchain.Wire

/-! ### Writing -/

/-- The bytes of a sequence of fields. -/
def encoding (fields : List Field) : Bytes := fields.flatMap Field.bytes

/-- A field is written if its length can be and it stays within the limit. -/
theorem Writer.put_eq_ok_iff (w w' : Writer) (f : Field) :
  w.put f = .ok w'
    ↔ f.isCountable = true ∧ w.bytes.length + f.bytes.length ≤ w.max ∧
        w' = { w with bytes := w.bytes ++ f.bytes }
  := by
  rw [put]
  by_cases hc : f.isCountable = true
  · by_cases hs : w.bytes.length + f.bytes.length ≤ w.max
    · simp [hc, hs, Nat.not_lt_of_le hs, eq_comm]
    · simp [hc, hs, Nat.lt_of_not_le hs]
  · simp [hc]

/-- Fields are written one after another if their lengths can be and they stay within the
limit. -/
theorem foldlM_put_eq_ok_iff (fields : List Field) (w w' : Writer)
    (h : w.bytes.length ≤ w.max) :
  fields.foldlM Writer.put w = .ok w'
    ↔ (∀ f ∈ fields, f.isCountable = true) ∧
        w.bytes.length + (encoding fields).length ≤ w.max ∧
        w' = { w with bytes := w.bytes ++ encoding fields }
  := by
  induction fields generalizing w with
  | nil =>
      simp only [List.foldlM_nil, encoding, List.flatMap_nil, List.append_nil, List.length_nil,
        Nat.add_zero, List.not_mem_nil, false_implies, implies_true, true_and]
      constructor
      · intro hw
        cases hw
        use h
      · rintro ⟨-, rfl⟩
        rfl
  | cons f fields ih =>
      have hcons : encoding (f :: fields) = f.bytes ++ encoding fields := rfl
      rw [List.foldlM_cons, bind_eq_ok_iff, hcons, List.length_append, List.forall_mem_cons]
      constructor
      · rintro ⟨u, hu, hw⟩
        obtain ⟨hf, hle, rfl⟩ := (w.put_eq_ok_iff u f).mp hu
        obtain ⟨hfields, hle', rfl⟩ := (ih _ (by rwa [List.length_append])).mp hw
        simp only [List.length_append] at hle'
        rw [List.append_assoc]
        exact ⟨⟨hf, hfields⟩, by omega, rfl⟩
      · rintro ⟨⟨hf, hfields⟩, hle, rfl⟩
        have hle' : (w.bytes ++ f.bytes).length ≤ w.max := by
          rw [List.length_append]
          omega
        use { w with bytes := w.bytes ++ f.bytes }
        constructor
        · apply (w.put_eq_ok_iff _ f).mpr
          exact ⟨hf, by omega, rfl⟩
        · apply (ih _ hle').mpr
          refine ⟨hfields, ?_, by rw [List.append_assoc]⟩
          simp only [List.length_append]
          omega

/-- A sequence of fields is written as their bytes if their lengths can be and they stay within
the limit. -/
theorem write_eq_ok_iff (max : Nat) (fields : List Field) (b : Bytes) :
  write max fields = .ok b
    ↔ (∀ f ∈ fields, f.isCountable = true) ∧ b.length ≤ max ∧ b = encoding fields
  := by
  have h := fun w => foldlM_put_eq_ok_iff fields { max } w (Nat.zero_le max)
  simp only [List.length_nil, Nat.zero_add, List.nil_append] at h
  rw [write]
  constructor
  · intro hw
    cases hp : fields.foldlM Writer.put { max } with
    | error e =>
        rw [hp] at hw
        cases hw
    | ok w =>
        obtain ⟨hf, hle, rfl⟩ := (h w).mp hp
        rw [hp] at hw
        cases hw
        exact ⟨hf, hle, rfl⟩
  · rintro ⟨hf, hle, rfl⟩
    rw [(h _).mpr ⟨hf, hle, rfl⟩]
    rfl

/-- Fields that stay within the limit are written. -/
theorem exists_write (max : Nat) (fields : List Field)
    (hcount : ∀ f ∈ fields, f.isCountable = true) (hlength : (encoding fields).length ≤ max) :
  ∃ b, write max fields = .ok b
  := ⟨_, (write_eq_ok_iff _ _ _).mpr ⟨hcount, hlength, rfl⟩⟩

/-- Nothing but its size keeps a field from being written. -/
theorem Writer.eq_tooLarge_of_put {w : Writer} (hmax : w.max < UInt32.size) {f : Field}
    {e : MessageError} (h : w.put f = .error e) :
  ∃ size, w.max < size ∧ size ≤ w.bytes.length + f.bytes.length ∧ e = .tooLarge size w.max
  := by
  rw [put] at h
  split at h
  · next hcount =>
    cases h
    cases f with
    | counted value =>
        have hlength : UInt32.size ≤ value.length := by simpa [Field.isCountable] using hcount
        refine ⟨_, ?_, ?_, rfl⟩
        · rw [Field.bytes, List.length_append, Bytes.length_ofNat]
          omega
        · omega
    | u16 _ => cases hcount
    | u32 _ => cases hcount
    | fixed _ => cases hcount
  · dsimp only at h
    split at h
    · next hlt =>
      cases h
      exact ⟨_, hlt, Nat.le_refl _, rfl⟩
    · cases h

/-- Nothing but their size keeps fields from being written after others. -/
theorem eq_tooLarge_of_foldlM_put (fields : List Field) {w : Writer} (hmax : w.max < UInt32.size)
    {e : MessageError} (h : fields.foldlM Writer.put w = .error e) :
  ∃ size, w.max < size ∧ size ≤ w.bytes.length + (encoding fields).length ∧
    e = .tooLarge size w.max
  := by
  induction fields generalizing w with
  | nil => cases h
  | cons f fields ih =>
      have hcons : (encoding (f :: fields)).length = f.bytes.length + (encoding fields).length :=
        List.length_append
      rw [List.foldlM_cons] at h
      cases hput : w.put f with
      | error e' =>
          rw [hput] at h
          cases h
          obtain ⟨size, hlt, hle, he⟩ := Writer.eq_tooLarge_of_put hmax hput
          use size, hlt, by omega
      | ok w' =>
          rw [hput] at h
          obtain ⟨-, -, rfl⟩ := (w.put_eq_ok_iff w' f).mp hput
          obtain ⟨size, hlt, hle, he⟩ := ih (w := { w with bytes := w.bytes ++ f.bytes }) hmax h
          rw [List.length_append] at hle
          use size, hlt, by omega

/-- Nothing but their size keeps fields from being written. -/
theorem eq_tooLarge_of_write {max : Nat} (hmax : max < UInt32.size) {fields : List Field}
    {e : MessageError} (h : write max fields = .error e) :
  ∃ size, max < size ∧ size ≤ (encoding fields).length ∧ e = .tooLarge size max
  := by
  rw [write] at h
  cases hwritten : fields.foldlM Writer.put { max } with
  | error e' =>
      rw [hwritten] at h
      cases h
      obtain ⟨size, hlt, hle, he⟩ := eq_tooLarge_of_foldlM_put fields hmax hwritten
      rw [List.length_nil, Nat.zero_add] at hle
      use size, hlt, hle, he
  | ok w =>
      rw [hwritten] at h
      cases h

/-! ### Reading -/

/-- The reader takes `b` off the front of any input and makes `a` of it. -/
def Reader.Consumes {α : Type} (r : Reader α) (b : Bytes) (a : α) : Prop :=
  ∀ rest, r (b ++ rest) = (.ok a, rest)

namespace Reader

variable {α β : Type}

/-- A reader goes on where the one before it left off. -/
theorem bind_apply_of_ok {r : Reader α} {f : α → Reader β} {b c : Bytes} {a : α}
    (h : r b = (.ok a, c)) :
  (r >>= f) b = f a c
  := by
  show ExceptT.bindCont f (r b).1 (r b).2 = f a c
  rw [h]
  rfl

/-- A reader does not go on after another one that fails. -/
theorem bind_apply_of_error {r : Reader α} {b : Bytes} {e : MessageError}
    (h : (r b).1 = .error e) (f : α → Reader β) :
  ((r >>= f) b).1 = .error e
  := by
  show (ExceptT.bindCont f (r b).1 (r b).2).1 = .error e
  rw [h]
  rfl

theorem consumes_pure (a : α) :
  Consumes (pure a) [] a
  := fun _ => rfl

/-- A reader that goes on after another one consumes what they consume together. -/
theorem Consumes.bind {r : Reader α} {f : α → Reader β} {b c : Bytes} {a : α} {x : β}
    (h : r.Consumes b a) (h' : (f a).Consumes c x) :
  (r >>= f).Consumes (b ++ c) x
  := by
  intro rest
  rw [List.append_assoc, bind_apply_of_ok (h (c ++ rest))]
  apply h'

/-- A result that does not depend on the input consumes nothing. -/
theorem consumes_lift {x : Except MessageError α} {a : α} (h : x = .ok a) :
  (lift x).Consumes [] a
  := by
  intro rest
  rw [lift, h]
  rfl

/-- What the reader of some bytes does. -/
theorem take_apply (n : Nat) (b : Bytes) :
  take n b
    = if b.length < n then (.error (.truncated n b.length), b) else (.ok (b.take n), b.drop n)
  := by
  simp only [take, Bind.bind, ExceptT.bind, ExceptT.mk, StateT.bind, get, getThe,
    MonadStateOf.get, liftM, monadLift, MonadLift.monadLift, ExceptT.lift, StateT.get,
    StateT.map, Functor.map, pure, ExceptT.bindCont]
  split
  · rfl
  · rfl

/-- Bytes whose number is known are consumed as they are. -/
theorem consumes_take {n : Nat} {b : Bytes} (h : b.length = n) :
  (take n).Consumes b b
  := by
  intro rest
  have hlt : ¬ (b ++ rest).length < n := by
    rw [List.length_append]
    omega
  rw [take_apply, if_neg hlt, ← h, List.take_left, List.drop_left]

/-- A number of two bytes is consumed as its bytes. -/
theorem consumes_u16 (x : UInt16) :
  u16.Consumes (Bytes.ofUInt16 x) x
  := by
  have h := (consumes_take (Bytes.length_ofNat 2 x.toNat)).bind
    (f := fun b => pure (UInt16.ofNat b.toNat)) (consumes_pure _)
  have hlt : x.toNat < 256 ^ 2 := x.toNat_lt
  rwa [Bytes.toNat_ofNat, Nat.mod_eq_of_lt hlt, UInt16.ofNat_toNat, List.append_nil] at h

/-- A number of four bytes is consumed as its bytes. -/
theorem consumes_u32 (x : UInt32) :
  u32.Consumes (Bytes.ofUInt32 x) x
  := by
  have h := (consumes_take (Bytes.length_ofNat 4 x.toNat)).bind
    (f := fun b => pure (UInt32.ofNat b.toNat)) (consumes_pure _)
  have hlt : x.toNat < 256 ^ 4 := x.toNat_lt
  rwa [Bytes.toNat_ofNat, Nat.mod_eq_of_lt hlt, UInt32.ofNat_toNat, List.append_nil] at h

/-- A byte string of fixed length is consumed as it is. -/
theorem consumes_fixed {n : Nat} (x : FixedBytes n) :
  (fixed n).Consumes x.bytes x
  := by
  have h := (consumes_take x.length_eq).bind
    (f := fun b => pure (FixedBytes.fit n b)) (consumes_pure _)
  rwa [FixedBytes.fit_bytes, List.append_nil] at h

/-! ### Where reading ends -/

/-- Reading ended inside a field, which needs more bytes than were left. -/
def IsTruncated (x : Except MessageError α) : Prop :=
  ∃ needed remaining, remaining < needed ∧ x = .error (.truncated needed remaining)

/-- The reader takes `b` off the front of any input and makes `a` of it, and an input that breaks
off before the end of `b` ends inside a field. -/
structure Delimits (r : Reader α) (b : Bytes) (a : α) : Prop where
  consumes : r.Consumes b a
  truncated : ∀ cut, cut <+: b → cut ≠ b → IsTruncated (r cut).1

theorem isTruncated_bind {r : Reader α} {b : Bytes} (h : IsTruncated (r b).1)
    (f : α → Reader β) :
  IsTruncated ((r >>= f) b).1
  := by
  obtain ⟨needed, remaining, hlt, hr⟩ := h
  use needed, remaining, hlt, bind_apply_of_error hr f

/-- No input breaks off before the end of the empty byte string. -/
theorem Consumes.delimits_nil {r : Reader α} {a : α} (h : r.Consumes [] a) :
  r.Delimits [] a
  := by
  use h
  intro cut hcut hne
  exact absurd (List.prefix_nil.mp hcut) hne

theorem delimits_pure (a : α) :
  Delimits (pure a) [] a
  := (consumes_pure a).delimits_nil

/-- A reader that goes on after another one delimits what they delimit together. -/
theorem Delimits.bind {r : Reader α} {f : α → Reader β} {b c : Bytes} {a : α} {x : β}
    (h : r.Delimits b a) (h' : (f a).Delimits c x) :
  (r >>= f).Delimits (b ++ c) x
  := by
  use h.consumes.bind h'.consumes
  intro cut hcut hne
  -- either all of the first part is there, or the input breaks off inside it
  by_cases hb : b <+: cut
  · obtain ⟨cut', rfl⟩ := hb
    rw [bind_apply_of_ok (h.consumes cut')]
    apply h'.truncated cut' ((List.prefix_append_right_inj b).mp hcut)
    rintro rfl
    exact hne rfl
  · have hcut' := (List.prefix_or_prefix_of_prefix hcut (List.prefix_append b c)).resolve_right hb
    apply isTruncated_bind (h.truncated cut hcut' _)
    rintro rfl
    exact hb List.prefix_rfl

/-- A reader goes on with a result that does not depend on the input. -/
theorem Delimits.lift_bind {x : Except MessageError α} {f : α → Reader β} {c : Bytes} {a : α}
    {y : β} (h : x = .ok a) (h' : (f a).Delimits c y) :
  (lift x >>= f).Delimits c y
  := (consumes_lift h).delimits_nil.bind h'

/-- Bytes whose number is known end inside a field if there are fewer. -/
theorem isTruncated_take_bind {n : Nat} {b cut : Bytes} (hb : b.length = n) (hcut : cut <+: b)
    (hne : cut ≠ b) (f : Bytes → Reader α) :
  IsTruncated ((take n >>= f) cut).1
  := by
  have hlt : cut.length < n := by
    rw [← hb]
    apply Nat.lt_of_le_of_ne hcut.length_le
    intro hlength
    exact hne (hcut.eq_of_length hlength)
  apply isTruncated_bind
  rw [take_apply, if_pos hlt]
  exact ⟨n, cut.length, hlt, rfl⟩

theorem delimits_take {n : Nat} {b : Bytes} (h : b.length = n) :
  (take n).Delimits b b
  := by
  use consumes_take h
  intro cut hcut hne
  have htruncated := isTruncated_take_bind h hcut hne pure
  rwa [bind_pure] at htruncated

theorem delimits_u16 (x : UInt16) :
  u16.Delimits (Bytes.ofUInt16 x) x
  := by
  use consumes_u16 x
  intro cut hcut hne
  apply isTruncated_take_bind (Bytes.length_ofNat 2 x.toNat) hcut hne

theorem delimits_u32 (x : UInt32) :
  u32.Delimits (Bytes.ofUInt32 x) x
  := by
  use consumes_u32 x
  intro cut hcut hne
  apply isTruncated_take_bind (Bytes.length_ofNat 4 x.toNat) hcut hne

theorem delimits_fixed {n : Nat} (x : FixedBytes n) :
  (fixed n).Delimits x.bytes x
  := by
  use consumes_fixed x
  intro cut hcut hne
  apply isTruncated_take_bind x.length_eq hcut hne

/-- A byte string that is not too long ends as far behind its length as this says. -/
theorem delimits_counted {b : Bytes} (hb : b.length ≤ maxSize) :
  counted.Delimits (Field.counted b).bytes b
  := by
  have hlt : b.length < UInt32.size := by
    rw [maxSize] at hb
    rw [UInt32.size]
    omega
  have hn : (UInt32.ofNat b.length).toNat = b.length := UInt32.toNat_ofNat_of_lt hlt
  have h := delimits_u32 (UInt32.ofNat b.length)
  rw [Bytes.ofUInt32, hn] at h
  apply h.bind
  rw [hn, if_neg (Nat.not_lt_of_le hb)]
  apply delimits_take rfl

theorem delimits_header :
  header.Delimits Wire.header.bytes ()
  := by
  have h := (delimits_u16 version).bind (f := fun v => if v ≠ version then
    throw (.unsupportedVersion v.toNat) else pure ()) (delimits_pure _)
  rwa [List.append_nil] at h

/-- The end is reached if nothing is left. -/
theorem finish_apply (b : Bytes) :
  finish b = if b ≠ [] then (.error (.trailingBytes b.length), b) else (.ok (), b)
  := by
  simp only [finish, Bind.bind, ExceptT.bind, ExceptT.mk, StateT.bind, get, getThe,
    MonadStateOf.get, liftM, monadLift, MonadLift.monadLift, ExceptT.lift, StateT.get,
    StateT.map, Functor.map, pure, ExceptT.bindCont]
  split
  · rfl
  · rfl

end Reader

section Read

variable {α : Type} {r : Reader α} {b : Bytes} {a : α}

/-- The whole of an encoding is read as what its fields behind the version stand for. -/
theorem read_eq_ok (h : r.Consumes b a) (hb : (header.bytes ++ b).length ≤ maxSize) :
  read r (header.bytes ++ b) = .ok a
  := by
  have hr := h []
  rw [List.append_nil] at hr
  rw [read, if_neg (Nat.not_lt_of_le hb)]
  dsimp only
  rw [Reader.bind_apply_of_ok (Reader.delimits_header.consumes b), Reader.bind_apply_of_ok hr]
  rfl

/-- An encoding that breaks off ends inside a field. -/
theorem isTruncated_read (h : r.Delimits b a) (hb : (header.bytes ++ b).length ≤ maxSize)
    {cut : Bytes} (hcut : cut <+: header.bytes ++ b) (hne : cut ≠ header.bytes ++ b) :
  Reader.IsTruncated (read r cut)
  := by
  have hsize : ¬ maxSize < cut.length := Nat.not_lt_of_le (Nat.le_trans hcut.length_le hb)
  have hboth := Reader.delimits_header.bind (f := fun _ => r) h
  have htruncated := Reader.isTruncated_bind (hboth.truncated cut hcut hne)
    fun x => do Reader.finish; return x
  rw [bind_assoc] at htruncated
  rw [read, if_neg hsize]
  exact htruncated

/-- An encoding that is continued is too large, or bytes are left behind its end. -/
theorem read_append (h : r.Consumes b a) {rest : Bytes} (hrest : rest ≠ []) :
  read r (header.bytes ++ b ++ rest)
    = .error (if (header.bytes ++ b ++ rest).length ≤ maxSize then .trailingBytes rest.length
        else .tooLarge (header.bytes ++ b ++ rest).length maxSize)
  := by
  rw [read]
  by_cases hsize : (header.bytes ++ b ++ rest).length ≤ maxSize
  · rw [if_neg (Nat.not_lt_of_le hsize), if_pos hsize]
    dsimp only
    rw [List.append_assoc, Reader.bind_apply_of_ok (Reader.delimits_header.consumes (b ++ rest)),
      Reader.bind_apply_of_ok (h rest)]
    apply Reader.bind_apply_of_error
    rw [Reader.finish_apply, if_pos hrest]
  · rw [if_pos (Nat.lt_of_not_le hsize), if_neg hsize]

end Read

/-! ### Reading encodings only -/

/-- An input of which the reader makes `a` starts with the bytes of `a`, and these are what it
takes off. -/
def Reader.Yields {α : Type} (r : Reader α) (bytes : α → Bytes) : Prop :=
  ∀ b a rest, r b = (.ok a, rest) → b = bytes a ++ rest

namespace Reader

variable {α β : Type}

/-- A reader that goes on after another one succeeds if both do. -/
theorem bind_apply_eq_ok_iff {r : Reader α} {f : α → Reader β} {b rest : Bytes} {y : β} :
  (r >>= f) b = (.ok y, rest) ↔ ∃ a c, r b = (.ok a, c) ∧ f a c = (.ok y, rest)
  := by
  constructor
  · intro h
    have hcont : ExceptT.bindCont f (r b).1 (r b).2 = (.ok y, rest) := h
    cases hr : r b with
    | mk result c =>
        rw [hr] at hcont
        cases result with
        | error e => cases hcont
        | ok a => exact ⟨a, c, rfl, hcont⟩
  · rintro ⟨a, c, hr, hf⟩
    rw [bind_apply_of_ok hr, hf]

/-- A result that does not depend on the input takes nothing off. -/
theorem lift_apply_eq_ok_iff {x : Except MessageError α} {b rest : Bytes} {a : α} :
  lift x b = (.ok a, rest) ↔ x = .ok a ∧ b = rest
  := Prod.mk_inj

/-- As many bytes are taken off as are asked for. -/
theorem eq_of_take_eq_ok {n : Nat} {b a rest : Bytes} (h : take n b = (.ok a, rest)) :
  a.length = n ∧ b = a ++ rest
  := by
  rw [take_apply] at h
  split at h
  · cases h
  · next hn =>
    cases h
    exact ⟨List.length_take_of_le (Nat.le_of_not_lt hn), (List.take_append_drop n b).symm⟩

theorem yields_u16 :
  u16.Yields Bytes.ofUInt16
  := by
  intro b x rest h
  obtain ⟨a, c, htake, hx⟩ := bind_apply_eq_ok_iff.mp h
  cases hx
  obtain ⟨hlength, rfl⟩ := eq_of_take_eq_ok htake
  have hlt := Bytes.toNat_lt a
  have hbytes := Bytes.ofNat_toNat a
  rw [hlength] at hlt hbytes
  have hx : (UInt16.ofNat a.toNat).toNat = a.toNat := UInt16.toNat_ofNat_of_lt hlt
  rw [Bytes.ofUInt16, hx, hbytes]

theorem yields_u32 :
  u32.Yields Bytes.ofUInt32
  := by
  intro b x rest h
  obtain ⟨a, c, htake, hx⟩ := bind_apply_eq_ok_iff.mp h
  cases hx
  obtain ⟨hlength, rfl⟩ := eq_of_take_eq_ok htake
  have hlt := Bytes.toNat_lt a
  have hbytes := Bytes.ofNat_toNat a
  rw [hlength] at hlt hbytes
  have hx : (UInt32.ofNat a.toNat).toNat = a.toNat := UInt32.toNat_ofNat_of_lt hlt
  rw [Bytes.ofUInt32, hx, hbytes]

theorem yields_fixed (n : Nat) :
  (fixed n).Yields FixedBytes.bytes
  := by
  intro b x rest h
  obtain ⟨a, c, htake, hx⟩ := bind_apply_eq_ok_iff.mp h
  cases hx
  obtain ⟨rfl, rfl⟩ := eq_of_take_eq_ok htake
  simp [FixedBytes.fit, Bytes.zeros]

theorem yields_counted :
  counted.Yields fun a => (Field.counted a).bytes
  := by
  intro b x rest h
  obtain ⟨n, c, hn, h⟩ := bind_apply_eq_ok_iff.mp h
  split at h
  · cases h
  · obtain ⟨hlength, rfl⟩ := eq_of_take_eq_ok h
    have hn' := yields_u32 b n _ hn
    rw [Bytes.ofUInt32, ← hlength, ← List.append_assoc] at hn'
    apply hn'

theorem yields_header :
  header.Yields fun _ => Wire.header.bytes
  := by
  intro b x rest h
  obtain ⟨v, c, hv, h⟩ := bind_apply_eq_ok_iff.mp h
  split at h
  · cases h
  · next hversion =>
    cases h
    rw [yields_u16 b v _ hv, not_not.mp hversion]
    rfl

end Reader

/-- Reading the whole of a byte string takes a version off its front and then everything
else. -/
theorem exists_of_read_eq_ok {α : Type} {r : Reader α} {b : Bytes} {a : α}
    (h : read r b = .ok a) :
  b.length ≤ maxSize ∧ ∃ c, Reader.header b = (.ok (), c) ∧ r c = (.ok a, [])
  := by
  rw [read] at h
  split at h
  · cases h
  · next hle =>
    use Nat.le_of_not_lt hle
    obtain ⟨⟨⟩, c, hheader, h⟩ := Reader.bind_apply_eq_ok_iff.mp (Prod.ext h rfl)
    obtain ⟨x, rest, hx, h⟩ := Reader.bind_apply_eq_ok_iff.mp h
    obtain ⟨⟨⟩, rest', hfinish, h⟩ := Reader.bind_apply_eq_ok_iff.mp h
    obtain rfl : x = a := Except.ok.inj (Prod.mk.inj h).1
    rw [Reader.finish_apply] at hfinish
    split at hfinish
    · cases hfinish
    · next hempty =>
      rw [not_not.mp hempty] at hx
      use c, hheader, hx

/-- The whole of a byte string is read only if it is the encoding of what is read. -/
theorem eq_of_read_eq_ok {α : Type} {r : Reader α} {bytes : α → Bytes} (hr : r.Yields bytes)
    {b : Bytes} {a : α} (h : read r b = .ok a) :
  b = header.bytes ++ bytes a
  := by
  obtain ⟨-, c, hheader, ha⟩ := exists_of_read_eq_ok h
  rw [Reader.yields_header b () c hheader, hr c a [] ha, List.append_nil]

end Interchain.Wire
