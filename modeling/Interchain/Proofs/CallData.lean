import Interchain.Proofs.Abi

/-!
# What call data are decoded to

`Abi.bytesAt_eq_ok_iff` says of arbitrary data when a byte string is decoded from them and which
one: its offset and its length stand in words that lie inside the data and need no more than 32
bits, and it is the segment which they name, if that lies inside the data too.  So the offset may
point anywhere, also backwards, and the padding is not looked at.

`Abi.codecs_inverse` puts this together with what is read back from encodings.
-/

namespace Interchain

/-- A segment is there if it lies inside the byte string. -/
theorem Bytes.slice?_eq_some_iff (b : Bytes) (start len : Nat) (s : Bytes) :
  b.slice? start len = some s ↔ start + len ≤ b.length ∧ (b.drop start).take len = s
  := by
  rw [slice?]
  split
  · next h => simp [h]
  · next h => simp [h]

namespace Abi

/-! ### Words -/

/-- A word is read from where it lies inside the data. -/
theorem wordAt_eq_ok_iff (data : Bytes) (position : Nat) (w : FixedBytes 32) :
  wordAt data position = .ok w
    ↔ position + 32 ≤ data.length ∧ (data.drop position).take 32 = w.bytes
  := by
  rw [wordAt, ← Bytes.slice?_eq_some_iff]
  cases hslice : data.slice? position 32 with
  | none => simp
  | some s =>
      obtain ⟨hle, hs⟩ := (Bytes.slice?_eq_some_iff ..).mp hslice
      have hlength : s.length = 32 := by
        rw [← hs, List.length_take, List.length_drop]
        omega
      have hfit : (FixedBytes.fit 32 s).bytes = s :=
        congrArg FixedBytes.bytes (FixedBytes.fit_bytes ⟨s, hlength⟩)
      rw [Except.ok.injEq, Option.some.injEq]
      constructor
      · rintro rfl
        exact hfit.symm
      · rintro rfl
        apply FixedBytes.fit_bytes

/-- At a position of the data stands the word of a number for which 32 bits are enough. -/
structure HoldsNumber (data : Bytes) (position n : Nat) : Prop where
  inside : position + 32 ≤ data.length
  toNat_eq : Bytes.toNat ((data.drop position).take 32) = n
  lt : n < 2 ^ 32

/-- A number is read from where its word lies inside the data. -/
theorem uint32At_eq_ok_iff (data : Bytes) (position : Nat) (x : UInt32) :
  uint32At data position = .ok x ↔ HoldsNumber data position x.toNat
  := by
  rw [uint32At, bind_eq_ok_iff]
  constructor
  · rintro ⟨w, hw, h⟩
    obtain ⟨hinside, hbytes⟩ := (wordAt_eq_ok_iff ..).mp hw
    dsimp only at h
    split at h
    · next hlt =>
      cases h
      rw [UInt32.toNat_ofNat_of_lt' hlt]
      exact ⟨hinside, by rw [hbytes, FixedBytes.toNat], hlt⟩
    · cases h
  · rintro ⟨hinside, hnat, hlt⟩
    have hlength : ((data.drop position).take 32).length = 32 := by
      rw [List.length_take, List.length_drop]
      omega
    use ⟨_, hlength⟩, (wordAt_eq_ok_iff ..).mpr ⟨hinside, rfl⟩
    have hword : FixedBytes.toNat ⟨_, hlength⟩ = x.toNat := hnat
    dsimp only
    rw [hword, if_pos (show x.toNat < UInt32.size from hlt), UInt32.ofNat_toNat]
    rfl

/-! ### Byte strings -/

/-- At a position of the data stands the offset of a byte string, which lies behind its length. -/
def HoldsBytes (data : Bytes) (position : Nat) (b : Bytes) : Prop :=
  ∃ offset length, HoldsNumber data position offset ∧ HoldsNumber data offset length ∧
    offset + 32 + length ≤ data.length ∧ (data.drop (offset + 32)).take length = b

/-- A byte string is decoded exactly from data that hold it. -/
theorem bytesAt_eq_ok_iff (data : Bytes) (position : Nat) (b : Bytes) :
  bytesAt data position = .ok b ↔ HoldsBytes data position b
  := by
  simp only [bytesAt, bind_eq_ok_iff, uint32At_eq_ok_iff]
  constructor
  · rintro ⟨offset, hoffset, length, hlength, h⟩
    use offset.toNat, length.toNat, hoffset, hlength
    apply (Bytes.slice?_eq_some_iff ..).mp
    split at h
    · next hslice =>
      cases h
      exact hslice
    · cases h
  · rintro ⟨offset, length, hoffset, hlength, hsegment⟩
    have ho : (UInt32.ofNat offset).toNat = offset := UInt32.toNat_ofNat_of_lt' hoffset.lt
    have hl : (UInt32.ofNat length).toNat = length := UInt32.toNat_ofNat_of_lt' hlength.lt
    use .ofNat offset, ho.symm ▸ hoffset, .ofNat length
    rw [ho, hl, (Bytes.slice?_eq_some_iff ..).mpr hsegment]
    use hlength
    rfl

/-- Data are those of a call that sends a payload if they name the function and hold the payload
behind its name. -/
theorem Function.decode_eq_ok_send_iff (input payload : Bytes) :
  decode input = .ok (send payload)
    ↔ ∃ arguments, input = sendSelector ++ arguments ∧ HoldsBytes arguments 0 payload
  := by
  simp only [← bytesAt_eq_ok_iff]
  constructor
  · intro h
    by_cases hshort : input.length < 4
    · rw [decode, if_pos hshort] at h
      cases h
    · have hname : (input.take 4).length = 4 := by
        rw [List.length_take]
        omega
      rw [← List.take_append_drop 4 input, decode_append hname] at h
      split at h
      · next hsend =>
        obtain ⟨payload', hpayload, hf⟩ := map_eq_ok_iff.mp h
        cases hf
        use input.drop 4
        rw [← hsend, List.take_append_drop]
        use rfl
      -- no other function comes to a call that sends
      · split at h
        · obtain ⟨_, -, hf⟩ := map_eq_ok_iff.mp h
          cases hf
        · split at h
          · obtain ⟨_, -, hf⟩ := map_eq_ok_iff.mp h
            cases hf
          · split at h
            · cases h
            · cases h
  · rintro ⟨arguments, rfl, h⟩
    rw [sendSelector, decode_append (length_selector _), ← sendSelector, if_pos rfl, h]
    rfl

/-- Calls are read back from their data, and calls and blocks with whether they are valid from
results, whatever follows in each case, as long as the lengths of payloads need no more than 32
bits.  Of arbitrary data a byte string is decoded exactly if they hold it, wherever its offset
stands, and those of a call that sends must hold the payload behind the name of the function. -/
theorem codecs_inverse :
  (∀ (f : Function) (rest : Bytes), (∀ payload, f = .send payload → payload.length < 2 ^ 32) →
    Function.decode (f.encode ++ rest) = .ok f) ∧
  (∀ (c : VerifiedCall) (valid : Bool) (rest : Bytes), c.payload.length < 2 ^ 32 →
    decodeCall (encodeCall c valid ++ rest) = .ok (c, valid)) ∧
  (∀ (b : VerifiedBlock) (valid : Bool) (rest : Bytes),
    decodeBlock (encodeBlock b valid ++ rest) = .ok (b, valid)) ∧
  (∀ (data : Bytes) (position : Nat) (b : Bytes),
    bytesAt data position = .ok b ↔ HoldsBytes data position b) ∧
  ∀ input payload : Bytes, Function.decode input = .ok (.send payload)
    ↔ ∃ arguments, input = sendSelector ++ arguments ∧ HoldsBytes arguments 0 payload
  := ⟨fun _ _ h => Function.decode_encode h, fun _ valid rest h => decodeCall_append valid rest h,
    decodeBlock_append, bytesAt_eq_ok_iff, Function.decode_eq_ok_send_iff⟩

/-- A call that sends three bytes is read back from its data with one more byte behind them, and so
is a call with such a payload from its result. -/
theorem codecs_inverse_threeBytes :
  let payload : Bytes := [1, 2, 3]
  let f := Function.send payload
  let c : VerifiedCall := ⟨.zero, .zero, payload⟩
  (∀ payload, f = .send payload → payload.length < 2 ^ 32) ∧
  Function.decode (f.encode ++ [0xff]) = .ok f ∧
  c.payload.length < 2 ^ 32 ∧
  decodeCall (encodeCall c true ++ [0xff]) = .ok (c, true)
  := by
  intro payload f c
  have hlength : payload.length < 2 ^ 32 := by decide
  have hf : ∀ payload, f = .send payload → payload.length < 2 ^ 32 := by
    intro payload' h
    cases (Function.send.inj h)
    exact hlength
  obtain ⟨hcall, hresult, -⟩ := codecs_inverse
  exact ⟨hf, hcall f [0xff] hf, hlength, hresult c true [0xff] hlength⟩

end Abi

end Interchain
