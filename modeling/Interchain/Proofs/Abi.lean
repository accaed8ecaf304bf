import Interchain.Contract.Abi
import Interchain.Proofs.Keccak256
import Interchain.Proofs.RoundTrip

/-!
# Words read back

What is encoded as words is read back whatever follows it: calls from their data, results
and announced messages from theirs.
-/

namespace Interchain

/-- The segment between two byte strings. -/
theorem Bytes.slice?_append (a b c : Bytes) :
  slice? (a ++ (b ++ c)) a.length b.length = some b
  := by
  rw [slice?, if_pos (by simp), List.drop_left, List.take_left]

namespace Abi

/-! ### Words -/

theorem length_natWord (n : Nat) :
  (natWord n).length = 32
  := Bytes.length_ofNat 32 n

variable {a rest : Bytes} {position : Nat}

/-- A word is read where it stands. -/
theorem wordAt_append (w : FixedBytes 32) (h : a.length = position) :
  wordAt (a ++ (w.bytes ++ rest)) position = .ok w
  := by
  have hslice := Bytes.slice?_append a w.bytes rest
  rw [h, w.length_eq] at hslice
  rw [wordAt, hslice]
  simp only [FixedBytes.fit_bytes]

/-- What is read from the word of a number depends on whether 32 bits are enough for it. -/
theorem uint32At_append_eq {n : Nat} (hn : n < 2 ^ 256) (h : a.length = position) :
  uint32At (a ++ (natWord n ++ rest)) position
    = if n < UInt32.size then .ok (.ofNat n) else .error (.invalidInput (.tooWide n))
  := by
  have hword : wordAt (a ++ (natWord n ++ rest)) position = .ok (.ofNat 32 n) :=
    wordAt_append (.ofNat 32 n) h
  have hnat : (FixedBytes.ofNat 32 n).toNat = n := by
    rw [FixedBytes.toNat, FixedBytes.ofNat, Bytes.toNat_ofNat]
    apply Nat.mod_eq_of_lt hn
  rw [uint32At, hword]
  simp only [Bind.bind, Except.bind, hnat]
  rfl

/-- A number for which 32 bits are enough is read from its word. -/
theorem uint32At_append {n : Nat} (hn : n < UInt32.size) (h : a.length = position) :
  uint32At (a ++ (natWord n ++ rest)) position = .ok (.ofNat n)
  := by
  have hlt : n < 2 ^ 256 := Nat.lt_trans hn (by norm_num [UInt32.size])
  rw [uint32At_append_eq hlt h, if_pos hn]

/-- A number of 32 bits is read from its word. -/
theorem uint32At_natWord_append (x : UInt32) (h : a.length = position) :
  uint32At (a ++ (natWord x.toNat ++ rest)) position = .ok x
  := by rw [uint32At_append x.toNat_lt h, UInt32.ofNat_toNat]

/-- A number of 32 bits is read from the word that comes first. -/
theorem uint32At_zero (x : UInt32) (rest : Bytes) :
  uint32At (natWord x.toNat ++ rest) 0 = .ok x
  := by
  have h : uint32At ([] ++ (natWord x.toNat ++ rest)) 0 = .ok x := uint32At_natWord_append x rfl
  rwa [List.nil_append] at h

/-- A truth value is read from its word. -/
theorem boolAt_append (b : Bool) (h : a.length = position) :
  boolAt (a ++ (boolWord b ++ rest)) position = .ok b
  := by
  have hlt : b.toNat < UInt32.size := by
    apply Nat.lt_of_le_of_lt b.toNat_le
    norm_num [UInt32.size]
  rw [boolAt, boolWord, uint32At_append hlt h]
  cases b with
  | false => rfl
  | true => rfl

/-- An address is read from its word. -/
theorem addressAt_append (x : Address) (h : a.length = position) :
  addressAt (a ++ (x.toWord.bytes ++ rest)) position = .ok x
  := by
  have hzeros : x.toWord.bytes.take 12 = Bytes.zeros 12 :=
    List.take_left' (by simp [Bytes.zeros])
  have hbytes : x.toWord.bytes.drop 12 = x.bytes :=
    List.drop_left' (by simp [Bytes.zeros])
  rw [addressAt, wordAt_append x.toWord h]
  simp only [Bind.bind, Except.bind, hzeros, hbytes, FixedBytes.fit_bytes, ne_eq,
    not_true_eq_false, if_false]
  rfl

/-- A byte string is read from where its offset points to. -/
theorem bytesAt_eq_ok {data before b : Bytes} {offset : Nat}
    (hoffset : uint32At data position = .ok (.ofNat offset)) (hlt : offset < UInt32.size)
    (hdata : data = before ++ (bytesTail b ++ rest)) (hbefore : before.length = offset)
    (hb : b.length < UInt32.size) :
  bytesAt data position = .ok b
  := by
  have hlength : uint32At data offset = .ok (.ofNat b.length) := by
    rw [hdata, bytesTail, List.append_assoc, List.append_assoc]
    apply uint32At_append hb hbefore
  have hslice : data.slice? (offset + 32) b.length = some b := by
    have h := Bytes.slice?_append (before ++ natWord b.length) b
      (Bytes.zeros ((32 - b.length % 32) % 32) ++ rest)
    rw [List.length_append, length_natWord, hbefore] at h
    rw [hdata, bytesTail]
    simpa only [List.append_assoc] using h
  rw [bytesAt, bind_eq_ok_iff]
  use .ofNat offset, hoffset
  rw [UInt32.toNat_ofNat_of_lt' hlt, bind_eq_ok_iff]
  use .ofNat b.length, hlength
  rw [UInt32.toNat_ofNat_of_lt' hb]
  dsimp only
  rw [hslice]
  rfl

/-- A byte string is read back as the only argument. -/
theorem bytesAt_bytesArgument {b : Bytes} (hb : b.length < UInt32.size) :
  bytesAt (bytesArgument b ++ rest) 0 = .ok b
  := by
  have hlt : 32 < UInt32.size := by norm_num [UInt32.size]
  have hdata : bytesArgument b ++ rest = natWord 32 ++ (bytesTail b ++ rest) := by
    rw [bytesArgument, List.append_assoc]
  have hoffset : uint32At (bytesArgument b ++ rest) 0 = .ok (.ofNat 32) := by
    rw [hdata]
    apply uint32At_append (a := []) hlt rfl
  apply bytesAt_eq_ok hoffset hlt hdata (length_natWord 32) hb

/-! ### Calls -/

theorem sendSelector_eq :
  sendSelector = [0xee, 0x5b, 0x48, 0xeb]
  := by
  rw [sendSelector, selector, keccak256_eq_digest]
  decide +kernel

theorem readCallSelector_eq :
  readCallSelector = [0x6f, 0x82, 0x53, 0x50]
  := by
  rw [readCallSelector, selector, keccak256_eq_digest]
  decide +kernel

theorem readBlockSelector_eq :
  readBlockSelector = [0xce, 0x7f, 0x59, 0x29]
  := by
  rw [readBlockSelector, selector, keccak256_eq_digest]
  decide +kernel

theorem chainNameSelector_eq :
  chainNameSelector = [0x42, 0x13, 0xcf, 0x78]
  := by
  rw [chainNameSelector, selector, keccak256_eq_digest]
  decide +kernel

/-- The functions have different names. -/
theorem selectors_nodup :
  [sendSelector, readCallSelector, readBlockSelector, chainNameSelector].Nodup
  := by
  rw [sendSelector_eq, readCallSelector_eq, readBlockSelector_eq, chainNameSelector_eq]
  decide

theorem length_selector (signature : String) :
  (selector signature).length = 4
  := by
  rw [selector, List.length_take, (keccak256 (Bytes.ofText signature)).length_eq]
  rfl

/-- Data that begins with four bytes is decoded by what these name. -/
theorem Function.decode_append {name : Bytes} (h : name.length = 4) (arguments : Bytes) :
  decode (name ++ arguments)
    = if name = sendSelector then send <$> bytesAt arguments 0
      else if name = readCallSelector then readCall <$> uint32At arguments 0
      else if name = readBlockSelector then readBlock <$> uint32At arguments 0
      else if name = chainNameSelector then .ok chainName
      else .error (.unknownSelector name)
  := by
  have hlong : ¬ (name ++ arguments).length < 4 := by
    rw [List.length_append]
    omega
  rw [decode, if_neg hlong]
  dsimp only
  rw [List.take_left' h, List.drop_left' h]

/-- The call is read back from its data, whatever follows. -/
theorem Function.decode_encode {f : Function} {rest : Bytes}
    (h : ∀ payload, f = send payload → payload.length < UInt32.size) :
  decode (f.encode ++ rest) = .ok f
  := by
  have hnodup := selectors_nodup
  simp only [List.nodup_cons, List.mem_cons, List.not_mem_nil, not_or, or_false] at hnodup
  obtain ⟨⟨hsc, hsb, hsn⟩, ⟨hcb, hcn⟩, hbn, -⟩ := hnodup
  cases f with
  | send payload =>
      rw [encode, List.append_assoc, sendSelector, decode_append (length_selector _),
        ← sendSelector, if_pos rfl, bytesAt_bytesArgument (h payload rfl)]
      rfl
  | readCall index =>
      rw [encode, List.append_assoc, readCallSelector, decode_append (length_selector _),
        ← readCallSelector, if_neg (Ne.symm hsc), if_pos rfl, uint32At_zero]
      rfl
  | readBlock index =>
      rw [encode, List.append_assoc, readBlockSelector, decode_append (length_selector _),
        ← readBlockSelector, if_neg (Ne.symm hsb), if_neg (Ne.symm hcb), if_pos rfl,
        uint32At_zero]
      rfl
  | chainName =>
      rw [encode, chainNameSelector, decode_append (length_selector _),
        ← chainNameSelector, if_neg (Ne.symm hsn), if_neg (Ne.symm hcn),
        if_neg (Ne.symm hbn), if_pos rfl]

/-- What is decoded from the data of a call that sends is the call, even where the payload may
be too long to be decoded. -/
theorem Function.eq_of_decode_encode_send {payload : Bytes} {f : Function}
    (hlength : payload.length < 2 ^ 256) (h : decode (send payload).encode = .ok f) :
  f = send payload
  := by
  by_cases hlt : payload.length < UInt32.size
  · have hdecode : decode ((send payload).encode ++ []) = .ok (send payload) := by
      apply decode_encode
      rintro _ ⟨⟩
      exact hlt
    rw [List.append_nil, h] at hdecode
    exact Except.ok.inj hdecode
  · have hoffset : uint32At (bytesArgument payload) 0 = .ok 32 := uint32At_zero 32 _
    have hwide : uint32At (bytesArgument payload) 32
        = .error (.invalidInput (.tooWide payload.length)) := by
      rw [bytesArgument, bytesTail, List.append_assoc,
        uint32At_append_eq hlength (length_natWord 32), if_neg hlt]
    rw [encode, sendSelector, decode_append (length_selector _), ← sendSelector, if_pos rfl,
      bytesAt, hoffset] at h
    simp only [Bind.bind, Except.bind] at h
    rw [show (32 : UInt32).toNat = 32 from rfl, hwide] at h
    cases h

/-! ### Results -/

/-- A block is read back from its result, whatever follows. -/
theorem decodeBlock_append (b : VerifiedBlock) (valid : Bool) (rest : Bytes) :
  decodeBlock (encodeBlock b valid ++ rest) = .ok (b, valid)
  := by
  have hdata : encodeBlock b valid ++ rest
      = b.chain.bytes ++ (b.block.bytes ++ (boolWord valid ++ rest)) := by
    rw [encodeBlock, List.append_assoc, List.append_assoc]
  have hchain : wordAt (encodeBlock b valid ++ rest) 0 = .ok b.chain.toFixedBytes := by
    rw [hdata]
    apply wordAt_append (a := []) b.chain.toFixedBytes rfl
  have hblock : wordAt (encodeBlock b valid ++ rest) 32 = .ok b.block.toFixedBytes := by
    rw [hdata]
    apply wordAt_append b.block.toFixedBytes b.chain.length_eq
  have hvalid : boolAt (encodeBlock b valid ++ rest) 64 = .ok valid := by
    rw [hdata, ← List.append_assoc]
    apply boolAt_append
    rw [List.length_append, b.chain.length_eq, b.block.length_eq]
  rw [decodeBlock, hchain, hblock, hvalid]
  rfl

/-- A block is read back from its result. -/
theorem decodeBlock_encodeBlock (b : VerifiedBlock) (valid : Bool) :
  decodeBlock (encodeBlock b valid) = .ok (b, valid)
  := by
  have h := decodeBlock_append b valid []
  rwa [List.append_nil] at h

/-- A call is read back from its result, whatever follows. -/
theorem decodeCall_append {c : VerifiedCall} (valid : Bool) (rest : Bytes)
    (h : c.payload.length < UInt32.size) :
  decodeCall (encodeCall c valid ++ rest) = .ok (c, valid)
  := by
  have h64 : 64 < UInt32.size := by norm_num [UInt32.size]
  have h96 : 96 < UInt32.size := by norm_num [UInt32.size]
  let tuple := c.chain.bytes ++ (c.sender.toWord.bytes ++ (natWord 96 ++
    (bytesTail c.payload ++ rest)))
  have hdata : encodeCall c valid ++ rest = natWord 64 ++ (boolWord valid ++ tuple) := by
    simp only [encodeCall, tuple, List.append_assoc]
  have hlength : (natWord 64 ++ boolWord valid).length = 64 := by
    rw [List.length_append, boolWord, length_natWord, length_natWord]
  have hoffset : uint32At (encodeCall c valid ++ rest) 0 = .ok (.ofNat 64) := by
    rw [hdata]
    apply uint32At_append (a := []) h64 rfl
  have hvalid : boolAt (encodeCall c valid ++ rest) 32 = .ok valid := by
    rw [hdata]
    apply boolAt_append valid (length_natWord 64)
  have hlong : ¬ (encodeCall c valid ++ rest).length < 64 := by
    rw [hdata, ← List.append_assoc, List.length_append, hlength]
    omega
  have hdrop : (encodeCall c valid ++ rest).drop 64 = tuple := by
    rw [hdata, ← List.append_assoc]
    apply List.drop_left' hlength
  have hchain : wordAt tuple 0 = .ok c.chain.toFixedBytes :=
    wordAt_append (a := []) c.chain.toFixedBytes rfl
  have hsender : addressAt tuple 32 = .ok c.sender :=
    addressAt_append c.sender c.chain.length_eq
  have hpayload : bytesAt tuple 64 = .ok c.payload := by
    have hfixed : tuple = (c.chain.bytes ++ c.sender.toWord.bytes) ++
        (natWord 96 ++ (bytesTail c.payload ++ rest)) := by
      simp only [tuple, List.append_assoc]
    have hfixed' : tuple = ((c.chain.bytes ++ c.sender.toWord.bytes) ++ natWord 96) ++
        (bytesTail c.payload ++ rest) := by
      simp only [tuple, List.append_assoc]
    apply bytesAt_eq_ok _ h96 hfixed' _ h
    · rw [hfixed]
      apply uint32At_append h96
      rw [List.length_append, c.chain.length_eq, c.sender.toWord.length_eq]
    · rw [List.length_append, List.length_append, c.chain.length_eq, c.sender.toWord.length_eq,
        length_natWord]
  rw [decodeCall, bind_eq_ok_iff]
  use .ofNat 64, hoffset
  rw [UInt32.toNat_ofNat_of_lt' h64, hvalid]
  simp only [Bind.bind, Except.bind, if_neg hlong, hdrop, hchain, hsender, hpayload]
  rfl

/-- A call is read back from its result. -/
theorem decodeCall_encodeCall {c : VerifiedCall} (valid : Bool)
    (h : c.payload.length < UInt32.size) :
  decodeCall (encodeCall c valid) = .ok (c, valid)
  := by
  have happend := decodeCall_append valid [] h
  rwa [List.append_nil] at happend

/-- The message is read back from the data of its announcement. -/
theorem decodeAnnounced_bytesArgument (m : Message) :
  decodeAnnounced (bytesArgument m.bytes) = .ok m
  := by
  have hb : m.bytes.length < UInt32.size := by
    apply Nat.lt_of_le_of_lt m.length_bytes_le
    norm_num [Wire.maxSize, UInt32.size]
  have hbytes : bytesAt (bytesArgument m.bytes ++ []) 0 = .ok m.bytes := bytesAt_bytesArgument hb
  rw [List.append_nil] at hbytes
  rw [decodeAnnounced, hbytes]
  simp only [Bind.bind, Except.bind, m.parse_bytes]
  rfl

end Abi

end Interchain
