import Interchain.Ledger.PredicateCheck
import Interchain.Message.Basic
import Interchain.Proofs.Signers
import Interchain.Proofs.Wire

/-!
# Encodings read back

Every message and every signed message is read back from its encoding, and so is every payload.
A byte string is read back from the predicate that it is packed in, and this from the storage
keys that hold it.
-/

namespace Interchain

open Wire

/-- The length of the attestation of a block. -/
theorem Payload.length_blockHash (block : Id) :
  (blockHash block).bytes.length = 38
  := by
  simp only [bytes, List.length_append, header, Field.bytes, Bytes.ofUInt16, Bytes.ofUInt32,
    Bytes.length_ofNat, block.length_eq]

namespace Call

/-- A call is made of its contents. -/
theorem make_self (c : Call) :
  make c.source c.payload = .ok c
  := by
  rw [make]
  split
  · next bytes h =>
    have hb := h.symm.trans c.written
    cases hb
    rfl
  · next e h =>
    have hb := h.symm.trans c.written
    cases hb

/-- A call is made of the bytes of its contents. -/
theorem ofBytes_self (c : Call) :
  ofBytes c.source.bytes c.payload = .ok c
  := by
  rw [ofBytes, Address.ofBytes, Identifier.ofBytes, FixedBytes.ofBytes?_bytes]
  apply c.make_self

/-- What is made of contents has these contents. -/
theorem make_eq_ok_iff (source : Address) (payload : Bytes) (c : Call) :
  make source payload = .ok c ↔ c.source = source ∧ c.payload = payload
  := by
  constructor
  · intro h
    rw [make] at h
    split at h
    · cases h
      exact ⟨rfl, rfl⟩
    · cases h
  · rintro ⟨rfl, rfl⟩
    apply c.make_self

/-- Contents that are not too large are those of a call. -/
theorem exists_make (source : Address) {payload : Bytes} (h : payload.length + 34 ≤ maxSize) :
  ∃ c, make source payload = .ok c
  := by
  have hcount : payload.length < UInt32.size := by
    rw [maxSize] at h
    rw [UInt32.size]
    omega
  obtain ⟨bytes, hbytes⟩ := exists_write maxSize
    [header, .u32 1, .counted source.bytes, .counted payload]
    (by simp [header, Field.isCountable, hcount, source.length_eq, UInt32.size])
    (by
      simp [encoding, header, Field.bytes, Bytes.ofUInt16, Bytes.ofUInt32, source.length_eq]
      omega)
  exact ⟨_, make_self ⟨source, payload, bytes, hbytes⟩⟩

/-- The encoding behind the version. -/
def body (c : Call) : Bytes :=
  encoding [.u32 1, .counted c.source.bytes, .counted c.payload]

/-- The encoding is the version and what stands behind it. -/
theorem bytes_eq (c : Call) :
  c.bytes = header.bytes ++ c.body
  := ((write_eq_ok_iff _ _ _).mp c.written).2.2

theorem length_bytes_le (c : Call) :
  c.bytes.length ≤ maxSize
  := ((write_eq_ok_iff _ _ _).mp c.written).2.1

/-- The length of the encoding. -/
theorem length_bytes (c : Call) :
  c.bytes.length = c.payload.length + 34
  := by
  rw [c.bytes_eq, body, encoding]
  simp only [List.flatMap_cons, List.flatMap_nil, List.length_append, List.length_nil, header,
    Field.bytes, Bytes.ofUInt16, Bytes.ofUInt32, Bytes.length_ofNat, c.source.length_eq]
  omega

/-- The payload is no longer than the encoding. -/
theorem length_payload_le (c : Call) :
  c.payload.length ≤ maxSize
  := by
  have h := c.length_bytes_le
  rw [c.length_bytes] at h
  omega

end Call

namespace Payload

/-- The encoding behind the version. -/
def body : Payload → Bytes
  | blockHash block => (Field.u32 0).bytes ++ block.bytes
  | call c => c.body

/-- The encoding is the version and what stands behind it. -/
theorem bytes_eq (p : Payload) :
  p.bytes = header.bytes ++ p.body
  := by
  cases p with
  | blockHash block => apply List.append_assoc
  | call c => apply c.bytes_eq

theorem length_bytes_le (p : Payload) :
  p.bytes.length ≤ maxSize
  := by
  cases p with
  | blockHash block =>
      rw [length_blockHash, maxSize]
      omega
  | call c => apply c.length_bytes_le

/-- The reader of a payload delimits the encoding behind the version. -/
theorem delimits_reader (p : Payload) :
  reader.Delimits p.body p
  := by
  cases p with
  | blockHash block =>
      rw [body, ← List.append_nil block.bytes]
      apply (Reader.delimits_u32 0).bind
      rw [if_pos rfl]
      apply (Reader.delimits_fixed block.toFixedBytes).bind
      apply Reader.delimits_pure
  | call c =>
      have hsource : c.source.bytes.length ≤ maxSize := by
        rw [c.source.length_eq, maxSize]
        omega
      apply (Reader.delimits_u32 1).bind
      rw [if_neg (by decide), if_pos rfl]
      apply (Reader.delimits_counted hsource).bind
      apply (Reader.delimits_counted c.length_payload_le).bind
      apply Reader.Delimits.lift_bind c.ofBytes_self
      apply Reader.delimits_pure

/-- A payload is read back from its encoding. -/
theorem parse_bytes (p : Payload) :
  parse p.bytes = .ok p
  := by
  have h := p.length_bytes_le
  rw [p.bytes_eq] at h ⊢
  apply read_eq_ok p.delimits_reader.consumes h

theorem parse_blockHash (block : Id) :
  parse (blockHash block).bytes = .ok (blockHash block)
  := parse_bytes (blockHash block)

theorem parse_call (c : Call) :
  parse c.bytes = .ok (call c)
  := parse_bytes (call c)

end Payload

namespace Message

/-- A message is made of its contents. -/
theorem make_self (m : Message) :
  make m.network m.chain m.payload = .ok m
  := by
  rw [make]
  split
  · next bytes h =>
    have hb := h.symm.trans m.written
    cases hb
    rfl
  · next e h =>
    have hb := h.symm.trans m.written
    cases hb

/-- What is made of contents has these contents. -/
theorem make_eq_ok_iff (network : UInt32) (chain : Id) (payload : Bytes) (m : Message) :
  make network chain payload = .ok m
    ↔ m.network = network ∧ m.chain = chain ∧ m.payload = payload
  := by
  constructor
  · intro h
    rw [make] at h
    split at h
    · cases h
      exact ⟨rfl, rfl, rfl⟩
    · cases h
  · rintro ⟨rfl, rfl, rfl⟩
    apply m.make_self

/-- Contents that are not too large are those of a message. -/
theorem exists_make (network : UInt32) (chain : Id) {payload : Bytes}
    (h : payload.length + 42 ≤ maxSize) :
  ∃ m, make network chain payload = .ok m
  := by
  have hcount : payload.length < UInt32.size := by
    rw [maxSize] at h
    rw [UInt32.size]
    omega
  obtain ⟨bytes, hbytes⟩ := exists_write maxSize
    [header, .u32 network, .fixed chain.bytes, .counted payload]
    (by simp [header, Field.isCountable, hcount])
    (by
      simp [encoding, header, Field.bytes, Bytes.ofUInt16, Bytes.ofUInt32, chain.length_eq]
      omega)
  exact ⟨_, make_self ⟨network, chain, payload, bytes, hbytes⟩⟩

/-- The encoding behind the version. -/
def body (m : Message) : Bytes :=
  encoding [.u32 m.network, .fixed m.chain.bytes, .counted m.payload]

/-- The encoding is the version and what stands behind it. -/
theorem bytes_eq (m : Message) :
  m.bytes = header.bytes ++ m.body
  := ((write_eq_ok_iff _ _ _).mp m.written).2.2

theorem length_bytes_le (m : Message) :
  m.bytes.length ≤ maxSize
  := ((write_eq_ok_iff _ _ _).mp m.written).2.1

/-- The length of the encoding. -/
theorem length_bytes (m : Message) :
  m.bytes.length = m.payload.length + 42
  := by
  rw [m.bytes_eq, body, encoding]
  simp only [List.flatMap_cons, List.flatMap_nil, List.length_append, List.length_nil, header,
    Field.bytes, Bytes.ofUInt16, Bytes.ofUInt32, Bytes.length_ofNat, m.chain.length_eq]
  omega

/-- Payloads of all lengths that fit are those of messages. -/
theorem exists_length_bytes {n : Nat} (h : n + 42 ≤ maxSize) :
  ∃ m : Message, m.bytes.length = n + 42
  := by
  have hlength : (List.replicate n (0 : UInt8)).length = n := List.length_replicate
  obtain ⟨m, hm⟩ := exists_make 0 .zero (hlength.symm ▸ h)
  obtain ⟨-, -, hpayload⟩ := (make_eq_ok_iff ..).mp hm
  use m
  rw [m.length_bytes, hpayload, hlength]

/-- The payload is no longer than the encoding. -/
theorem length_payload_le (m : Message) :
  m.payload.length ≤ maxSize
  := by
  have h := m.length_bytes_le
  rw [m.length_bytes] at h
  omega

/-- The reader of a message delimits the encoding behind the version. -/
theorem delimits_reader (m : Message) :
  reader.Delimits m.body m
  := by
  apply (Reader.delimits_u32 m.network).bind
  apply (Reader.delimits_fixed m.chain.toFixedBytes).bind
  apply (Reader.delimits_counted m.length_payload_le).bind
  apply (Reader.consumes_lift m.make_self).delimits_nil

/-- A message is read back from its encoding. -/
theorem parse_bytes (m : Message) :
  parse m.bytes = .ok m
  := by
  have h := m.length_bytes_le
  rw [m.bytes_eq] at h ⊢
  apply read_eq_ok m.delimits_reader.consumes h

end Message

namespace SignedMessage

/-- A signed message is made of its contents. -/
theorem make_self (m : SignedMessage) :
  make m.message m.signers m.signature = .ok m
  := by
  rw [make]
  split
  · next bytes h =>
    have hb := h.symm.trans m.written
    cases hb
    rfl
  · next e h =>
    have hb := h.symm.trans m.written
    cases hb

/-- What is made of contents has these contents. -/
theorem make_eq_ok_iff (message : Message) (signers : Signers) (signature : FixedBytes 96)
    (m : SignedMessage) :
  make message signers signature = .ok m
    ↔ m.message = message ∧ m.signers = signers ∧ m.signature = signature
  := by
  constructor
  · intro h
    rw [make] at h
    split at h
    · cases h
      exact ⟨rfl, rfl, rfl⟩
    · cases h
  · rintro ⟨rfl, rfl, rfl⟩
    apply m.make_self

/-- A signed message is determined by its contents. -/
theorem eq_of_contents {m n : SignedMessage} (hmessage : m.message = n.message)
    (hsigners : m.signers = n.signers) (hsignature : m.signature = n.signature) :
  m = n
  := by
  have hm := m.make_self
  rw [hmessage, hsigners, hsignature, n.make_self] at hm
  apply (Except.ok.inj hm).symm

/-- The length of a message with the fields of a signature behind it. -/
theorem length_encoding (message : Message) (signers : Signers) (signature : FixedBytes 96) :
  (encoding (.fixed message.bytes :: signatureFields signers signature)).length
    = message.bytes.length + signers.bytes.length + 104
  := by
  simp only [encoding, signatureFields, List.flatMap_cons, List.flatMap_nil, List.length_append,
    List.length_nil, Field.bytes, Bytes.ofUInt32, Bytes.length_ofNat, signature.length_eq]
  omega

/-- A message that is not too large can be put together with signers and a signature. -/
theorem exists_make {message : Message} {signers : Signers} (signature : FixedBytes 96)
    (h : message.bytes.length + signers.bytes.length + 104 ≤ maxSize) :
  ∃ m, make message signers signature = .ok m
  := by
  have hcount : signers.bytes.length < UInt32.size := by
    rw [maxSize] at h
    rw [UInt32.size]
    omega
  obtain ⟨bytes, hbytes⟩ := exists_write maxSize
    (.fixed message.bytes :: signatureFields signers signature)
    (by simp [signatureFields, Field.isCountable, hcount])
    (by rwa [length_encoding])
  exact ⟨_, make_self ⟨message, signers, signature, bytes, hbytes⟩⟩

/-- Nothing but its size keeps a message from being signed. -/
theorem eq_tooLarge_of_make {message : Message} {signers : Signers} {signature : FixedBytes 96}
    {e : MessageError} (h : make message signers signature = .error e) :
  ∃ size, maxSize < size ∧ size ≤ message.bytes.length + signers.bytes.length + 104 ∧
    e = .tooLarge size maxSize
  := by
  rw [make] at h
  split at h
  · cases h
  · next hwrite =>
    cases h
    obtain ⟨size, hlt, hle, he⟩ := eq_tooLarge_of_write (by decide) hwrite
    rw [length_encoding] at hle
    use size, hlt, hle, he

/-- The encoding is that of the message with the fields of the signature behind it. -/
theorem bytes_eq (m : SignedMessage) :
  m.bytes = header.bytes ++ (m.message.body ++ encoding (signatureFields m.signers m.signature))
  := by
  have h := ((write_eq_ok_iff _ _ _).mp m.written).2.2
  rw [← List.append_assoc, ← m.message.bytes_eq]
  apply h

theorem length_bytes_le (m : SignedMessage) :
  m.bytes.length ≤ maxSize
  := ((write_eq_ok_iff _ _ _).mp m.written).2.1

/-- The length of the encoding. -/
theorem length_bytes (m : SignedMessage) :
  m.bytes.length = m.message.bytes.length + m.signers.bytes.length + 104
  := by
  rw [← length_encoding m.message m.signers m.signature]
  apply congrArg List.length ((write_eq_ok_iff _ _ _).mp m.written).2.2

/-- Exactly what is not too large can be put together. -/
theorem exists_make_iff (message : Message) (signers : Signers) (signature : FixedBytes 96) :
  (∃ m, make message signers signature = .ok m)
    ↔ message.bytes.length + signers.bytes.length + 104 ≤ maxSize
  := by
  constructor
  · rintro ⟨m, hm⟩
    obtain ⟨rfl, rfl, -⟩ := (make_eq_ok_iff ..).mp hm
    rw [← m.length_bytes]
    apply m.length_bytes_le
  · apply exists_make

/-- The byte form of the signers is no longer than the encoding. -/
theorem length_signers_le (m : SignedMessage) :
  m.signers.bytes.length ≤ maxSize
  := by
  have h := m.length_bytes_le
  rw [m.length_bytes] at h
  omega

/-- The reader of a signature delimits its fields. -/
theorem delimits_signatureReader (m : SignedMessage) :
  signatureReader.Delimits (encoding (signatureFields m.signers m.signature))
    (m.signers, m.signature)
  := by
  apply (Reader.delimits_u32 0).bind
  rw [if_neg (by simp)]
  apply (Reader.delimits_counted m.length_signers_le).bind
  apply Reader.Delimits.lift_bind m.signers.ofBytes_bytes
  apply (Reader.delimits_fixed m.signature).bind
  apply Reader.delimits_pure

/-- The reader of a signed message delimits the encoding behind the version. -/
theorem delimits_reader (m : SignedMessage) :
  reader.Delimits (m.message.body ++ encoding (signatureFields m.signers m.signature))
    (m.message, m.signers, m.signature)
  := by
  apply m.message.delimits_reader.bind
  rw [← List.append_nil (encoding _)]
  apply m.delimits_signatureReader.bind
  apply Reader.delimits_pure

/-- A signed message is read back from its encoding. -/
theorem parse_bytes (m : SignedMessage) :
  parse m.bytes = .ok m
  := by
  have h := m.length_bytes_le
  rw [m.bytes_eq] at h
  rw [parse, m.bytes_eq, read_eq_ok m.delimits_reader.consumes h]
  apply m.make_self

end SignedMessage

/-! ### Predicates -/

namespace Predicate

/-- A packed predicate fills whole words. -/
theorem length_pack_mod (p : Bytes) :
  (pack p).length % 32 = 0
  := by
  rw [pack, Bytes.zeros]
  simp only [List.length_append, List.length_cons, List.length_replicate]
  omega

/-- Packing adds at most a word. -/
theorem length_pack_le (p : Bytes) :
  (pack p).length ≤ p.length + 32
  := by
  rw [pack, Bytes.zeros]
  simp only [List.length_append, List.length_cons, List.length_replicate]
  omega

/-- A byte string of whole words is read back from the storage keys that hold it. -/
theorem ofStorageKeys_storageKeys {b : Bytes} (h : b.length % 32 = 0) :
  ofStorageKeys (storageKeys b) = b
  := by
  rw [ofStorageKeys, storageKeys, List.flatMap_map]
  induction b using Bytes.chunks.induct 32 with
  | case1 b hb =>
      obtain rfl := hb.resolve_right (by decide)
      rw [Bytes.chunks, dif_pos (.inl rfl)]
      rfl
  | case2 b hb ih =>
      have hpos := List.length_pos_iff.mpr (not_or.mp hb).1
      have hlength : (b.take 32).length = 32 := by
        rw [List.length_take]
        omega
      have hword := congrArg FixedBytes.bytes (FixedBytes.fit_bytes ⟨b.take 32, hlength⟩)
      rw [Bytes.chunks, dif_neg hb, List.flatMap_cons, hword, ih, List.take_append_drop]
      rw [List.length_drop]
      omega

/-- The zeros at the end of a packed predicate end at the delimiter. -/
theorem dropWhile_reverse_pack (p : Bytes) :
  (pack p).reverse.dropWhile (· == 0) = delimiter :: p.reverse
  := by
  rw [pack, Bytes.zeros, List.reverse_append, List.reverse_cons, List.reverse_replicate,
    List.append_assoc, List.dropWhile_append_of_pos]
  · rfl
  · intro x hx
    rw [List.eq_of_mem_replicate hx]
    rfl

/-- A predicate is unpacked from what it was packed in. -/
theorem unpack_pack (p : Bytes) :
  unpack (pack p) = .ok p
  := by
  have hpad : ¬ 32 < (pack p).length - p.reverse.length := by
    rw [pack, Bytes.zeros]
    simp only [List.length_append, List.length_cons, List.length_replicate, List.length_reverse]
    omega
  rw [unpack, if_neg (by rw [length_pack_mod]; simp), dropWhile_reverse_pack]
  simp only [hpad, if_false, ne_eq, not_true_eq_false, List.reverse_reverse]

/-- A packed encoding carries the message. -/
theorem decode_pack (m : SignedMessage) :
  decode (pack m.bytes) = .ok m
  := by
  rw [decode, unpack_pack, bind_eq_ok_iff]
  exact ⟨m.bytes, rfl, mapError_eq_ok_iff.mpr m.parse_bytes⟩

end Predicate

end Interchain
