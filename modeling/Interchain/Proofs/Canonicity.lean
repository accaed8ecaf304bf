import Interchain.Proofs.RoundTrip

/-!
# Canonical encodings

A message and a signed message are not only read back from their encodings: nothing but its
encoding is read as a message.  So the two formats are canonical, as `Wire.IsCanonical` says
of a format: a value has exactly one encoding, and this has the fields of one value only.
-/

namespace Interchain

open Wire

/-- A format is canonical.  Values are made of their fields, and each of them has one encoding,
from which and from nothing else it is read. -/
structure Wire.IsCanonical {Fields α : Type} (make : Fields → Except MessageError α)
    (fields : α → Fields) (bytes : α → Bytes) (parse : Bytes → Except MessageError α) :
    Prop where
  /-- What is made of fields has these fields, and is read back with all that belongs to it. -/
  parse_bytes : ∀ x a, make x = .ok a → fields a = x ∧ parse (bytes a) = .ok a
  /-- What is read has been read from its own encoding, which is not too large. -/
  bytes_eq : ∀ b a, parse b = .ok a → bytes a = b ∧ b.length ≤ maxSize
  /-- A value is read from one byte string only. -/
  existsUnique_parse : ∀ a, ∃! b, parse b = .ok a
  /-- No two byte strings are read as the same value. -/
  eq_of_parse : ∀ b b' a, parse b = .ok a → parse b' = .ok a → b = b'
  /-- Other fields have another encoding. -/
  bytes_eq_iff : ∀ a a', bytes a = bytes a' ↔ fields a = fields a'

/-- A format is canonical if its values are made of their fields, and read from the encoding
only. -/
theorem Wire.isCanonical_of_parse_iff {Fields α : Type} {make : Fields → Except MessageError α}
    {fields : α → Fields} {bytes : α → Bytes} {parse : Bytes → Except MessageError α}
    (hmake : ∀ x a, make x = .ok a ↔ fields a = x)
    (hparse : ∀ b a, parse b = .ok a ↔ bytes a = b) (hlength : ∀ a, (bytes a).length ≤ maxSize) :
  IsCanonical make fields bytes parse
  := by
  have hself (a : α) : parse (bytes a) = .ok a := (hparse _ a).mpr rfl
  constructor
  case parse_bytes =>
    intro x a h
    exact ⟨(hmake x a).mp h, hself a⟩
  case bytes_eq =>
    intro b a h
    obtain rfl := (hparse b a).mp h
    use rfl, hlength a
  case existsUnique_parse =>
    intro a
    use bytes a, hself a
    intro b h
    rw [(hparse b a).mp h]
  case eq_of_parse =>
    intro b b' a h h'
    rw [← (hparse b a).mp h, (hparse b' a).mp h']
  case bytes_eq_iff =>
    intro a a'
    constructor
    · intro h
      have heq := hself a
      rw [h, hself a'] at heq
      cases heq
      rfl
    · intro h
      have heq := (hmake _ a).mpr h
      rw [(hmake _ a').mpr rfl] at heq
      cases heq
      rfl

/-- A call of bytes has these bytes. -/
theorem Call.eq_of_ofBytes {source payload : Bytes} {c : Call}
  (h : ofBytes source payload = .ok c) :
  c.source.bytes = source ∧ c.payload = payload
  := by
  rw [ofBytes] at h
  split at h
  · next a ha =>
    obtain ⟨hsource, hpayload⟩ := (make_eq_ok_iff ..).mp h
    rw [Address.ofBytes, Identifier.ofBytes, FixedBytes.ofBytes?] at ha
    split at ha
    · next hsome =>
      cases ha
      split at hsome
      · cases hsome
        rw [hsource]
        use rfl, hpayload
      · cases hsome
    · cases ha
  · cases h

namespace Payload

/-- The reader of a payload makes it of the encoding behind the version. -/
theorem yields_reader :
  reader.Yields body
  := by
  intro b p rest h
  obtain ⟨tag, _, htag, h⟩ := Reader.bind_apply_eq_ok_iff.mp h
  have hb := Reader.yields_u32 _ _ _ htag
  split at h
  · next htag =>
    obtain ⟨block, _, hblock, h⟩ := Reader.bind_apply_eq_ok_iff.mp h
    cases h
    rw [hb, Reader.yields_fixed 32 _ _ _ hblock, htag, body, List.append_assoc]
    rfl
  · split at h
    · next htag =>
      obtain ⟨source, _, hsource, h⟩ := Reader.bind_apply_eq_ok_iff.mp h
      obtain ⟨payload, _, hpayload, h⟩ := Reader.bind_apply_eq_ok_iff.mp h
      obtain ⟨c, _, hcall, h⟩ := Reader.bind_apply_eq_ok_iff.mp h
      cases h
      obtain ⟨hbytes, rfl⟩ := Reader.lift_apply_eq_ok_iff.mp hcall
      obtain ⟨rfl, rfl⟩ := Call.eq_of_ofBytes hbytes
      rw [hb, Reader.yields_counted _ _ _ hsource, Reader.yields_counted _ _ _ hpayload, htag,
        body, Call.body]
      simp only [encoding, List.flatMap_cons, List.flatMap_nil, List.append_nil,
        List.append_assoc, Field.bytes]
    · cases h

/-- A payload is read from its encoding only. -/
theorem bytes_eq_of_parse {b : Bytes} {p : Payload} (h : parse b = .ok p) :
  p.bytes = b
  := by rw [eq_of_read_eq_ok yields_reader h, p.bytes_eq]

end Payload

namespace Message

/-- The reader of a message makes it of the encoding behind the version. -/
theorem yields_reader :
  reader.Yields body
  := by
  intro b m rest h
  obtain ⟨network, _, hnetwork, h⟩ := Reader.bind_apply_eq_ok_iff.mp h
  obtain ⟨chain, _, hchain, h⟩ := Reader.bind_apply_eq_ok_iff.mp h
  obtain ⟨payload, _, hpayload, h⟩ := Reader.bind_apply_eq_ok_iff.mp h
  obtain ⟨hmake, rfl⟩ := Reader.lift_apply_eq_ok_iff.mp h
  obtain ⟨rfl, hm, rfl⟩ := (make_eq_ok_iff ..).mp hmake
  rw [Reader.yields_u32 _ _ _ hnetwork, Reader.yields_fixed 32 _ _ _ hchain,
    Reader.yields_counted _ _ _ hpayload, body, hm]
  simp only [encoding, List.flatMap_cons, List.flatMap_nil, List.append_nil, List.append_assoc,
    Field.bytes]

/-- A message is read from its encoding only. -/
theorem parse_eq_ok_iff (b : Bytes) (m : Message) :
  parse b = .ok m ↔ m.bytes = b
  := by
  constructor
  · intro h
    rw [eq_of_read_eq_ok yields_reader h, m.bytes_eq]
  · rintro rfl
    apply m.parse_bytes

/-- The network, the chain and the payload of a message. -/
def fields (m : Message) : UInt32 × Id × Bytes := (m.network, m.chain, m.payload)

/-- The format of messages is canonical. -/
theorem isCanonical :
  IsCanonical (fun x => make x.1 x.2.1 x.2.2) fields bytes parse
  := by
  apply isCanonical_of_parse_iff _ parse_eq_ok_iff length_bytes_le
  rintro ⟨network, chain, payload⟩ m
  rw [make_eq_ok_iff, fields, Prod.mk_inj, Prod.mk_inj]

/-- Messages with different encodings have different names, as long as the encodings have
different digests. -/
theorem id_eq_iff {s : Set Message} (h : Set.InjOn sha256 (bytes '' s)) {m m' : Message}
    (hm : m ∈ s) (hm' : m' ∈ s) :
  m.id = m'.id ↔ m.bytes = m'.bytes
  := by
  rw [id, id, Id.mk.injEq]
  apply h.eq_iff (Set.mem_image_of_mem bytes hm) (Set.mem_image_of_mem bytes hm')

end Message

namespace SignedMessage

/-- The reader of a signature makes it of its fields. -/
theorem yields_signatureReader :
  signatureReader.Yields fun p => encoding (signatureFields p.1 p.2)
  := by
  rintro b ⟨signers, signature⟩ rest h
  obtain ⟨tag, _, htag, h⟩ := Reader.bind_apply_eq_ok_iff.mp h
  split at h
  · cases h
  · next hzero =>
    obtain ⟨c, _, hc, h⟩ := Reader.bind_apply_eq_ok_iff.mp h
    obtain ⟨s, _, hs, h⟩ := Reader.bind_apply_eq_ok_iff.mp h
    obtain ⟨x, _, hx, h⟩ := Reader.bind_apply_eq_ok_iff.mp h
    cases h
    obtain ⟨hsigners, rfl⟩ := Reader.lift_apply_eq_ok_iff.mp hs
    rw [Reader.yields_u32 _ _ _ htag, not_not.mp hzero, Reader.yields_counted _ _ _ hc,
      Reader.yields_fixed 96 _ _ _ hx, ← (Signers.ofBytes_eq_ok_iff c _).mp hsigners]
    simp only [encoding, signatureFields, List.flatMap_cons, List.flatMap_nil, List.append_nil,
      List.append_assoc, Field.bytes]

/-- The reader of a signed message makes it of the message and the fields of the signature. -/
theorem yields_reader :
  reader.Yields fun p => p.1.body ++ encoding (signatureFields p.2.1 p.2.2)
  := by
  rintro b ⟨m, signers, signature⟩ rest h
  obtain ⟨_, _, hm, h⟩ := Reader.bind_apply_eq_ok_iff.mp h
  obtain ⟨_, _, hp, h⟩ := Reader.bind_apply_eq_ok_iff.mp h
  cases h
  rw [Message.yields_reader _ _ _ hm, yields_signatureReader _ _ _ hp, List.append_assoc]

/-- A signed message is read from its encoding only. -/
theorem parse_eq_ok_iff (b : Bytes) (m : SignedMessage) :
  parse b = .ok m ↔ m.bytes = b
  := by
  constructor
  · intro h
    rw [parse] at h
    split at h
    · next message signers signature hread =>
      obtain ⟨rfl, rfl, rfl⟩ := (make_eq_ok_iff ..).mp h
      rw [eq_of_read_eq_ok yields_reader hread, m.bytes_eq]
    · cases h
  · rintro rfl
    apply m.parse_bytes

/-- The message, the signers and the signature of a signed message. -/
def fields (m : SignedMessage) : Message × Signers × FixedBytes 96 :=
  (m.message, m.signers, m.signature)

/-- The format of signed messages is canonical. -/
theorem isCanonical :
  IsCanonical (fun x => make x.1 x.2.1 x.2.2) fields bytes parse
  := by
  apply isCanonical_of_parse_iff _ parse_eq_ok_iff length_bytes_le
  rintro ⟨message, signers, signature⟩ m
  rw [make_eq_ok_iff, fields, Prod.mk_inj, Prod.mk_inj]

/-- The formats of messages and of signed messages are canonical, and among messages whose
encodings have different digests the names tell apart exactly those that differ in the network,
the chain or the payload, whoever signed them. -/
theorem formats_canonical :
  IsCanonical (fun x => Message.make x.1 x.2.1 x.2.2) Message.fields Message.bytes
    Message.parse ∧
  IsCanonical (fun x => make x.1 x.2.1 x.2.2) fields bytes parse ∧
  ∀ s : Set Message, Set.InjOn sha256 (Message.bytes '' s) →
    (∀ m ∈ s, ∀ m' ∈ s, m.id = m'.id ↔ m.fields = m'.fields) ∧
    ∀ m m' : SignedMessage, m.message ∈ s → m'.message ∈ s →
      (m.id = m'.id ↔ m.message.fields = m'.message.fields)
  := by
  have hids (s : Set Message) (h : Set.InjOn sha256 (Message.bytes '' s)) :
      ∀ m ∈ s, ∀ m' ∈ s, m.id = m'.id ↔ m.fields = m'.fields := by
    intro m hm m' hm'
    rw [Message.id_eq_iff h hm hm', Message.isCanonical.bytes_eq_iff]
  use Message.isCanonical, isCanonical
  intro s h
  use hids s h
  intro m m' hm hm'
  exact hids s h m.message hm m'.message hm'

end SignedMessage

end Interchain
