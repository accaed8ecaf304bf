import Interchain.Proofs.Canonicity

/-!
# Encodings cut short or continued

An encoding says itself where it ends.  If it breaks off earlier, reading it ends inside a field,
and whatever is put behind it is noticed: `Wire.IsSelfDelimiting` says so of a format, and
`SignedMessage.formats_selfDelimiting` of the formats of messages, signed messages and payloads.

What the readers of the formats contribute to this is `Wire.Reader.Delimits`.
-/

namespace Interchain

namespace Wire

/-- A format is self-delimiting.  What breaks off before the end of an encoding is refused because
it ends inside a field, and an encoding with more bytes behind it because of these, or of its size
if this exceeds the limit. -/
structure IsSelfDelimiting {α β : Type} (bytes : α → Bytes)
    (parse : Bytes → Except MessageError β) : Prop where
  truncated : ∀ a cut, cut <+: bytes a → cut ≠ bytes a → Reader.IsTruncated (parse cut)
  continued : ∀ a rest, rest ≠ [] →
    parse (bytes a ++ rest)
      = .error (if (bytes a ++ rest).length ≤ maxSize then .trailingBytes rest.length
          else .tooLarge (bytes a ++ rest).length maxSize)

/-- A format is self-delimiting if its encodings are the version with something that the reader
delimits, and parsing fails whenever reading does. -/
theorem isSelfDelimiting_of_delimits {α β γ : Type} {bytes body : α → Bytes}
    {parse : Bytes → Except MessageError β} {r : Reader γ} {value : α → γ}
    (hbytes : ∀ a, bytes a = header.bytes ++ body a) (hlength : ∀ a, (bytes a).length ≤ maxSize)
    (hr : ∀ a, r.Delimits (body a) (value a))
    (hparse : ∀ b e, read r b = .error e → parse b = .error e) :
  IsSelfDelimiting bytes parse
  := by
  constructor
  case truncated =>
    intro a cut hcut hne
    have hb := hlength a
    rw [hbytes] at hb hcut hne
    obtain ⟨needed, remaining, hlt, hread⟩ := isTruncated_read (hr a) hb hcut hne
    use needed, remaining, hlt, hparse _ _ hread
  case continued =>
    intro a rest hrest
    rw [hbytes]
    apply hparse
    apply read_append (hr a).consumes hrest

end Wire

open Wire

/-! ### The formats -/

namespace Payload

/-- Payloads are self-delimiting, however parsing fails whenever that of a payload does. -/
theorem isSelfDelimiting {α : Type} {parse' : Bytes → Except MessageError α}
    (h : ∀ b e, parse b = .error e → parse' b = .error e) :
  IsSelfDelimiting bytes parse'
  := isSelfDelimiting_of_delimits bytes_eq length_bytes_le delimits_reader h

end Payload

namespace Message

theorem isSelfDelimiting :
  IsSelfDelimiting bytes parse
  := isSelfDelimiting_of_delimits bytes_eq length_bytes_le delimits_reader fun _ _ h => h

end Message

namespace SignedMessage

theorem isSelfDelimiting :
  IsSelfDelimiting bytes parse
  := by
  apply isSelfDelimiting_of_delimits bytes_eq length_bytes_le delimits_reader
  intro b e h
  rw [SignedMessage.parse, h]

/-- A signed message is no message: the signature is left behind the end. -/
theorem parse_message_bytes (m : SignedMessage) :
  Message.parse m.bytes = .error (.trailingBytes (m.signers.bytes.length + 104))
  := by
  have hbytes : m.bytes
      = m.message.bytes ++ encoding (signatureFields m.signers m.signature) :=
    ((write_eq_ok_iff _ _ _).mp m.written).2.2
  have hlength := congrArg List.length hbytes
  rw [m.length_bytes, List.length_append, Nat.add_assoc, Nat.add_left_cancel_iff] at hlength
  have hle := m.length_bytes_le
  rw [hbytes] at hle ⊢
  rw [Message.isSelfDelimiting.continued, if_pos hle, ← hlength]
  intro hnil
  rw [hnil, List.length_nil] at hlength
  omega

/-- A message is no signed message: it ends where the signature should begin. -/
theorem parse_bytes_message (m : Message) :
  parse m.bytes = .error (.truncated 4 0)
  := by
  have hread : read reader m.bytes = .error (.truncated 4 0) := by
    have hmessage := m.delimits_reader.consumes []
    rw [List.append_nil] at hmessage
    rw [Wire.read, if_neg (Nat.not_lt_of_le m.length_bytes_le)]
    dsimp only
    rw [m.bytes_eq, Reader.bind_apply_of_ok (Reader.delimits_header.consumes m.body)]
    apply Reader.bind_apply_of_error
    rw [reader, Reader.bind_apply_of_ok hmessage]
    rfl
  rw [parse, hread]

/-- The formats of messages, of signed messages and of payloads of both kinds are self-delimiting,
and no byte string is both a message and a signed one. -/
theorem formats_selfDelimiting :
  IsSelfDelimiting Message.bytes Message.parse ∧
  IsSelfDelimiting bytes parse ∧
  IsSelfDelimiting Payload.bytes Payload.parse ∧
  IsSelfDelimiting Payload.bytes Payload.parseBlockHash ∧
  IsSelfDelimiting Payload.bytes Payload.parseCall ∧
  (∀ m : SignedMessage,
    Message.parse m.bytes = .error (.trailingBytes (m.signers.bytes.length + 104))) ∧
  ∀ m : Message, parse m.bytes = .error (.truncated 4 0)
  := by
  refine ⟨Message.isSelfDelimiting, isSelfDelimiting, Payload.isSelfDelimiting fun _ _ h => h, ?_,
    ?_, parse_message_bytes, parse_bytes_message⟩
  · apply Payload.isSelfDelimiting
    intro b e h
    rw [Payload.parseBlockHash, h]
  · apply Payload.isSelfDelimiting
    intro b e h
    rw [Payload.parseCall, h]

end SignedMessage

end Interchain
