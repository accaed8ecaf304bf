import Interchain.Identifier
import Interchain.Proofs.HexText

/-!
# Texts that denote names

A name is read from the digits that a text has behind its marks.  `Identifier.Remains` says what is
left of a text behind marks that may stand there or not, and `Identifier.IsReadFrom` which texts
denote a name and what is wrong with the others.  `Identifier.parse_decides` says so of the names of
chains, of nodes and of accounts, which differ in their marks and in whether case matters for these.
-/

namespace Interchain

namespace Identifier

/-! ### Marks -/

/-- What is left of a text behind marks, each of which may stand there or not.  A mark that comes
once more is left. -/
inductive Remains : List String → Bytes → Bytes → Prop where
  | nil (text : Bytes) : Remains [] text text
  | marked {mark : String} {marks : List String} {text rest : Bytes}
      (h : Remains marks text rest) : Remains (mark :: marks) (Bytes.ofText mark ++ text) rest
  | unmarked {mark : String} {marks : List String} {text rest : Bytes}
      (hmark : ¬ Bytes.ofText mark <+: text) (h : Remains marks text rest) :
    Remains (mark :: marks) text rest

theorem dropMark_append (mark text : Bytes) :
  dropMark mark (mark ++ text) = text
  := by
  have hprefix : mark.isPrefixOf (mark ++ text) = true :=
    List.isPrefixOf_iff_prefix.mpr (List.prefix_append mark text)
  rw [dropMark, if_pos hprefix, List.drop_left]

theorem dropMark_eq_self {mark text : Bytes} (h : ¬ mark <+: text) :
  dropMark mark text = text
  := by rw [dropMark, if_neg (mt List.isPrefixOf_iff_prefix.mp h)]

theorem remains_nil_iff (text rest : Bytes) :
  Remains [] text rest ↔ text = rest
  := by
  constructor
  · rintro ⟨⟩
    rfl
  · rintro rfl
    exact .nil text

/-- A mark is dropped before the others. -/
theorem remains_cons_iff (mark : String) (marks : List String) (text rest : Bytes) :
  Remains (mark :: marks) text rest ↔ Remains marks (dropMark (Bytes.ofText mark) text) rest
  := by
  constructor
  · rintro (_ | h | ⟨hmark, h⟩)
    · rwa [dropMark_append]
    · rwa [dropMark_eq_self hmark]
  · intro h
    by_cases hmark : Bytes.ofText mark <+: text
    · obtain ⟨text, rfl⟩ := hmark
      rw [dropMark_append] at h
      exact .marked h
    · rw [dropMark_eq_self hmark] at h
      exact .unmarked hmark h

theorem hexMark_eq :
  hexMark = Bytes.ofText "0x"
  := by
  rw [Bytes.ofText_eq]
  rfl

theorem nodeMark_eq :
  nodeMark = Bytes.ofText "NodeID-"
  := by
  rw [Bytes.ofText_eq]
  rfl

/-- The mark of hexadecimal text has a letter that is no digit. -/
theorem not_hexMark_prefix_digits (b : Bytes) :
  ¬ Bytes.ofText "0x" <+: Hex.digits b
  := by
  rw [← hexMark_eq]
  rintro ⟨rest, h⟩
  have hmem : 0x78 ∈ Hex.digits b := by
    rw [← h]
    simp [hexMark]
  obtain ⟨v, hv⟩ := (Hex.spells_digits b).exists_isDigit _ hmem
  simp only [Hex.isDigit_iff, UInt8.reduceToNat] at hv
  omega

/-! ### Case -/

theorem lowerCase_eq (c : UInt8) :
  lowerCase c = if 65 ≤ c.toNat ∧ c.toNat ≤ 90 then c + 32 else c
  := by
  simp only [lowerCase, Bool.and_eq_true, decide_eq_true_eq, UInt8.le_iff_toNat_le,
    UInt8.reduceToNat]

/-- The digits that are written are in lower case. -/
theorem map_lowerCase_digits (b : Bytes) :
  (Hex.digits b).map lowerCase = Hex.digits b
  := by
  have hdigit : ∀ c ∈ Hex.digits b, lowerCase c = c := by
    intro c hc
    obtain ⟨n, hn, rfl⟩ := Hex.exists_digit_of_mem_digits hc
    rw [lowerCase_eq, if_neg]
    rw [Hex.toNat_digit hn]
    split
    · omega
    · omega
  rw [List.map_congr_left hdigit, List.map_id']

/-- All bytes of a character from `U+0080` on are at least `0x80`. -/
theorem le_toNat_of_mem_utf8EncodeChar {c : Char} (h : 128 ≤ c.toNat) :
  ∀ x ∈ String.utf8EncodeChar c, 128 ≤ x.toNat
  := by
  have hval : c.val.toNat = c.toNat := rfl
  intro x hx
  simp only [String.utf8EncodeChar, hval] at hx
  -- a leading byte and others, each a constant from 128 on with some bits of the character
  split_ifs at hx
  · omega
  · simp only [List.mem_cons, List.not_mem_nil, or_false] at hx
    obtain rfl | rfl := hx <;> rw [UInt8.toNat_ofNat'] <;> omega
  · simp only [List.mem_cons, List.not_mem_nil, or_false] at hx
    obtain rfl | rfl | rfl := hx <;> rw [UInt8.toNat_ofNat'] <;> omega
  · simp only [List.mem_cons, List.not_mem_nil, or_false] at hx
    obtain rfl | rfl | rfl | rfl := hx <;> rw [UInt8.toNat_ofNat'] <;> omega

/-- Letters below `U+0080` are put in lower case byte by byte. -/
theorem utf8EncodeChar_toLower (c : Char) :
  String.utf8EncodeChar c.toLower = (String.utf8EncodeChar c).map lowerCase
  := by
  have hupper : c.isUpper = true ↔ 65 ≤ c.toNat ∧ c.toNat ≤ 90 := by
    simp only [Char.isUpper, decide_eq_true_eq, ge_iff_le, UInt32.le_iff_toNat_le]
    exact Iff.rfl
  obtain hlt | hle := Nat.lt_or_ge c.toNat 128
  · have hbyte : (UInt8.ofNat c.toNat).toNat = c.toNat :=
      UInt8.toNat_ofNat_of_lt' (Nat.lt_trans hlt (by decide))
    rw [Bytes.utf8EncodeChar_of_lt hlt, List.map_singleton, lowerCase_eq, hbyte]
    split
    · next h =>
      have hchar : (Char.ofNat (c.toNat + 32)).toNat = c.toNat + 32 := by
        rw [Char.toNat_ofNat, if_pos (.inl (by omega))]
      rw [Char.toLower_eq_of_isUpper (hupper.mpr h),
        Bytes.utf8EncodeChar_of_lt (by rw [hchar]; omega), hchar, UInt8.ofNat_add]
      rfl
    · next h =>
      rw [Char.toLower_eq_of_not_isUpper (mt hupper.mp h), Bytes.utf8EncodeChar_of_lt hlt]
  · have hhigh : ∀ x ∈ String.utf8EncodeChar c, lowerCase x = x := by
      intro x hx
      have hx := le_toNat_of_mem_utf8EncodeChar hle x hx
      rw [lowerCase_eq, if_neg (by omega)]
    rw [Char.toLower_eq_of_not_isUpper (by rw [hupper]; omega), List.map_congr_left hhigh,
      List.map_id']

/-- A text is put in lower case byte by byte. -/
theorem ofText_toLower (s : String) :
  Bytes.ofText s.toLower = (Bytes.ofText s).map lowerCase
  := by
  rw [Bytes.ofText_eq, Bytes.ofText_eq, String.toLower, String.toList_map, List.flatMap_map,
    List.map_flatMap]
  apply List.flatMap_congr
  intro c _
  apply utf8EncodeChar_toLower

/-! ### Decoding -/

theorem ofBytes_eq (n : Nat) (b : Bytes) :
  ofBytes n b
    = if h : b.length = n then .ok ⟨b, h⟩ else .error (.wrongLength n b.length)
  := by
  rw [ofBytes, FixedBytes.ofBytes?]
  by_cases h : b.length = n
  · rw [dif_pos h, dif_pos h]
  · rw [dif_neg h, dif_neg h]

section Decoding

variable {n : Nat} {text : Bytes}

/-- A name is decoded from the digits that spell it. -/
theorem decode_eq_ok_iff (x : FixedBytes n) :
  decode n text = .ok x ↔ Hex.Spells (dropMark hexMark text) x.bytes
  := by
  rw [← Hex.decode_eq_ok_iff, decode]
  cases Hex.decode (dropMark hexMark text) with
  | error e => exact ⟨nofun, nofun⟩
  | ok b =>
      dsimp only
      rw [ofBytes_eq, Except.ok.injEq]
      constructor
      · intro h
        split at h
        · cases h
          rfl
        · cases h
      · rintro rfl
        rw [dif_pos x.length_eq]

/-- What is wrong with the digits is reported as it is. -/
theorem decode_eq_malformed_iff (reason : String) :
  decode n text = .error (.malformed reason)
    ↔ ∃ e, Hex.Faults (dropMark hexMark text) e ∧ reason = e.message
  := by
  simp only [← Hex.decode_eq_error_iff, decode]
  cases Hex.decode (dropMark hexMark text) with
  | error e => simp [eq_comm]
  | ok b =>
      dsimp only
      rw [ofBytes_eq]
      split
      · simp
      · simp

/-- Digits that spell too few or too many bytes are reported with the number of these. -/
theorem decode_eq_wrongLength_iff (expected actual : Nat) :
  decode n text = .error (.wrongLength expected actual)
    ↔ expected = n ∧ actual ≠ n ∧
        ∃ b, Hex.Spells (dropMark hexMark text) b ∧ b.length = actual
  := by
  simp only [← Hex.decode_eq_ok_iff, decode]
  cases Hex.decode (dropMark hexMark text) with
  | error e => simp
  | ok b =>
      dsimp only
      rw [ofBytes_eq]
      split
      · next h =>
        simp only [reduceCtorEq, Except.ok.injEq, exists_eq_left', false_iff]
        rintro ⟨-, hne, rfl⟩
        exact hne h
      · next h =>
        simp only [Except.error.injEq, IdentifierError.wrongLength.injEq, Except.ok.injEq,
          exists_eq_left']
        constructor
        · rintro ⟨rfl, rfl⟩
          exact ⟨rfl, h, rfl⟩
        · rintro ⟨rfl, -, rfl⟩
          exact ⟨rfl, rfl⟩

end Decoding

/-! ### Names -/

/-- Names of `n` bytes are read from the digits that a text, prepared in some way, has behind some
marks. -/
structure IsReadFrom {α : Type} {n : Nat} (name : α → FixedBytes n) (marks : List String)
    (prepare : String → String) (text : α → String) (parse : String → Except IdentifierError α) :
    Prop where
  parse_text : ∀ x, parse (text x) = .ok x
  /-- A text denotes a name if what remains of it are the digits, two for each byte, that spell
  the name. -/
  ok_iff : ∀ s x, parse s = .ok x ↔
    ∃ rest, Remains marks (Bytes.ofText (prepare s)) rest ∧ rest.length = 2 * n ∧
      Hex.Spells rest (name x).bytes
  /-- A text is malformed if an odd number of bytes remains, or a byte that is no digit. -/
  exists_malformed_iff : ∀ s, (∃ reason, parse s = .error (.malformed reason)) ↔
    ∃ rest, Remains marks (Bytes.ofText (prepare s)) rest ∧
      (rest.length % 2 = 1 ∨ ∃ c ∈ rest, ∀ v, ¬ Hex.IsDigit c v)
  /-- The number of bytes is looked at first, and then the first byte that is no digit. -/
  malformed_iff : ∀ s reason, parse s = .error (.malformed reason) ↔
    ∃ rest e, Remains marks (Bytes.ofText (prepare s)) rest ∧ Hex.Faults rest e ∧
      reason = e.message
  /-- In all other cases digits remain that spell too few or too many bytes, and their number is
  told. -/
  wrongLength_iff : ∀ s expected actual, parse s = .error (.wrongLength expected actual) ↔
    expected = n ∧ actual ≠ n ∧
      ∃ rest b, Remains marks (Bytes.ofText (prepare s)) rest ∧ Hex.Spells rest b ∧
        b.length = actual

/-- Names are read from texts if they are decoded from what is behind all marks but the last one. -/
theorem isReadFrom_of_decode {α : Type} {n : Nat} {make : FixedBytes n → α}
    {name : α → FixedBytes n} {marks : List String} {prepare : String → String}
    {text : α → String} {parse : String → Except IdentifierError α} {behind : String → Bytes}
    (hmake : ∀ b x, make b = x ↔ b = name x)
    (hparse : ∀ s, parse s = make <$> decode n (behind s))
    (hremains : ∀ s rest, Remains marks (Bytes.ofText (prepare s)) rest
      ↔ dropMark hexMark (behind s) = rest)
    (htext : ∀ x, dropMark hexMark (behind (text x)) = Hex.digits (name x).bytes) :
  IsReadFrom name marks prepare text parse
  := by
  have hok (s : String) (x : α) : parse s = .ok x
      ↔ Hex.Spells (dropMark hexMark (behind s)) (name x).bytes := by
    rw [hparse, map_eq_ok_iff, ← decode_eq_ok_iff]
    simp only [hmake, exists_eq_right]
  have hmalformed (s : String) (reason : String) : parse s = .error (.malformed reason)
      ↔ ∃ e, Hex.Faults (dropMark hexMark (behind s)) e ∧ reason = e.message := by
    rw [hparse, map_eq_error_iff, decode_eq_malformed_iff]
  constructor
  case parse_text =>
    intro x
    rw [hok, htext]
    apply Hex.spells_digits
  case ok_iff =>
    intro s x
    simp only [hremains, exists_eq_left', hok]
    constructor
    · intro h
      have hlength := h.length_eq
      rw [(name x).length_eq] at hlength
      exact ⟨hlength, h⟩
    · exact And.right
  case exists_malformed_iff =>
    intro s
    simp only [hremains, exists_eq_left', hmalformed, ← Hex.exists_faults_iff]
    constructor
    · rintro ⟨-, e, he, -⟩
      exact ⟨e, he⟩
    · rintro ⟨e, he⟩
      exact ⟨e.message, e, he, rfl⟩
  case malformed_iff =>
    intro s reason
    simp only [hremains, hmalformed, exists_and_left, exists_eq_left']
  case wrongLength_iff =>
    intro s expected actual
    rw [hparse, map_eq_error_iff, decode_eq_wrongLength_iff]
    simp only [hremains, exists_and_left, exists_eq_left']

theorem remains_hexMark_iff (text rest : Bytes) :
  Remains ["0x"] text rest ↔ dropMark hexMark text = rest
  := by rw [remains_cons_iff, remains_nil_iff, hexMark_eq]

theorem dropMark_hexMark_digits (b : Bytes) :
  dropMark hexMark (Hex.digits b) = Hex.digits b
  := by
  apply dropMark_eq_self
  rw [hexMark_eq]
  apply not_hexMark_prefix_digits

/-- What a text has behind its marks decides which chain, node or account it denotes, or why it
denotes none.  The name of a node has a mark of its own before that of hexadecimal text, and case
does not matter for the mark of an account's name. -/
theorem parse_decides :
  IsReadFrom Id.toFixedBytes ["0x"] id Id.text Id.parse ∧
  IsReadFrom NodeId.toFixedBytes ["NodeID-", "0x"] id NodeId.text NodeId.parse ∧
  IsReadFrom Address.toFixedBytes ["0x"] String.toLower Address.text Address.parse
  := by
  refine ⟨?id, ?node, ?address⟩
  case id =>
    have hmake (b : FixedBytes 32) (i : Id) : Id.mk b = i ↔ b = i.toFixedBytes :=
      ⟨congrArg Id.toFixedBytes, congrArg Id.mk⟩
    apply isReadFrom_of_decode hmake (fun s => rfl)
    · intro s rest
      apply remains_hexMark_iff
    · intro i
      rw [Id.text, Hex.ofText_encode, dropMark_hexMark_digits]
  case node =>
    have hmake (b : FixedBytes 20) (x : NodeId) : NodeId.mk b = x ↔ b = x.toFixedBytes :=
      ⟨congrArg NodeId.toFixedBytes, congrArg NodeId.mk⟩
    apply isReadFrom_of_decode hmake (fun s => rfl)
    · intro s rest
      rw [remains_cons_iff, remains_hexMark_iff, nodeMark_eq]
      rfl
    · intro x
      have htext : x.text = "NodeID-" ++ Hex.encode x.bytes := rfl
      rw [htext, Bytes.ofText_append, ← nodeMark_eq, dropMark_append, Hex.ofText_encode,
        dropMark_hexMark_digits]
  case address =>
    have hmake (b : FixedBytes 20) (a : Address) : Address.mk b = a ↔ b = a.toFixedBytes :=
      ⟨congrArg Address.toFixedBytes, congrArg Address.mk⟩
    apply isReadFrom_of_decode hmake (fun s => rfl)
    · intro s rest
      rw [ofText_toLower]
      apply remains_hexMark_iff
    · intro a
      have htext : a.text = "0x" ++ Hex.encode a.bytes := rfl
      have hmark : hexMark.map lowerCase = hexMark := rfl
      rw [htext, Bytes.ofText_append, ← hexMark_eq, List.map_append, hmark, dropMark_append,
        Hex.ofText_encode, map_lowerCase_digits]

end Identifier

end Interchain
