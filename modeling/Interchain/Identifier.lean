import Interchain.Text.Hex

/-!
# Identifiers

Chains, subnets, messages and blocks are named by 32 bytes, nodes and accounts by 20.
Each kind of name is written in hexadecimal behind a mark of its own; `parse` reads the
written form, the mark being optional, in either case.
-/

namespace Interchain

/-- The name of a chain, a subnet, a message or a block. -/
structure Id extends FixedBytes 32
deriving DecidableEq

/-- The name of a node. -/
structure NodeId extends FixedBytes 20
deriving DecidableEq

/-- The name of an account. -/
structure Address extends FixedBytes 20
deriving DecidableEq

/-- What is wrong with a text or byte string that names nothing. -/
inductive IdentifierError where
  | wrongLength (expected actual : Nat)
  | malformed (reason : String)
deriving DecidableEq

/-- The wording of an error. -/
def IdentifierError.message : IdentifierError → String
  | wrongLength expected actual => s!"Invalid length: expected {expected} bytes, got {actual}"
  | malformed reason => s!"Invalid hex: {reason}"

namespace Identifier

/-- The text without the mark, if the text starts with it. -/
def dropMark (mark text : Bytes) : Bytes :=
  if mark.isPrefixOf text then text.drop mark.length else text

/-- The byte string as one of length `n`. -/
def ofBytes (n : Nat) (b : Bytes) : Except IdentifierError (FixedBytes n) :=
  match FixedBytes.ofBytes? n b with
  | some x => .ok x
  | none => .error (.wrongLength n b.length)

/-- The mark of hexadecimal text. -/
def hexMark : Bytes := [0x30, 0x78]

/-- The mark of a node's name. -/
def nodeMark : Bytes := [0x4e, 0x6f, 0x64, 0x65, 0x49, 0x44, 0x2d]

/-- The `n` bytes that hexadecimal text denotes. -/
def decode (n : Nat) (text : Bytes) : Except IdentifierError (FixedBytes n) :=
  match Hex.decode (dropMark hexMark text) with
  | .error e => .error (.malformed e.message)
  | .ok b => ofBytes n b

/-- The byte, in lower case if it is an ASCII letter. -/
def lowerCase (c : UInt8) : UInt8 := if 65 ≤ c && c ≤ 90 then c + 32 else c

end Identifier

namespace Id

/-- The name of 32 zero bytes. -/
def zero : Id := ⟨.replicate 32 0⟩

instance : Inhabited Id := ⟨zero⟩

/-- The name with the given bytes. -/
def ofBytes (b : Bytes) : Except IdentifierError Id := Id.mk <$> Identifier.ofBytes 32 b

/-- The name that a text denotes. -/
def parse (s : String) : Except IdentifierError Id :=
  Id.mk <$> Identifier.decode 32 (Bytes.ofText s)

/-- The written form. -/
def text (i : Id) : String := Hex.encode i.bytes

/-- The written form, marked as that of an identifier. -/
def debugText (i : Id) : String := s!"Id({i.text})"

/-- The subnet of the primary network. -/
def primaryNetwork : Id := zero

end Id

namespace NodeId

instance : Inhabited NodeId := ⟨⟨default⟩⟩

/-- The name with the given bytes. -/
def ofBytes (b : Bytes) : Except IdentifierError NodeId := NodeId.mk <$> Identifier.ofBytes 20 b

/-- The name that a text denotes. -/
def parse (s : String) : Except IdentifierError NodeId :=
  NodeId.mk <$> Identifier.decode 20 (Identifier.dropMark Identifier.nodeMark (Bytes.ofText s))

/-- The written form. -/
def text (n : NodeId) : String := s!"NodeID-{Hex.encode n.bytes}"

/-- Whether one name comes before another or is the same. -/
def precedes (m n : NodeId) : Bool := m.bytes.precedes n.bytes

end NodeId

namespace Address

/-- The name of 20 zero bytes. -/
def zero : Address := ⟨.replicate 20 0⟩

instance : Inhabited Address := ⟨zero⟩

/-- The name with the given bytes. -/
def ofBytes (b : Bytes) : Except IdentifierError Address :=
  Address.mk <$> Identifier.ofBytes 20 b

/-- The name that a text denotes. -/
def parse (s : String) : Except IdentifierError Address :=
  Address.mk <$> Identifier.decode 20 ((Bytes.ofText s).map Identifier.lowerCase)

/-- The written form. -/
def text (a : Address) : String := s!"0x{Hex.encode a.bytes}"

/-- The written form, marked as that of an address. -/
def debugText (a : Address) : String := s!"Address({a.text})"

/-- The name behind twelve zero bytes. -/
def toWord (a : Address) : FixedBytes 32 :=
  ⟨Bytes.zeros 12 ++ a.bytes, by simp [Bytes.zeros, a.length_eq]⟩

end Address

end Interchain
