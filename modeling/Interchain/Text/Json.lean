/-!
# Structured text

A reader for JSON texts.  Objects keep all their members in order, and integers are kept
apart from other numbers.  A text may hold half of a surrogate pair, but is no text then.
-/

namespace Interchain

/-- A JSON value. -/
inductive JsonValue where
  | null
  | bool (b : Bool)
  /-- A number written with digits only. -/
  | natural (n : Nat)
  /-- A number with a sign, a fraction or an exponent. -/
  | otherNumber
  /-- A text, unless half of a surrogate pair occurs in it. -/
  | text (s : Option String)
  | array (elements : List JsonValue)
  /-- Members with their names, each a text unless half of a surrogate pair occurs in it. -/
  | object (members : List (Option String × JsonValue))

namespace JsonValue

/-- The characters behind blanks. -/
def skipBlanks (s : List Char) : List Char :=
  s.dropWhile fun c => c = ' ' || c = '\n' || c = '\t' || c = '\r'

/-- The characters behind a literal. -/
def literal (word : List Char) (s : List Char) : Option (List Char) :=
  if word.isPrefixOf s then some (s.drop word.length) else none

/-! ### Numbers -/

/-- The digits at the front. -/
def digits (s : List Char) : List Char := s.takeWhile Char.isDigit

/-- At least one digit. -/
def someDigits (s : List Char) : Option (List Char) :=
  if (digits s).isEmpty then none else some (s.drop (digits s).length)

/-- A fraction, if there is one. -/
def fraction (s : List Char) : Option (Bool × List Char) :=
  match s with
  | '.' :: rest => (someDigits rest).map fun rest => (true, rest)
  | s => some (false, s)

/-- An exponent, if there is one. -/
def exponent (s : List Char) : Option (Bool × List Char) :=
  match s with
  | c :: rest =>
    if c = 'e' || c = 'E' then
      let rest :=
        match rest with
        | d :: tail => if d = '+' || d = '-' then tail else rest
        | [] => rest
      (someDigits rest).map fun rest => (true, rest)
    else some (false, s)
  | [] => some (false, s)

/-- A number without its sign. -/
def unsignedNumber (s : List Char) : Option (JsonValue × List Char) := do
  let ds := digits s
  if ds.isEmpty || (ds.head? = some '0' && 1 < ds.length) then none
  let (fractional, rest) ← fraction (s.drop ds.length)
  let (exponential, rest) ← exponent rest
  let n := ds.foldl (fun acc c => acc * 10 + (c.toNat - 48)) 0
  return (if fractional || exponential then otherNumber else natural n, rest)

/-! ### Texts -/

/-- A piece of a text: a character, or a number that an escape gives. -/
inductive Piece where
  | char (c : Char)
  | unit (n : Nat)

/-- The value of a hexadecimal digit. -/
def hexValue? (c : Char) : Option Nat :=
  if c.isDigit then some (c.toNat - 48)
  else if 'a' ≤ c && c ≤ 'f' then some (c.toNat - 87)
  else if 'A' ≤ c && c ≤ 'F' then some (c.toNat - 55)
  else none

/-- The character that a one-letter escape stands for. -/
def escaped? : Char → Option Char
  | '"' => some '"'
  | '\\' => some '\\'
  | '/' => some '/'
  | 'b' => some '\x08'
  | 'f' => some '\x0c'
  | 'n' => some '\n'
  | 'r' => some '\r'
  | 't' => some '\t'
  | _ => none

/-- The pieces up to the closing quote. -/
def pieces : List Char → Option (List Piece × List Char)
  | [] => none
  | '"' :: rest => some ([], rest)
  | '\\' :: 'u' :: a :: b :: c :: d :: rest => do
    let n := (((← hexValue? a) * 16 + (← hexValue? b)) * 16 + (← hexValue? c)) * 16
      + (← hexValue? d)
    let (ps, rest) ← pieces rest
    return (.unit n :: ps, rest)
  | '\\' :: e :: rest => do
    let c ← escaped? e
    let (ps, rest) ← pieces rest
    return (.char c :: ps, rest)
  | c :: rest =>
    if c = '\\' || c.toNat < 0x20 then none
    else do
      let (ps, rest) ← pieces rest
      return (.char c :: ps, rest)

/-- Whether a number is the first half of a surrogate pair. -/
def isHigh (n : Nat) : Bool := 0xd800 ≤ n && n < 0xdc00

/-- Whether a number is the second half of a surrogate pair. -/
def isLow (n : Nat) : Bool := 0xdc00 ≤ n && n < 0xe000

/-- The characters that pieces make up. -/
def assemble : List Piece → Option (List Char)
  | [] => some []
  | .char c :: rest => (assemble rest).map (c :: ·)
  | .unit n :: .unit m :: rest =>
    if isHigh n then
      if isLow m then
        (assemble rest).map (Char.ofNat (0x10000 + (n - 0xd800) * 0x400 + (m - 0xdc00)) :: ·)
      else none
    else if isLow n then none
    else (assemble (.unit m :: rest)).map (Char.ofNat n :: ·)
  | .unit n :: rest =>
    if isHigh n || isLow n then none else (assemble rest).map (Char.ofNat n :: ·)

/-! ### Values -/

mutual

/-- A value, behind blanks. -/
def value : (fuel : Nat) → List Char → Option (JsonValue × List Char)
  | 0, _ => none
  | fuel + 1, s =>
    match skipBlanks s with
    | '"' :: rest => (pieces rest).map fun (ps, rest) =>
      (text ((assemble ps).map String.ofList), rest)
    | '[' :: rest =>
      match skipBlanks rest with
      | ']' :: rest => some (array [], rest)
      | rest => (elements fuel rest).map fun (vs, rest) => (array vs, rest)
    | '{' :: rest =>
      match skipBlanks rest with
      | '}' :: rest => some (object [], rest)
      | rest => (members fuel rest).map fun (ms, rest) => (object ms, rest)
    | '-' :: rest => (unsignedNumber rest).map fun (_, rest) => (otherNumber, rest)
    | 't' :: rest => (literal ['r', 'u', 'e'] rest).map fun rest => (bool true, rest)
    | 'f' :: rest => (literal ['a', 'l', 's', 'e'] rest).map fun rest => (bool false, rest)
    | 'n' :: rest => (literal ['u', 'l', 'l'] rest).map fun rest => (null, rest)
    | s => unsignedNumber s

/-- The elements of an array, up to the closing bracket. -/
def elements : (fuel : Nat) → List Char → Option (List JsonValue × List Char)
  | 0, _ => none
  | fuel + 1, s => do
    let (v, rest) ← value fuel s
    match skipBlanks rest with
    | ']' :: rest => return ([v], rest)
    | ',' :: rest =>
      let (vs, rest) ← elements fuel rest
      return (v :: vs, rest)
    | _ => none

/-- The members of an object, up to the closing brace. -/
def members : (fuel : Nat) → List Char → Option (List (Option String × JsonValue) × List Char)
  | 0, _ => none
  | fuel + 1, s => do
    let '"' :: rest := skipBlanks s | none
    let (ps, rest) ← pieces rest
    let name := (assemble ps).map String.ofList
    let ':' :: rest := skipBlanks rest | none
    let (v, rest) ← value fuel rest
    match skipBlanks rest with
    | '}' :: rest => return ([(name, v)], rest)
    | ',' :: rest =>
      let (ms, rest) ← members fuel rest
      return ((name, v) :: ms, rest)
    | _ => none

end

/-- The value that a whole text denotes. -/
def parse (s : String) : Option JsonValue := do
  let cs := s.toList
  let (v, rest) ← value (2 * cs.length + 2) cs
  if (skipBlanks rest).isEmpty then some v else none

/-! ### Reading values -/

/-- The truth value. -/
def bool? : JsonValue → Option Bool
  | bool b => some b
  | _ => none

/-- The number below `bound`. -/
def natBelow? (bound : Nat) : JsonValue → Option Nat
  | natural n => if n < bound then some n else none
  | _ => none

/-- The bytes in an array of numbers. -/
def bytes? : JsonValue → Option (List UInt8)
  | array vs => vs.mapM fun v => UInt8.ofNat <$> v.natBelow? 256
  | _ => none

/-- The values of the named fields, in the order of the names, each if it is there.  A
record is written as an object, where a field may not come twice, or as an array of its
fields, the last of which may be left out. -/
def fields? (names : List String) : JsonValue → Option (List (Option JsonValue))
  | object ms =>
    if ms.any (·.1.isNone) then none
    else names.mapM fun name =>
      match ms.filter (·.1 = some name) with
      | [] => some none
      | [(_, v)] => some (some v)
      | _ => none
  | array vs =>
    if vs.length ≤ names.length then
      some (vs.map some ++ List.replicate (names.length - vs.length) none)
    else none
  | _ => none

end JsonValue

end Interchain
