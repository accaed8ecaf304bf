/-!
# Quoted characters

`quoteChar c` shows a character between single quotes, with an escape where the
character itself would not be seen.
-/

namespace Interchain

/-- The hexadecimal digits of `n`, without leading zeros. -/
def hexNumeral (n : Nat) : String := String.ofList (Nat.toDigits 16 n)

/-- Whether a character below `U+0100` is shown as it is. -/
def isVisible (c : Char) : Bool :=
  (0x20 ≤ c.toNat && c.toNat < 0x7f) || (0xa0 < c.toNat && c.toNat ≠ 0xad)

/-- A character below `U+0100` between single quotes. -/
def quoteChar (c : Char) : String :=
  let inner :=
    match c with
    | '\x00' => "\\0"
    | '\t' => "\\t"
    | '\n' => "\\n"
    | '\r' => "\\r"
    | '\'' => "\\'"
    | '\\' => "\\\\"
    | c => if isVisible c then c.toString else "\\u\x7b" ++ hexNumeral c.toNat ++ "\x7d"
  "'" ++ inner ++ "'"

end Interchain
