import Interchain.Ledger.Error

/-!
# The price of computation

Prices are natural numbers; a price for which 64 bits are too few is an error.
-/

namespace Interchain

namespace Gas

/-- The price as it is, if it fits in 64 bits. -/
def checked (price : Nat) : Except ChainError Nat :=
  if price < UInt64.size then .ok price else .error .gasOverflow

/-- The price of any transaction. -/
def transaction : Nat := 21000

/-- The price of asking for the name of the chain. -/
def chainName : Nat := 2

/-- The price of reading where there is no message. -/
def readBase : Nat := 2

/-- The price of verifying a predicate of the given size and number of signers. -/
def predicate (size signers : Nat) : Except ChainError Nat :=
  checked (200000 + 100 * size + 500 * signers)

/-- The price of sending a payload of the given size. -/
def send (size : Nat) : Except ChainError Nat := checked (41500 + 8 * size)

/-- The price of reading a verified message of the given size. -/
def read (size : Nat) : Except ChainError Nat := checked (readBase + 100 * size)

/-- Whether a price is within a limit. -/
def charge (required limit : Nat) : Except ChainError Unit :=
  if limit < required then .error (.outOfGas required limit) else .ok ()

end Gas

end Interchain
