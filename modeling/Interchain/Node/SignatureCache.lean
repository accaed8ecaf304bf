import Interchain.Identifier
import Interchain.Table

/-!
# Kept signatures

A cache keeps signatures by the names of messages, and lets go of those that were put in
first when there are too many.  Putting in another signature for a name that is present
does not change the order.
-/

namespace Interchain

/-- Signatures by the names of messages. -/
structure SignatureCache where
  /-- The number of signatures that are kept. -/
  capacity : Nat
  capacity_pos : 0 < capacity
  /-- The signatures that are kept. -/
  entries : Table Id (FixedBytes 96) := {}
  /-- The names in the order in which they were put in. -/
  order : List Id := []

namespace SignatureCache

/-- A cache that keeps so many signatures, and at least one. -/
def ofCapacity (n : Nat) : SignatureCache := { capacity := max 1 n, capacity_pos := by omega }

/-- The signature kept for a name. -/
def get? (c : SignatureCache) (name : Id) : Option (FixedBytes 96) := c.entries.get? name

/-- What is left when the first names in the order are let go of, as long as there are more than
so many. -/
def evict (capacity : Nat) :
    (order : List Id) → Table Id (FixedBytes 96) → List Id × Table Id (FixedBytes 96)
  | [], entries => ([], entries)
  | name :: rest, entries =>
    if capacity < rest.length + 1 then evict capacity rest (entries.erase name)
    else (name :: rest, entries)

/-- The cache with a signature for a name. -/
def put (c : SignatureCache) (name : Id) (signature : FixedBytes 96) : SignatureCache :=
  let entries := c.entries.put name signature
  if (c.get? name).isSome then { c with entries }
  else
    let (order, entries) := evict c.capacity (c.order ++ [name]) entries
    { c with order, entries }

end SignatureCache

end Interchain
