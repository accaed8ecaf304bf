import Interchain.Ledger.Error
import Interchain.Ledger.Transaction

/-!
# Predicates in access lists

A predicate travels in the storage keys of an access list.  It is packed with a
delimiter behind it and zeros up to the next whole word, so that its length survives;
unpacking accepts exactly what packing yields.
-/

namespace Interchain

namespace Predicate

/-- The byte behind a predicate. -/
def delimiter : UInt8 := 0xff

/-- The predicate with the delimiter behind it, padded with zeros to whole words. -/
def pack (p : Bytes) : Bytes :=
  p ++ delimiter :: Bytes.zeros (31 - p.length % 32)

/-- The predicate that was packed. -/
def unpack (packed : Bytes) : Except ChainError Bytes :=
  if packed.length % 32 ≠ 0 then .error (.invalidPacking (.brokenWord packed.length))
  else
    match packed.reverse.dropWhile (· == 0) with
    | [] => .error (.invalidPacking .allZero)
    | last :: rest =>
      if last ≠ delimiter then .error (.invalidPacking (.wrongDelimiter last))
      else if 32 < packed.length - rest.length then .error (.invalidPacking .longPadding)
      else .ok rest.reverse

/-- The storage keys that hold a byte string, the last one filled up with zeros. -/
def storageKeys (b : Bytes) : List StorageKey := (b.chunks 32).map (FixedBytes.fit 32)

/-- The bytes that storage keys hold. -/
def ofStorageKeys (keys : List StorageKey) : Bytes := keys.flatMap (·.bytes)

/-- The entry of an access list that carries a predicate for an account. -/
def entry (address : Address) (p : Bytes) : AccessEntry := ⟨address, storageKeys (pack p)⟩

end Predicate

namespace Transaction

/-- The transaction with a predicate for an account behind its access list. -/
def withPredicate (t : Transaction) (address : Address) (p : Bytes) : Transaction :=
  { t with accessList := t.accessList ++ [Predicate.entry address p] }

/-- The packed predicates for an account, in the order of the access list. -/
def predicatesFor (t : Transaction) (address : Address) : List Bytes :=
  (t.accessList.filter (·.address = address)).map fun e => Predicate.ofStorageKeys e.keys

end Transaction

end Interchain
