import Interchain.Proofs.RoundTrip

/-!
# What predicates are packed in

Packing is undone by unpacking, and only what was packed is unpacked: `Predicate.unpack_eq_ok_iff`.
The storage keys that hold a packed predicate hold it without a word more or less, so the same is
true of predicates and the storage keys in an access list.  `Predicate.packing_canonical` says all
this, and what is found in the access list of a transaction into which a predicate was put.
-/

namespace Interchain

/-- Bytes of the size of a piece make up a piece. -/
theorem Bytes.chunks_append {size : Nat} (hsize : 0 < size) {a : Bytes} (h : a.length = size)
    (b : Bytes) :
  chunks size (a ++ b) = a :: chunks size b
  := by
  have ha : a ≠ [] := by
    rintro rfl
    rw [List.length_nil] at h
    omega
  rw [chunks, dif_neg (by simp [ha]; omega), List.take_left' h, List.drop_left' h]

namespace Predicate

/-! ### Unpacking -/

/-- A byte string ends in zeros behind the part that does not. -/
theorem exists_zeros (x : Bytes) :
  ∃ n, x = (x.reverse.dropWhile (· == 0)).reverse ++ Bytes.zeros n
  := by
  have hzeros : x.reverse.takeWhile (· == 0)
      = Bytes.zeros (x.reverse.takeWhile (· == 0)).length := by
    apply List.eq_replicate_iff.mpr
    use rfl
    intro y hy
    simpa using List.mem_takeWhile_imp hy
  use (x.reverse.takeWhile (· == 0)).length
  have hsplit := congrArg List.reverse
    (List.takeWhile_append_dropWhile (p := (· == 0)) (l := x.reverse))
  rw [List.reverse_append, List.reverse_reverse, hzeros, Bytes.zeros, List.reverse_replicate]
    at hsplit
  exact hsplit.symm

/-- There is one way to fill up the last word with zeros. -/
theorem append_zeros_eq_pack {p : Bytes} {n : Nat} (hn : n < 32)
    (hlength : (p ++ delimiter :: Bytes.zeros n).length % 32 = 0) :
  p ++ delimiter :: Bytes.zeros n = pack p
  := by
  have hpad : n = 31 - p.length % 32 := by
    rw [List.length_append, List.length_cons, Bytes.zeros, List.length_replicate] at hlength
    omega
  rw [pack, hpad]

/-- A predicate is unpacked from what it was packed in, and from nothing else. -/
theorem unpack_eq_ok_iff (x p : Bytes) :
  unpack x = .ok p ↔ pack p = x
  := by
  constructor
  · intro h
    rw [unpack] at h
    split at h
    · cases h
    · next hwords =>
      obtain ⟨n, hx⟩ := exists_zeros x
      split at h
      · cases h
      · next last rest hdrop =>
        split at h
        · cases h
        · next hlast =>
          split at h
          · cases h
          · next hpad =>
            cases h
            rw [hdrop, List.reverse_cons, List.append_assoc, not_not.mp hlast] at hx
            have hlength := congrArg List.length hx
            simp only [List.length_append, List.length_reverse, List.length_singleton, Bytes.zeros,
              List.length_replicate] at hlength
            rw [hx]
            symm
            apply append_zeros_eq_pack
            · omega
            · rw [← List.singleton_append, ← hx]
              exact not_not.mp hwords
  · rintro rfl
    apply unpack_pack

/-! ### Storage keys -/

theorem length_ofStorageKeys (keys : List StorageKey) :
  (ofStorageKeys keys).length = 32 * keys.length
  := by
  induction keys with
  | nil => rfl
  | cons key keys ih =>
      rw [ofStorageKeys] at ih ⊢
      rw [List.flatMap_cons, List.length_append, key.length_eq, ih, List.length_cons]
      omega

/-- Storage keys are read back from the bytes that they hold. -/
theorem storageKeys_ofStorageKeys (keys : List StorageKey) :
  storageKeys (ofStorageKeys keys) = keys
  := by
  induction keys with
  | nil =>
      rw [storageKeys, ofStorageKeys, List.flatMap_nil, Bytes.chunks, dif_pos (.inl rfl)]
      rfl
  | cons key keys ih =>
      rw [storageKeys, ofStorageKeys] at ih ⊢
      rw [List.flatMap_cons, Bytes.chunks_append (by decide) key.length_eq, List.map_cons, ih,
        FixedBytes.fit_bytes]

/-- Storage keys hold a packed predicate exactly if they are the ones made of it. -/
theorem unpack_ofStorageKeys_iff (keys : List StorageKey) (p : Bytes) :
  unpack (ofStorageKeys keys) = .ok p ↔ storageKeys (pack p) = keys
  := by
  rw [unpack_eq_ok_iff]
  constructor
  · intro h
    rw [h, storageKeys_ofStorageKeys]
  · rintro rfl
    rw [ofStorageKeys_storageKeys (length_pack_mod p)]

/-- A packed predicate takes one word for each one that it fills, and one for the delimiter. -/
theorem length_storageKeys_pack (p : Bytes) :
  (storageKeys (pack p)).length = p.length / 32 + 1
  := by
  have hpack : (pack p).length = 32 * (p.length / 32 + 1) := by
    rw [pack, Bytes.zeros, List.length_append, List.length_cons, List.length_replicate]
    omega
  have hkeys := length_ofStorageKeys (storageKeys (pack p))
  rw [ofStorageKeys_storageKeys (length_pack_mod p), hpack] at hkeys
  omega

end Predicate

/-! ### Access lists -/

/-- A predicate that is put into an access list is found there as it was packed, behind the
predicates that were there for the same account. -/
theorem Transaction.predicatesFor_withPredicate (t : Transaction) (address a : Address)
    (p : Bytes) :
  (t.withPredicate address p).predicatesFor a
    = t.predicatesFor a ++ if a = address then [Predicate.pack p] else []
  := by
  rw [predicatesFor, withPredicate, List.filter_append, List.map_append, ← predicatesFor]
  congr 1
  split
  · next h =>
    rw [List.filter_cons_of_pos (by simp [Predicate.entry, h]), List.filter_nil,
      List.map_singleton, Predicate.entry,
      Predicate.ofStorageKeys_storageKeys (Predicate.length_pack_mod p)]
  · next h =>
    rw [List.filter_cons_of_neg (by simp [Predicate.entry, Ne.symm h])]
    rfl

/-- A predicate that is put into an access list is found there as it was packed. -/
theorem Transaction.predicatesFor_withPredicate_self (t : Transaction) (address : Address)
    (p : Bytes) :
  (t.withPredicate address p).predicatesFor address
    = t.predicatesFor address ++ [Predicate.pack p]
  := by rw [predicatesFor_withPredicate, if_pos rfl]

/-- A predicate is unpacked from what it was packed in and from nothing else, be it a byte string or
the words of one in storage keys, of which it takes the fewest that have room for a delimiter too.
In a transaction into which a predicate was put there is for each account what the access list had
for it before, its storage keys one after another, and for the account of the predicate moreover
what this was packed in. -/
theorem Predicate.packing_canonical :
  (∀ x p, unpack x = .ok p ↔ pack p = x) ∧
  (∀ keys p, unpack (ofStorageKeys keys) = .ok p ↔ storageKeys (pack p) = keys) ∧
  (∀ p, (storageKeys (pack p)).length = p.length / 32 + 1) ∧
  ∀ (t : Transaction) (address a : Address) (p : Bytes),
    (t.withPredicate address p).predicatesFor a
      = ((t.accessList.filter (·.address = a)).map fun e => e.keys.flatMap (·.bytes))
          ++ if a = address then [pack p] else []
  := ⟨unpack_eq_ok_iff, unpack_ofStorageKeys_iff, length_storageKeys_pack,
    Transaction.predicatesFor_withPredicate⟩

end Interchain
