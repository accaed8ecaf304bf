import Interchain.Bytes.Lemmas
import Interchain.Scheme

/-!
# Sums of keys and signatures

What is relied on of a signature scheme, `AggregateScheme.Additive`: signatures over one message
add up to one that is that of the sum of their keys, unless these cancel.
`AggregateScheme.PointAddition` says what it takes for the sum not to depend on the order, nor on
how the signatures were come by.  Residues modulo a prime make up a scheme of this kind, in which
a signature is a multiple of the key.
-/

namespace Interchain

namespace AggregateScheme

variable {Key Sig : Type} [AggregateScheme Key Sig]

/-- The sum of signatures with one more. -/
theorem aggregateSigs_concat (l : List Sig) (s : Sig) :
  aggregateSigs Key (l ++ [s])
    = .ok (match (aggregateSigs Key l).toOption with
      | some sum => addSigs Key sum s
      | none => s)
  := by
  cases l with
  | nil => rfl
  | cons t l =>
      rw [List.cons_append, aggregateSigs, List.foldl_append]
      rfl

/-- A list of signatures that is not empty has a sum. -/
theorem exists_aggregateSigs (Key : Type) {Sig : Type} [AggregateScheme Key Sig]
    {l : List Sig} (h : l ≠ []) :
  ∃ sum, aggregateSigs Key l = .ok sum
  := by
  cases l with
  | nil => exact absurd rfl h
  | cons s l => exact ⟨_, rfl⟩

/-- A list of keys that is not empty has a sum. -/
theorem exists_aggregateKeys {l : List Key} (h : l ≠ []) :
  ∃ key, aggregateKeys l = .ok key
  := by
  cases l with
  | nil => exact absurd rfl h
  | cons k l => exact ⟨_, rfl⟩

/-- The sum of signatures over one message and the sum of their keys, these in any order. -/
structure IsSumOf (message : Bytes) (signed : List (Key × Sig)) (key : Key) (sum : Sig) :
    Prop where
  verified : ∀ p ∈ signed, verify p.1 message p.2 = true
  key_eq : ∃ keys, keys.Perm (signed.map (·.1)) ∧ aggregateKeys keys = .ok key
  sum_eq : aggregateSigs Key (signed.map (·.2)) = .ok sum

/-- Sums of signatures over a message are those of the sums of their keys and have a byte form,
unless the keys cancel to `identity`. -/
structure Additive (Key : Type) {Sig : Type} [AggregateScheme Key Sig] (identity : Key) :
    Prop where
  verify_sum : ∀ {message signed} {key : Key} {sum}, IsSumOf message signed key sum →
    key ≠ identity → verify key message sum = true
  decode_sum : ∀ {message signed} {key : Key} {sum}, IsSumOf message signed key sum →
    key ≠ identity → decodeSig? Key (encodeSig Key sum) = some sum

/-- Signatures represent points: those of a key over a message all represent the same one,
signatures are added up by adding the points, and a point has one byte form. -/
structure PointAddition (Key : Type) {Sig Point : Type} [AggregateScheme Key Sig]
    [AddCommMonoid Point] (Represents : Sig → Point → Prop) : Prop where
  unique : ∀ (key : Key) (message : Bytes), ∃ point, ∀ s, verify key message s = true →
    Represents s point
  add : ∀ {s t : Sig} {p q : Point}, Represents s p → Represents t q →
    Represents (addSigs Key s t) (p + q)
  encode : ∀ {s t : Sig} {p : Point}, Represents s p → Represents t p →
    encodeSig Key s = encodeSig Key t

namespace PointAddition

variable {Point : Type} [AddCommMonoid Point] {Represents : Sig → Point → Prop}
variable (h : PointAddition Key Represents) {α : Type} {sig : α → Sig} {point : α → Point}

include h

/-- Signatures that are added to one add their points. -/
theorem foldl (l : List α) (hl : ∀ a ∈ l, Represents (sig a) (point a)) {s : Sig} {p : Point}
    (hs : Represents s p) :
  Represents ((l.map sig).foldl (addSigs Key) s) (p + (l.map point).sum)
  := by
  induction l generalizing s p with
  | nil =>
      rw [List.map_nil (f := point), List.sum_nil, add_zero]
      apply hs
  | cons a l ih =>
      obtain ⟨ha, hrest⟩ := List.forall_mem_cons.mp hl
      rw [List.map_cons, List.map_cons, List.sum_cons, ← add_assoc]
      apply ih hrest (h.add hs ha)

/-- The sum of signatures represents the sum of their points. -/
theorem sum {l : List α} (hl : ∀ a ∈ l, Represents (sig a) (point a)) {s : Sig}
    (hs : aggregateSigs Key (l.map sig) = .ok s) :
  Represents s (l.map point).sum
  := by
  cases l with
  | nil => cases hs
  | cons a l =>
      cases hs
      obtain ⟨ha, hrest⟩ := List.forall_mem_cons.mp hl
      apply h.foldl l hrest ha

end PointAddition

end AggregateScheme

/-! ### Residues -/

/-- Residues modulo a prime, which are keys and signatures. -/
abbrev Residue := ZMod 257

namespace Residue

instance : Fact (Nat.Prime 257) := ⟨by norm_num⟩

/-- A residue for a message, which is not zero. -/
def digest (message : Bytes) : Residue := (message.toNat % 256 + 1 : ℕ)

/-- The signature of a key over a message. -/
def sign (key : Residue) (message : Bytes) : Residue := key * digest message

/-- The residue with a byte form, which is not zero. -/
def decode? (b : FixedBytes 96) : Option Residue :=
  if 0 < b.toNat ∧ b.toNat < 257 then some (b.toNat : ZMod 257) else none

instance : AggregateScheme Residue Residue where
  encodeKey k := .ofNat 48 k.val
  encodeSig s := .ofNat 96 s.val
  decodeSig? := decode?
  addKeys := (· + ·)
  addSigs := (· + ·)
  verify k message s := k ≠ 0 ∧ s = sign k message

open AggregateScheme

theorem digest_ne_zero (message : Bytes) :
  digest message ≠ 0
  := by
  intro h
  have hdvd := (ZMod.natCast_eq_zero_iff _ _).mp h
  have := Nat.le_of_dvd (Nat.succ_pos _) hdvd
  omega

/-- A key's signature is one. -/
theorem verify_sign {key : Residue} (hkey : key ≠ 0) (message : Bytes) :
  verify key message (sign key message) = true
  := decide_eq_true ⟨hkey, rfl⟩

/-- A residue that is not zero is read back from its byte form. -/
theorem decode?_ofNat {s : Residue} (hs : s ≠ 0) :
  decode? (.ofNat 96 s.val) = some s
  := by
  have hlt : s.val < 257 := s.val_lt
  have hpos : 0 < s.val := Nat.pos_of_ne_zero ((ZMod.val_ne_zero s).mpr hs)
  have hval : (FixedBytes.ofNat 96 s.val).toNat = s.val := by
    rw [FixedBytes.toNat, FixedBytes.ofNat, Bytes.toNat_ofNat]
    apply Nat.mod_eq_of_lt
    apply Nat.lt_trans hlt
    norm_num
  rw [decode?, hval, if_pos ⟨hpos, hlt⟩, ZMod.natCast_zmod_val]

/-- A key's signature is read back from its byte form. -/
theorem decode_sign {key : Residue} (hkey : key ≠ 0) (message : Bytes) :
  decodeSig? Residue (encodeSig Residue (sign key message)) = some (sign key message)
  := decode?_ofNat (mul_ne_zero hkey (digest_ne_zero message))

/-- Residues added to one of them, one after another, come to their sum. -/
theorem foldl_add (k : Residue) (l : List Residue) :
  l.foldl (· + ·) k = (k :: l).sum
  := by rw [List.sum_eq_foldl, List.foldl_cons, zero_add]

theorem sum_of_aggregateKeys {keys : List Residue} {key : Residue}
    (h : aggregateKeys keys = .ok key) :
  key = keys.sum
  := by
  cases keys with
  | nil => cases h
  | cons k keys =>
      cases h
      apply foldl_add

theorem sum_of_aggregateSigs {sigs : List Residue} {sig : Residue}
    (h : aggregateSigs Residue sigs = .ok sig) :
  sig = sigs.sum
  := by
  cases sigs with
  | nil => cases h
  | cons s sigs =>
      cases h
      apply foldl_add

/-- Signatures of keys add up to that of the sum of the keys. -/
theorem eq_sign_of_isSumOf {message : Bytes} {signed : List (Residue × Residue)}
    {key sum : Residue} (h : IsSumOf message signed key sum) :
  sum = sign key message
  := by
  obtain ⟨keys, hperm, hkey⟩ := h.key_eq
  have hsigs : signed.map (·.2) = (signed.map (·.1)).map (· * digest message) := by
    rw [List.map_map]
    apply List.map_congr_left
    intro p hp
    exact (of_decide_eq_true (h.verified p hp)).2
  rw [sum_of_aggregateSigs h.sum_eq, sum_of_aggregateKeys hkey, hperm.sum_eq, hsigs, sign,
    List.sum_map_mul_right, List.map_id']

/-- Sums of residues are as relied on, where keys cancel to zero. -/
theorem additive :
  Additive Residue (0 : Residue)
  := by
  constructor
  · intro message signed key sum h hkey
    rw [eq_sign_of_isSumOf h]
    apply verify_sign hkey
  · intro message signed key sum h hkey
    rw [eq_sign_of_isSumOf h]
    apply decode_sign hkey

/-- Residues represent themselves. -/
theorem pointAddition :
  PointAddition Residue (fun s p : Residue => s = p)
  := by
  constructor
  · intro key message
    use sign key message
    intro s hs
    apply (of_decide_eq_true hs).2
  · rintro s t _ _ rfl rfl
    rfl
  · rintro s t _ rfl rfl
    rfl

end Residue

end Interchain
