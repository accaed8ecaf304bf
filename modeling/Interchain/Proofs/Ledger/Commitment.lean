import Interchain.Proofs.Keccak256
import Interchain.Proofs.Ledger.Sequencing

/-!
# What the hash of a transaction commits to

The encoding of a transaction puts nothing between its fields, and the access list stands without
the number of its entries behind data of any length.  Nevertheless it can be taken apart in one way
only: `Bytes.IsPrefixCode` says of a part of it that it tells itself where it ends, and
`Transaction.encoding_injOn` follows for the whole.  So the hash of a transaction stands for all of
its fields, and a receipt that is kept under it is the receipt of this transaction alone, as
`Sequencer.receipts_committed` says.
-/

namespace Interchain

/-! ### Codes that tell where they end -/

namespace Bytes

variable {α : Type}

/-- The code words of some values tell themselves where they end: two byte strings that are equal
start with the same one and go on in the same way. -/
def IsPrefixCode (code : α → Bytes) (s : Set α) : Prop :=
  ∀ ⦃a⦄, a ∈ s → ∀ ⦃b⦄, b ∈ s → ∀ ⦃rest rest' : Bytes⦄,
    code a ++ rest = code b ++ rest' → a = b ∧ rest = rest'

/-- Different code words of one length tell where they end. -/
theorem isPrefixCode_of_length {code : α → Bytes} {n : Nat} (hlength : ∀ a, (code a).length = n)
    (hcode : Function.Injective code) :
  IsPrefixCode code Set.univ
  := by
  intro a _ b _ rest rest' h
  obtain ⟨hab, hrest⟩ := List.append_inj h (by rw [hlength, hlength])
  exact ⟨hcode hab, hrest⟩

namespace IsPrefixCode

variable {code : α → Bytes} {s : Set α}

/-- As many code words one after another are told apart, whatever follows them. -/
theorem flatMap_append_inj (h : IsPrefixCode code s) {xs ys : List α} (hxs : ∀ x ∈ xs, x ∈ s)
    (hys : ∀ y ∈ ys, y ∈ s) (hlength : xs.length = ys.length) {rest rest' : Bytes}
    (heq : xs.flatMap code ++ rest = ys.flatMap code ++ rest') :
  xs = ys ∧ rest = rest'
  := by
  induction xs generalizing ys with
  | nil =>
      obtain rfl := List.length_eq_zero_iff.mp hlength.symm
      exact ⟨rfl, heq⟩
  | cons x xs ih =>
      cases ys with
      | nil => cases hlength
      | cons y ys =>
          rw [List.forall_mem_cons] at hxs hys
          rw [List.flatMap_cons, List.flatMap_cons, List.append_assoc, List.append_assoc] at heq
          obtain ⟨rfl, htail⟩ := h hxs.1 hys.1 heq
          obtain ⟨rfl, hrest⟩ := ih hxs.2 hys.2 (Nat.succ.inj hlength) htail
          exact ⟨rfl, hrest⟩

/-- Code words that are not empty are told apart up to the end of a byte string, without their
number. -/
theorem flatMap_inj (h : IsPrefixCode code s) (hne : ∀ a ∈ s, code a ≠ []) {xs ys : List α}
    (hxs : ∀ x ∈ xs, x ∈ s) (hys : ∀ y ∈ ys, y ∈ s)
    (heq : xs.flatMap code = ys.flatMap code) :
  xs = ys
  := by
  -- a code word more on one side would have to be empty
  have hnil {z : α} {zs : List α} (hz : z ∈ s) : [] ≠ (z :: zs).flatMap code := by
    intro hempty
    exact hne z hz (List.append_eq_nil_iff.mp hempty.symm).1
  induction xs generalizing ys with
  | nil =>
      cases ys with
      | nil => rfl
      | cons y ys => exact absurd heq (hnil (List.forall_mem_cons.mp hys).1)
  | cons x xs ih =>
      cases ys with
      | nil => exact absurd heq.symm (hnil (List.forall_mem_cons.mp hxs).1)
      | cons y ys =>
          rw [List.forall_mem_cons] at hxs hys
          rw [List.flatMap_cons, List.flatMap_cons] at heq
          obtain ⟨rfl, htail⟩ := h hxs.1 hys.1 heq
          rw [ih hxs.2 hys.2 htail]

end IsPrefixCode

/-- Numbers that fit in so many bytes are told apart by them. -/
theorem ofNat_inj {width m n : Nat} (hm : m < 256 ^ width) (hn : n < 256 ^ width)
    (h : ofNat width m = ofNat width n) :
  m = n
  := by
  have hnat := congrArg toNat h
  rwa [toNat_ofNat, toNat_ofNat, Nat.mod_eq_of_lt hm, Nat.mod_eq_of_lt hn] at hnat

/-- Code words behind their number are told apart, whatever follows them, if the number fits in its
bytes. -/
theorem IsPrefixCode.counted_append_inj {code : α → Bytes} (h : IsPrefixCode code Set.univ)
    {xs ys : List α} (hxs : xs.length < 2 ^ 64) (hys : ys.length < 2 ^ 64) {rest rest' : Bytes}
    (heq : ofNat 8 xs.length ++ (xs.flatMap code ++ rest)
      = ofNat 8 ys.length ++ (ys.flatMap code ++ rest')) :
  xs = ys ∧ rest = rest'
  := by
  have hwidth : 2 ^ 64 = 256 ^ 8 := by norm_num
  rw [hwidth] at hxs hys
  obtain ⟨hnumber, hwords⟩ := List.append_inj heq (by rw [length_ofNat, length_ofNat])
  apply h.flatMap_append_inj _ _ (ofNat_inj hxs hys hnumber) hwords
  · exact fun _ _ => Set.mem_univ _
  · exact fun _ _ => Set.mem_univ _

/-- Bytes behind their number are told apart, whatever follows them. -/
theorem counted_append_inj {a b : Bytes} (ha : a.length < 2 ^ 64) (hb : b.length < 2 ^ 64)
    {rest rest' : Bytes}
    (heq : ofNat 8 a.length ++ (a ++ rest) = ofNat 8 b.length ++ (b ++ rest')) :
  a = b ∧ rest = rest'
  := by
  have hbytes : IsPrefixCode (fun x : UInt8 => [x]) Set.univ :=
    isPrefixCode_of_length (fun _ => rfl) List.singleton_injective
  apply hbytes.counted_append_inj ha hb
  rwa [List.flatMap_singleton', List.flatMap_singleton']

theorem isPrefixCode_ofUInt64 :
  IsPrefixCode ofUInt64 Set.univ
  := isPrefixCode_of_length (fun x => length_ofNat 8 x.toNat) ofUInt64_injective

end Bytes

open Bytes

theorem FixedBytes.isPrefixCode_bytes {n : Nat} :
  IsPrefixCode (FixedBytes.bytes (n := n)) Set.univ
  := isPrefixCode_of_length FixedBytes.length_eq fun _ _ h => FixedBytes.ext h

theorem Address.isPrefixCode_bytes :
  IsPrefixCode (fun a : Address => a.bytes) Set.univ
  := isPrefixCode_of_length (fun a => a.length_eq) fun _ _ h => Address.eq_of_bytes_eq h

theorem UInt256.isPrefixCode_word :
  IsPrefixCode UInt256.word Set.univ
  := by
  have hwidth : 2 ^ 256 = 256 ^ 32 := by norm_num
  apply isPrefixCode_of_length (n := 32) (fun x => by rw [word, length_ofNat])
  intro x y h
  apply BitVec.eq_of_toNat_eq
  exact ofNat_inj (hwidth ▸ x.isLt) (hwidth ▸ y.isLt) h

/-! ### Transactions -/

/-- An entry of an access list tells where it ends, if the number of its keys fits in its bytes. -/
theorem AccessEntry.isPrefixCode_encoding :
  IsPrefixCode encoding { e | e.keys.length < 2 ^ 64 }
  := by
  intro e he e' he' rest rest' h
  simp only [encoding, List.append_assoc] at h
  obtain ⟨haddress, h⟩ := Address.isPrefixCode_bytes (Set.mem_univ _) (Set.mem_univ _) h
  obtain ⟨hkeys, hrest⟩ := FixedBytes.isPrefixCode_bytes.counted_append_inj he he' h
  cases e
  cases e'
  rw [mk.injEq]
  exact ⟨⟨haddress, hkeys⟩, hrest⟩

theorem AccessEntry.encoding_ne_nil (e : AccessEntry) :
  e.encoding ≠ []
  := by
  intro h
  have hlength := congrArg List.length h
  rw [encoding, List.length_append, List.length_append, e.address.length_eq, List.length_nil]
    at hlength
  omega

namespace Transaction

/-- The numbers of bytes and of keys that the encoding holds fit where they are written, as do those
of all lists in a memory. -/
structure IsCountable (t : Transaction) : Prop where
  data : t.data.length < 2 ^ 64
  keys : ∀ e ∈ t.accessList, e.keys.length < 2 ^ 64

/-- Transactions with the same encoding are the same in every field. -/
theorem encoding_injOn :
  Set.InjOn encoding { t | t.IsCountable }
  := by
  intro t ht u hu h
  simp only [encoding, List.append_assoc] at h
  obtain ⟨hchain, h⟩ := UInt256.isPrefixCode_word (Set.mem_univ _) (Set.mem_univ _) h
  obtain ⟨hnonce, h⟩ := isPrefixCode_ofUInt64 (Set.mem_univ _) (Set.mem_univ _) h
  obtain ⟨hsender, h⟩ := Address.isPrefixCode_bytes (Set.mem_univ _) (Set.mem_univ _) h
  obtain ⟨hrecipient, h⟩ := Address.isPrefixCode_bytes (Set.mem_univ _) (Set.mem_univ _) h
  obtain ⟨hgas, h⟩ := isPrefixCode_ofUInt64 (Set.mem_univ _) (Set.mem_univ _) h
  obtain ⟨hfeeCap, h⟩ := UInt256.isPrefixCode_word (Set.mem_univ _) (Set.mem_univ _) h
  obtain ⟨htipCap, h⟩ := UInt256.isPrefixCode_word (Set.mem_univ _) (Set.mem_univ _) h
  obtain ⟨hvalue, h⟩ := UInt256.isPrefixCode_word (Set.mem_univ _) (Set.mem_univ _) h
  obtain ⟨hdata, h⟩ := counted_append_inj ht.data hu.data h
  have haccess := AccessEntry.isPrefixCode_encoding.flatMap_inj
    (fun e _ => e.encoding_ne_nil) ht.keys hu.keys h
  cases t
  cases u
  rw [mk.injEq]
  exact ⟨hchain, hnonce, hsender, hrecipient, hgas, hfeeCap, htipCap, hvalue, hdata, haccess⟩

/-- Among transactions whose encodings have different digests the hashes are different. -/
theorem hash_injOn {s : Set Transaction} (hs : ∀ t ∈ s, t.IsCountable)
    (hc : Set.InjOn keccak256 (encoding '' s)) :
  Set.InjOn hash s
  := by
  intro t ht u hu h
  apply encoding_injOn (hs t ht) (hs u hu)
  apply hc (Set.mem_image_of_mem _ ht) (Set.mem_image_of_mem _ hu)
  exact congrArg Id.toFixedBytes h

end Transaction

/-! ### Receipts -/

/-- What became of some sealed transactions is kept under their hashes, where no other one of a set
of transactions finds it. -/
structure Site.FilesReceipts (site : Site) (done : List Sealing) (s : Set Transaction) : Prop where
  exists_receipt : ∀ a ∈ done, ∃ r, site.chain.receipt a.transaction.hash = .ok r
  /-- A receipt under the hash of a transaction is that of this transaction, which was sealed. -/
  exists_sealing : ∀ t ∈ s, ∀ r, site.chain.receipt t.hash = .ok r →
    ∃ a ∈ done, a.transaction = t ∧ a.receipt = r
  unshared : ∀ t ∈ s, ∀ u ∈ s, ∀ r, site.chain.receipt t.hash = .ok r →
    site.chain.receipt u.hash = .ok r → t = u

/-- A chain files the receipts of what it sealed if different transactions have different
hashes. -/
theorem Chain.Grown.filesReceipts {config : ChainConfig} {done : List Sealing} {site : Site}
    (h : Grown config done site.chain) {s : Set Transaction}
    (hdone : ∀ a ∈ done, a.transaction ∈ s) (hs : Set.InjOn Transaction.hash s) :
  site.FilesReceipts done s
  := by
  have hfound : ∀ t ∈ s, ∀ r, site.chain.receipt t.hash = .ok r →
      ∃ a ∈ done, a.transaction = t ∧ a.receipt = r := by
    intro t ht r hr
    obtain ⟨a, ha, hname, hreceipt⟩ := h.exists_sealing hr
    exact ⟨a, ha, hs (hdone a ha) ht hname, hreceipt⟩
  constructor
  case exists_receipt =>
    intro a ha
    exact h.grownFrom.exists_receipt ha
  case exists_sealing => exact hfound
  case unshared =>
    intro t ht u hu r hr hr'
    -- the receipt names the transaction that it is of
    obtain ⟨a, -, rfl, hreceipt⟩ := hfound t ht r hr
    obtain ⟨b, -, rfl, hreceipt'⟩ := hfound u hu r hr'
    apply hs ht hu
    exact congrArg Receipt.transaction (hreceipt.trans hreceipt'.symm)

namespace Sequencer

/-- Transactions with the same encoding are the same in every field.  So among some transactions
whose encodings have different digests the hash of a transaction stands for all of it: however calls
that send some of them to a new chain take turns, each receipt is kept under the hash of one of them
only, which is the transaction that it is of. -/
theorem receipts_committed {Key Sig : Type} [AggregateScheme Key Sig] :
  Set.InjOn Transaction.encoding { t | t.IsCountable } ∧
  ∀ s : Set Transaction, (∀ t ∈ s, t.IsCountable) →
    Set.InjOn keccak256 (Transaction.encoding '' s) →
    Set.InjOn Transaction.hash s ∧
    ∀ (w : World Key Sig) (config : ChainConfig) (heightFault : Option MessageError)
      (turns : List (Turn Key)),
      let run := (start w config heightFault).run w.sites.length turns
      (∀ a ∈ run.2, a.transaction ∈ s) →
      ∃ site, run.1.world.sites[w.sites.length]? = some site ∧ site.FilesReceipts run.2 s
  := by
  use Transaction.encoding_injOn
  intro s hs hc
  have hhash := Transaction.hash_injOn hs hc
  use hhash
  intro w config heightFault turns run hsealed
  obtain ⟨site, h⟩ := (ordered_start w config heightFault).run turns
  rw [List.nil_append] at h
  exact ⟨site, h.site_eq, h.grown.filesReceipts hsealed hhash⟩

/-- A transaction is sealed, and its receipt is kept under its hash.  With the bytes of its access
list moved into its data it would have another hash. -/
theorem receipts_committed_trial :
  let t := Transaction.trial
  let u := { t with data := t.accessList.flatMap AccessEntry.encoding, accessList := [] }
  let turns : List (Turn Residue) := [.send t, .enter 0, .answer 0 (History.directory {})]
  let run : Sequencer Residue Residue × List Sealing := (start {} .trial none).run 0 turns
  t.IsCountable ∧ u.IsCountable ∧ Set.InjOn keccak256 (Transaction.encoding '' {t, u}) ∧
  run.2.map (·.transaction) = [t] ∧ t.hash ≠ u.hash ∧
  ∃ site, run.1.world.sites[0]? = some site ∧ site.FilesReceipts run.2 {t, u}
  := by
  intro t u turns run
  have ht : t.IsCountable := ⟨by decide, by decide⟩
  have hu : u.IsCountable := ⟨by decide, by decide⟩
  have hne : t ≠ u := by decide
  have hdigest : keccak256 t.encoding ≠ keccak256 u.encoding := by
    rw [keccak256_eq_digest, keccak256_eq_digest]
    decide +kernel
  have hc : Set.InjOn keccak256 (Transaction.encoding '' {t, u}) := by
    rw [Set.image_pair, Set.injOn_pair]
    exact fun h => absurd h hdigest
  have hsealed : run.2.map (·.transaction) = [t] := rfl
  have hcountable : ∀ x ∈ ({t, u} : Set Transaction), x.IsCountable := by
    rintro x (rfl | rfl)
    · exact ht
    · exact hu
  obtain ⟨-, hcommitted⟩ := @receipts_committed Residue Residue _
  obtain ⟨hhash, hrun⟩ := hcommitted {t, u} hcountable hc
  obtain ⟨site, hsite, hfiles⟩ := hrun {} .trial none turns (by
    intro a ha
    have hmem : a.transaction ∈ run.2.map (·.transaction) := List.mem_map_of_mem ha
    rw [hsealed, List.mem_singleton] at hmem
    exact .inl hmem)
  exact ⟨ht, hu, hc, hsealed, hhash.ne (.inl rfl) (.inr rfl) hne, site, hsite, hfiles⟩

end Sequencer

end Interchain
