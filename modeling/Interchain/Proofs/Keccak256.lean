import Interchain.Hash.Keccak256
import Mathlib

/-!
# Keccak-256, row by row

A state of the permutation may be seen as five rows of five lanes.  Each step of a round is the
same operation on all rows, so digests can be evaluated in proofs when states are put in this
way: `keccak256_eq_digest` says that a digest is read off the rows that are left when all blocks
are absorbed.
-/

namespace Interchain

namespace Keccak256

/-- Five lanes. -/
structure Row where
  a : UInt64
  b : UInt64
  c : UInt64
  d : UInt64
  e : UInt64

namespace Row

/-- The lanes of two rows, put together column by column. -/
def zipWith (f : UInt64 → UInt64 → UInt64) (r s : Row) : Row :=
  ⟨f r.a s.a, f r.b s.b, f r.c s.c, f r.d s.d, f r.e s.e⟩

/-- The exclusive or of two rows. -/
def xor : Row → Row → Row := zipWith (· ^^^ ·)

/-- In each column the lane of the column after it. -/
def next (r : Row) : Row := ⟨r.b, r.c, r.d, r.e, r.a⟩

/-- In each column the lane of the column before it. -/
def previous (r : Row) : Row := ⟨r.e, r.a, r.b, r.c, r.d⟩

end Row

/-- A state of the permutation. -/
structure Rows where
  r₀ : Row
  r₁ : Row
  r₂ : Row
  r₃ : Row
  r₄ : Row

namespace Rows

/-- The rows in which a function gives the lane at each position. -/
def ofFn (f : Nat → UInt64) : Rows where
  r₀ := ⟨f 0, f 1, f 2, f 3, f 4⟩
  r₁ := ⟨f 5, f 6, f 7, f 8, f 9⟩
  r₂ := ⟨f 10, f 11, f 12, f 13, f 14⟩
  r₃ := ⟨f 15, f 16, f 17, f 18, f 19⟩
  r₄ := ⟨f 20, f 21, f 22, f 23, f 24⟩

/-- The rows of some lanes. -/
def ofLanes (s : Lanes) : Rows := ofFn (lane s)

/-- The same operation on all rows. -/
def map (f : Row → Row) (s : Rows) : Rows := ⟨f s.r₀, f s.r₁, f s.r₂, f s.r₃, f s.r₄⟩

/-- The exclusive or of two states. -/
def xor (s t : Rows) : Rows :=
  ⟨s.r₀.xor t.r₀, s.r₁.xor t.r₁, s.r₂.xor t.r₂, s.r₃.xor t.r₃, s.r₄.xor t.r₄⟩

/-! ### The permutation -/

/-- The exclusive or of every lane with the parities of two columns. -/
def mixColumns (s : Rows) : Rows :=
  let parity := (((s.r₀.xor s.r₁).xor s.r₂).xor s.r₃).xor s.r₄
  let next := parity.next.zipWith rotateLeft ⟨1, 1, 1, 1, 1⟩
  s.map fun r => r.xor (parity.previous.xor next)

/-- The lanes rotated and moved to their new positions. -/
def rearrange (s : Rows) : Rows :=
  let r₀ := s.r₀.zipWith rotateLeft ⟨0, 1, 62, 28, 27⟩
  let r₁ := s.r₁.zipWith rotateLeft ⟨36, 44, 6, 55, 20⟩
  let r₂ := s.r₂.zipWith rotateLeft ⟨3, 10, 43, 25, 39⟩
  let r₃ := s.r₃.zipWith rotateLeft ⟨41, 45, 15, 21, 8⟩
  let r₄ := s.r₄.zipWith rotateLeft ⟨18, 2, 61, 56, 14⟩
  { r₀ := ⟨r₀.a, r₁.b, r₂.c, r₃.d, r₄.e⟩
    r₁ := ⟨r₀.d, r₁.e, r₂.a, r₃.b, r₄.c⟩
    r₂ := ⟨r₀.b, r₁.c, r₂.d, r₃.e, r₄.a⟩
    r₃ := ⟨r₀.e, r₁.a, r₂.b, r₃.c, r₄.d⟩
    r₄ := ⟨r₀.c, r₁.d, r₂.e, r₃.a, r₄.b⟩ }

/-- The nonlinear step along each row. -/
def mixRows (s : Rows) : Rows :=
  s.map fun r => r.xor (r.next.zipWith (fun x y => ~~~ x &&& y) r.next.next)

/-- One round of the permutation. -/
def round (s : Rows) (k : UInt64) : Rows :=
  let t := s.mixColumns.rearrange.mixRows
  { t with r₀ := { t.r₀ with a := t.r₀.a ^^^ k } }

/-- The permutation of the state. -/
def permute (s : Rows) : Rows := roundConstants.foldl round s

/-! ### Lanes by rows -/

/-- A lane that is given by a function. -/
theorem lane_ofFn {n : Nat} (f : Fin n → UInt64) {i : Nat} (h : i < n) :
  lane (Array.ofFn f) i = f ⟨i, h⟩
  := by simp [lane, h]

theorem ofLanes_mixColumns (s : Lanes) :
  ofLanes (Keccak256.mixColumns s) = (ofLanes s).mixColumns
  := by
  simp only [ofLanes, ofFn, Keccak256.mixColumns, lane_ofFn, Nat.reduceLT, Nat.ofNat_pos,
    Nat.one_lt_ofNat, Nat.reduceMod, Nat.zero_mod, Nat.one_mod, Nat.reduceAdd, Nat.zero_add]
  rfl

theorem ofLanes_rearrange (s : Lanes) :
  ofLanes (Keccak256.rearrange s) = (ofLanes s).rearrange
  := by
  simp only [ofLanes, ofFn, Keccak256.rearrange, lane_ofFn, Nat.reduceLT, Nat.ofNat_pos,
    Nat.one_lt_ofNat]
  rfl

theorem ofLanes_mixRows (s : Lanes) :
  ofLanes (Keccak256.mixRows s) = (ofLanes s).mixRows
  := by
  simp only [ofLanes, ofFn, Keccak256.mixRows, lane_ofFn, Nat.reduceLT, Nat.ofNat_pos,
    Nat.one_lt_ofNat, Nat.reduceMod, Nat.one_mod, Nat.reduceAdd, Nat.zero_add, Nat.reduceDiv,
    Nat.zero_div, Nat.reduceMul]
  rfl

theorem ofLanes_round (s : Lanes) (k : UInt64) :
  ofLanes (Keccak256.round s k) = (ofLanes s).round k
  := by
  rw [round, ← ofLanes_mixColumns, ← ofLanes_rearrange, ← ofLanes_mixRows, Keccak256.round]
  generalize ht : Keccak256.mixRows _ = t
  have hsize : t.size = 25 := by rw [← ht, Keccak256.mixRows, Array.size_ofFn]
  simp [ofLanes, ofFn, lane, hsize]

theorem ofLanes_permute (s : Lanes) :
  ofLanes (Keccak256.permute s) = (ofLanes s).permute
  := (List.foldl_hom ofLanes fun s k => (ofLanes_round s k).symm).symm

/-! ### Digests -/

/-- The lanes that a block denotes. -/
def ofBlock (block : Bytes) : Rows := ofFn fun i => laneOfBytes ((block.drop (8 * i)).take 8)

/-- The state after the first `n` blocks of `b`. -/
def absorb : (n : Nat) → Rows → Bytes → Rows
  | 0, s, _ => s
  | n + 1, s, b => absorb n (s.xor (ofBlock (b.take rate))).permute (b.drop rate)

/-- The state after all blocks of a padded message. -/
def absorbAll (padded : Bytes) : Rows :=
  absorb (padded.length / rate) (ofFn fun _ => 0) padded

/-- The digest that is read off a state. -/
def digest (s : Rows) : FixedBytes 32 :=
  ⟨[s.r₀.a, s.r₀.b, s.r₀.c, s.r₀.d].flatMap laneBytes, by simp [laneBytes, Bytes.ofUInt64]⟩

/-- The lanes of a block are those of its pieces. -/
theorem lane_chunks (block : Bytes) (i : Nat) :
  lane ((block.chunks 8).map laneOfBytes).toArray i = laneOfBytes ((block.drop (8 * i)).take 8)
  := by
  rw [lane, Array.getD_eq_getD_getElem?, List.getElem?_toArray, List.getElem?_map]
  induction i generalizing block with
  | zero =>
      rw [Bytes.chunks]
      by_cases hblock : block = []
      · simp [hblock, laneOfBytes]
      · simp [hblock]
  | succ i ih =>
      rw [Bytes.chunks]
      by_cases hblock : block = []
      · simp [hblock, laneOfBytes]
      · rw [dif_neg (by simpa using hblock), List.getElem?_cons_succ, ih, List.drop_drop]
        congr 3
        omega

theorem ofLanes_xor (s t : Lanes) :
  ofLanes (Array.ofFn fun i : Fin 25 => lane s i.val ^^^ lane t i.val) = (ofLanes s).xor (ofLanes t)
  := by
  simp only [ofLanes, ofFn, lane_ofFn, Nat.reduceLT, Nat.ofNat_pos, Nat.one_lt_ofNat]
  rfl

theorem ofLanes_absorbBlock (s : Lanes) (block : Bytes) :
  ofLanes (absorbBlock s block) = ((ofLanes s).xor (ofBlock block)).permute
  := by
  have hblock : ofLanes ((block.chunks 8).map laneOfBytes).toArray = ofBlock block := by
    simp only [ofLanes, ofBlock, ofFn, lane_chunks]
  rw [absorbBlock, ofLanes_permute, ofLanes_xor, hblock]

theorem ofLanes_absorb (n : Nat) (s : Lanes) (b : Bytes) :
  ofLanes (Keccak256.absorb n s b) = absorb n (ofLanes s) b
  := by
  induction n generalizing s b with
  | zero => rfl
  | succ n ih => rw [Keccak256.absorb, ih, ofLanes_absorbBlock, absorb]

end Rows

end Keccak256

/-- A digest is read off the rows that are left when all blocks are absorbed. -/
theorem keccak256_eq_digest (b : Bytes) :
  keccak256 b = (Keccak256.Rows.absorbAll (Keccak256.pad b)).digest
  := by
  have hzero : Keccak256.Rows.ofLanes (Array.replicate 25 0) = .ofFn fun _ => 0 := rfl
  rw [Keccak256.Rows.absorbAll, ← hzero, ← Keccak256.Rows.ofLanes_absorb]
  rfl

end Interchain
