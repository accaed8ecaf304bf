import Mathlib.Order.Bounds.Basic
import Interchain.Proofs.Checks
import Interchain.Settings.Node

/-!
# Quorums in hundredths

Others are asked for a whole percentage of the weight, the least one that is no smaller than the
quorum.  It guarantees the quorum and no smaller percentage does, and rounds are conducted for it
if it may be asked of others: `Quorum.exists_roundsTo`.  All of it fits in words of 128 bits, in
which weights are compared (`Quorum.meetsWide_eq`) and the percentage is rounded up
(`Quorum.toNat_widePercent`) as in natural numbers.
-/

namespace Interchain

namespace Quorum

/-- Every quorum is made of its numerator and its denominator, and of nothing else. -/
theorem make_eq_ok_iff (n d : UInt64) (q : Quorum) :
  make n d = .ok q ↔ q.numerator = n ∧ q.denominator = d
  := by
  rw [make]
  split
  · rw [Except.ok.injEq]
    cases q
    simp only [mk.injEq]
    tauto
  · next h =>
    constructor
    · rintro ⟨⟩
    · rintro ⟨rfl, rfl⟩
      exact absurd ⟨q.pos, q.le⟩ h

/-! ### Rounding up -/

/-- The least whole percentage that is no smaller than the quorum. -/
def percentage (q : Quorum) : Nat :=
  (q.numerator.toNat * 100 + q.denominator.toNat - 1) / q.denominator.toNat

theorem denominator_pos (q : Quorum) :
  0 < q.denominator.toNat
  := Nat.lt_of_lt_of_le q.pos q.le

theorem isLeast_percentage (q : Quorum) :
  IsLeast { k | q.numerator.toNat * 100 ≤ k * q.denominator.toNat } q.percentage
  := by
  have hpos := q.denominator_pos
  have hmod := Nat.mod_lt (q.numerator.toNat * 100 + q.denominator.toNat - 1) hpos
  have hdiv := Nat.div_add_mod' (q.numerator.toNat * 100 + q.denominator.toNat - 1)
    q.denominator.toNat
  constructor
  · show _ ≤ q.percentage * _
    rw [percentage]
    omega
  · intro k hk
    have hle : _ ≤ k * _ := hk
    apply Nat.le_of_lt_succ
    apply Nat.lt_of_mul_lt_mul_right (a := q.denominator.toNat)
    rw [Nat.succ_mul, percentage]
    omega

/-- A quorum is at most the whole. -/
theorem percentage_le (q : Quorum) :
  q.percentage ≤ 100
  := by
  apply q.isLeast_percentage.2
  show _ ≤ 100 * _
  rw [Nat.mul_comm]
  apply Nat.mul_le_mul_left _ q.le

/-- The percentage is that of the quorum, if it may be asked of others. -/
theorem ceilPercent_eq (q : Quorum) :
  q.ceilPercent
    = if q.percentage < 33 then
        .error (.invalidQuorum q.numerator.toNat q.denominator.toNat)
      else .ok (.ofNat q.percentage)
  := by
  rw [ceilPercent, ← percentage, Nat.min_eq_right q.percentage_le]
  rfl

/-- The percentage is as 64 bits hold it. -/
theorem toNat_ofNat_percentage (q : Quorum) :
  (UInt64.ofNat q.percentage).toNat = q.percentage
  := by
  apply UInt64.toNat_ofNat_of_lt
  apply Nat.lt_of_le_of_lt q.percentage_le
  decide

/-- The percentage that is asked of others is one that may be, and no less than the quorum. -/
theorem ceilPercent_spec {q : Quorum} {percent : UInt64} (h : q.ceilPercent = .ok percent) :
  33 ≤ percent.toNat ∧ percent.toNat ≤ 100 ∧
    q.numerator.toNat * 100 ≤ percent.toNat * q.denominator.toNat
  := by
  rw [ceilPercent_eq] at h
  split at h
  · cases h
  · next hmin =>
    cases h
    rw [toNat_ofNat_percentage]
    use Nat.le_of_not_lt hmin, q.percentage_le
    apply q.isLeast_percentage.1

/-! ### Percentages of the weight -/

theorem isMet_iff (q : Quorum) (signed total : Nat) :
  q.isMet signed total = true
    ↔ total * q.numerator.toNat ≤ signed * q.denominator.toNat
  := decide_eq_true_iff

/-- Whoever has a percentage of the total that is no smaller than a quorum meets this. -/
theorem le_of_percent {n d k signed total : Nat} (hle : n * 100 ≤ k * d)
    (h : total * k ≤ signed * 100) :
  total * n ≤ signed * d
  := by
  apply Nat.le_of_mul_le_mul_right _ (show 0 < 100 by decide)
  calc total * n * 100
    _ = total * (n * 100) := Nat.mul_assoc ..
    _ ≤ total * (k * d) := Nat.mul_le_mul_left _ hle
    _ = total * k * d := (Nat.mul_assoc ..).symm
    _ ≤ signed * 100 * d := Nat.mul_le_mul_right _ h
    _ = signed * d * 100 := Nat.mul_right_comm ..

/-- A percentage guarantees a quorum exactly if it is at least that of the quorum. -/
theorem percent_guarantees_iff (q : Quorum) {k : UInt64} {q' : Quorum}
    (h : percent k = .ok q') :
  (∀ signed total : UInt64, q'.isMet signed.toNat total.toNat = true →
    q.isMet signed.toNat total.toNat = true) ↔ q.percentage ≤ k.toNat
  := by
  obtain ⟨hk, hhundred⟩ := (make_eq_ok_iff ..).mp h
  simp only [isMet_iff, hk, hhundred]
  constructor
  · intro hguarantees
    -- of a total of one hundred, the percentage itself is enough
    have hmet : 100 * _ ≤ k.toNat * _ := hguarantees k 100 (Nat.le_of_eq (Nat.mul_comm ..))
    apply q.isLeast_percentage.2
    rwa [Nat.mul_comm] at hmet
  · intro hle signed total hmet
    apply le_of_percent _ hmet
    apply Nat.le_trans q.isLeast_percentage.1
    apply Nat.mul_le_mul_right _ hle

/-! ### Words of 128 bits -/

/-- A number of 64 bits in a word of 128 bits. -/
def widen (x : UInt64) : BitVec 128 := x.toBitVec.setWidth 128

/-- Whether the signed weight is at least the fraction of the total, in words of 128 bits. -/
def meetsWide (q : Quorum) (signed total : UInt64) : Bool :=
  widen total * widen q.numerator ≤ widen signed * widen q.denominator

/-- The least whole percentage that is no smaller than the quorum, in words of 128 bits. -/
def widePercent (q : Quorum) : BitVec 128 :=
  let hundredfold := widen q.numerator * 100
  let d := widen q.denominator
  if hundredfold % d = 0 then hundredfold / d else hundredfold / d + 1

theorem toNat_widen (x : UInt64) :
  (widen x).toNat = x.toNat
  := by
  rw [widen, BitVec.toNat_setWidth]
  apply Nat.mod_eq_of_lt
  apply Nat.lt_trans x.toNat_lt
  decide

/-- Products of numbers of 64 bits fit. -/
theorem toNat_widen_mul (x y : UInt64) :
  (widen x * widen y).toNat = x.toNat * y.toNat
  := by
  rw [BitVec.toNat_mul, toNat_widen, toNat_widen]
  apply Nat.mod_eq_of_lt
  apply Nat.lt_of_lt_of_le (Nat.mul_lt_mul'' x.toNat_lt y.toNat_lt)
  decide

/-- Nothing overflows when weights are compared. -/
theorem meetsWide_eq (q : Quorum) (signed total : UInt64) :
  q.meetsWide signed total = q.isMet signed.toNat total.toNat
  := by
  rw [meetsWide, isMet]
  simp only [BitVec.le_def, toNat_widen_mul]

/-- A division is rounded up by one more unless nothing is left over. -/
theorem ceilDiv_eq (m : Nat) {d : Nat} (hd : 0 < d) :
  (m + d - 1) / d = if m % d = 0 then m / d else m / d + 1
  := by
  have hmod := Nat.mod_lt m hd
  have hdiv := Nat.div_add_mod m d
  split
  · next hrest =>
    apply Nat.div_eq_of_lt_le
    · rw [Nat.mul_comm]
      omega
    · rw [Nat.succ_mul, Nat.mul_comm]
      omega
  · next hrest =>
    apply Nat.div_eq_of_lt_le
    · rw [Nat.succ_mul, Nat.mul_comm]
      omega
    · rw [Nat.succ_mul, Nat.succ_mul, Nat.mul_comm]
      omega

/-- Nothing overflows when the percentage is rounded up. -/
theorem toNat_widePercent (q : Quorum) :
  q.widePercent.toNat = q.percentage
  := by
  have hmul : (widen q.numerator * 100).toNat = q.numerator.toNat * 100 :=
    toNat_widen_mul q.numerator 100
  have hmod : (widen q.numerator * 100) % widen q.denominator = 0
      ↔ q.numerator.toNat * 100 % q.denominator.toNat = 0 := by
    rw [← BitVec.toNat_inj, BitVec.toNat_umod, hmul, toNat_widen]
    rfl
  have hdiv : ((widen q.numerator * 100) / widen q.denominator).toNat
      = q.numerator.toNat * 100 / q.denominator.toNat := by
    rw [BitVec.toNat_udiv, hmul, toNat_widen]
  have hle := q.percentage_le
  rw [percentage, ceilDiv_eq _ q.denominator_pos] at hle ⊢
  simp only [widePercent, hmod]
  split
  · exact hdiv
  · next hrest =>
    rw [if_neg hrest] at hle
    rw [BitVec.toNat_add, hdiv]
    apply Nat.mod_eq_of_lt
    apply Nat.lt_of_le_of_lt hle
    decide

/-! ### Percentages that are asked of others -/

/-- A quorum rounds up to a percentage: the least one that is no smaller and that guarantees it.
This is asked of others unless it is too small for that, and whatever its settings, a node
conducts rounds for exactly this percentage. -/
structure RoundsTo (q : Quorum) (p : UInt64) : Prop where
  least : IsLeast { k | q.numerator.toNat * 100 ≤ k * q.denominator.toNat } p.toNat
  le_hundred : p.toNat ≤ 100
  wide_eq : q.widePercent.toNat = p.toNat
  asked : minPercent ≤ p → q.ceilPercent = .ok p ∧
    ∀ s : NodeSettings, ∃ config, s.roundConfig p = .ok config ∧ percent p = .ok config.quorum
  refused : p < minPercent →
    q.ceilPercent = .error (.invalidQuorum q.numerator.toNat q.denominator.toNat)
  guarantees : ∀ k q', percent k = .ok q' →
    ((∀ signed total : UInt64, q'.isMet signed.toNat total.toNat = true →
      q.isMet signed.toNat total.toNat = true) ↔ p ≤ k)

end Quorum

/-- A percentage that may be asked of others is one that rounds are conducted for. -/
theorem NodeSettings.exists_roundConfig (s : NodeSettings) {percent : UInt64}
    (hmin : 33 ≤ percent.toNat) (hmax : percent.toNat ≤ 100) :
  ∃ config, s.roundConfig percent = .ok config ∧ config.quorum.numerator = percent ∧
    config.quorum.denominator = 100
  := by
  have hzero : percent ≠ 0 := by
    rintro rfl
    cases hmin
  have hcheck : checkPercent percent = .ok () := by
    apply if_pos
    use hmin, hmax
  have hpos : 0 < percent := Nat.lt_of_lt_of_le (by decide) hmin
  have hpercent : Quorum.percent percent = .ok ⟨percent, 100, hpos, hmax⟩ :=
    dif_pos ⟨hpos, hmax⟩
  rw [roundConfig, if_neg hzero, hcheck]
  simp only [Bind.bind, Except.bind, hpercent]
  exact ⟨_, rfl, rfl, rfl⟩

namespace Quorum

theorem roundsTo_percentage (q : Quorum) :
  q.RoundsTo (.ofNat q.percentage)
  := by
  have hp := q.toNat_ofNat_percentage
  constructor
  case least =>
    rw [hp]
    apply q.isLeast_percentage
  case le_hundred =>
    rw [hp]
    apply q.percentage_le
  case wide_eq =>
    rw [hp]
    apply q.toNat_widePercent
  case asked =>
    intro hmin
    have hmin : 33 ≤ q.percentage := by
      rw [← hp]
      apply hmin
    constructor
    · rw [ceilPercent_eq, if_neg (Nat.not_lt.mpr hmin)]
    · intro s
      rw [← hp] at hmin
      obtain ⟨config, hconfig, hquorum⟩ := s.exists_roundConfig hmin (hp.trans_le q.percentage_le)
      use config, hconfig
      apply (make_eq_ok_iff ..).mpr hquorum
  case refused =>
    intro hless
    have hless : q.percentage < 33 := by
      rw [← hp]
      apply hless
    rw [ceilPercent_eq, if_pos hless]
  case guarantees =>
    intro k q' hq'
    rw [q.percent_guarantees_iff hq', UInt64.le_iff_toNat_le, hp]

/-- Every fraction that is positive and at most one is a quorum and rounds up to a percentage.
Weights are compared with it as natural numbers, and nothing overflows in words of 128 bits. -/
theorem exists_roundsTo (n d : UInt64) :
  ((∃ q, make n d = .ok q) ↔ 0 < n ∧ n ≤ d) ∧
  ∀ q, make n d = .ok q → q.numerator = n ∧ q.denominator = d ∧ (∃ p, q.RoundsTo p) ∧
    ∀ signed total : UInt64,
      q.meetsWide signed total = q.isMet signed.toNat total.toNat ∧
      (q.isMet signed.toNat total.toNat = true ↔ total.toNat * n.toNat ≤ signed.toNat * d.toNat)
  := by
  constructor
  · constructor
    · rintro ⟨q, hq⟩
      obtain ⟨rfl, rfl⟩ := (make_eq_ok_iff ..).mp hq
      use q.pos, q.le
    · rintro ⟨hpos, hle⟩
      use ⟨n, d, hpos, hle⟩
      apply (make_eq_ok_iff ..).mpr
      use rfl
  · intro q hq
    obtain ⟨rfl, rfl⟩ := (make_eq_ok_iff ..).mp hq
    use rfl, rfl, ⟨_, q.roundsTo_percentage⟩
    intro signed total
    use q.meetsWide_eq signed total
    apply q.isMet_iff

/-- A quorum just below one half, of the greatest numbers that there are, rounds up to fifty
hundredths. -/
theorem exists_roundsTo_half :
  let n : UInt64 := 9223372036854775807
  let d : UInt64 := 18446744073709551615
  ∃ q, make n d = .ok q ∧ q.RoundsTo 50 ∧ q.meetsWide n d = true ∧ q.meetsWide (n - 1) d = false
  := by
  intro n d
  obtain ⟨q, hq⟩ := (exists_roundsTo n d).1.mpr (by decide)
  obtain ⟨hn, hd, ⟨p, hp⟩, hmeets⟩ := (exists_roundsTo n d).2 q hq
  have hpercentage : q.percentage = 50 := by
    rw [percentage, hn, hd]
    decide
  have hfifty : p = 50 := by
    apply UInt64.toNat_inj.mp
    rw [hp.least.unique q.isLeast_percentage, hpercentage]
    rfl
  rw [hfifty] at hp
  use q, hq, hp
  constructor
  · rw [(hmeets n d).1, (hmeets n d).2]
    decide
  · rw [(hmeets (n - 1) d).1, ← Bool.not_eq_true, (hmeets (n - 1) d).2]
    decide

end Quorum

end Interchain
