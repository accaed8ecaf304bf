import Mathlib.Data.List.Induction
import Mathlib.Tactic.Use
import Interchain.Proofs.DirectVerification

/-!
# Validators at a pinned height

A history is told facts about chains, subnets and heights, in any order.  At a height it answers
with the validators that are in effect there (`History.snapshot_eq_ok_iff`): those recorded last
for the greatest height that is not above.  What is recorded later for greater heights or for
other subnets changes neither this answer nor what a message is worth that is verified at the
height, as `History.answers_stable` says.
-/

namespace Interchain

variable {Key Sig : Type}

namespace History

/-- A fact that a history is told. -/
inductive Fact (Key : Type) where
  /-- A subnet validates a chain from now on. -/
  | chain (chain subnet : Id)
  /-- A subnet has the given validators from a height on. -/
  | validators (subnet : Id) (since : UInt64) (s : Snapshot Key)
  /-- The current height is another one. -/
  | height (height : UInt64)

namespace Fact

/-- The validators that a fact gives to a subnet from just this height on. -/
def snapshotOf? (subnet : Id) (since : UInt64) : Fact Key → Option (Snapshot Key)
  | validators subnet' since' s => if subnet' = subnet ∧ since' = since then some s else none
  | _ => none

/-- A fact says nothing about the validators of a subnet up to a height. -/
def Spares (height : UInt64) (subnet : Id) : Fact Key → Prop
  | validators subnet' since _ => height < since ∨ subnet' ≠ subnet
  | _ => True

end Fact

/-- The history that was told one more fact. -/
def tell (h : History Key) : Fact Key → History Key
  | .chain chain subnet => h.registerChain chain subnet
  | .validators subnet since s => h.record subnet since s
  | .height height => h.setHeight height

/-- The history that was told some facts, the first one first. -/
def ofFacts (facts : List (Fact Key)) : History Key := facts.foldl tell {}

theorem ofFacts_concat (facts : List (Fact Key)) (f : Fact Key) :
  ofFacts (facts ++ [f]) = (ofFacts facts).tell f
  := List.foldl_append ..

/-! ### What is in effect -/

/-- The validators of a subnet that are in effect at a height, by some facts: those recorded last
for the greatest of the heights that are not above. -/
structure InEffect (facts : List (Fact Key)) (height : UInt64) (subnet : Id) (since : UInt64)
    (s : Snapshot Key) : Prop where
  le : since ≤ height
  last : (facts.filterMap (Fact.snapshotOf? subnet since)).getLast? = some s
  greatest : ∀ since' s', .validators subnet since' s' ∈ facts → since' ≤ height → since' ≤ since

/-- No validators of a subnet are in effect at a height, by some facts. -/
def NoneInEffect (facts : List (Fact Key)) (height : UInt64) (subnet : Id) : Prop :=
  ∀ since s, .validators subnet since s ∈ facts → height < since

variable {facts : List (Fact Key)} {height since : UInt64} {subnet : Id} {s : Snapshot Key}

theorem InEffect.mem (h : InEffect facts height subnet since s) :
  .validators subnet since s ∈ facts
  := by
  obtain ⟨f, hf, hs⟩ := List.mem_filterMap.mp (List.mem_of_getLast? h.last)
  cases f with
  | validators subnet' since' s' =>
      rw [Fact.snapshotOf?] at hs
      split at hs
      · next heq =>
        obtain ⟨rfl, rfl⟩ := heq
        cases hs
        exact hf
      · cases hs
  | chain _ _ => cases hs
  | height _ => cases hs

/-- At a height the validators of one record are in effect. -/
theorem InEffect.unique {since' : UInt64} {s' : Snapshot Key}
    (h : InEffect facts height subnet since s) (h' : InEffect facts height subnet since' s') :
  since = since' ∧ s = s'
  := by
  obtain rfl : since = since' := by
    apply UInt64.le_antisymm
    · apply h'.greatest _ _ h.mem h.le
    · apply h.greatest _ _ h'.mem h'.le
  use rfl
  apply Option.some.inj
  rw [← h.last, ← h'.last]

/-- What is in effect is not so if no validators are. -/
theorem NoneInEffect.not_inEffect (h : NoneInEffect facts height subnet) :
  ¬ InEffect facts height subnet since s
  := by
  intro h'
  apply UInt64.not_le.mpr (h _ _ h'.mem) h'.le

/-- A record for a height that is not above, and not below any other such, is in effect. -/
theorem inEffect_concat (hle : since ≤ height)
    (h : ∀ since' s', .validators subnet since' s' ∈ facts → since' ≤ height → since' ≤ since) :
  InEffect (facts ++ [.validators subnet since s]) height subnet since s
  := by
  constructor
  case le => exact hle
  case last =>
    rw [List.filterMap_append, List.getLast?_append]
    simp [Fact.snapshotOf?]
  case greatest =>
    intro since' s' hmem hle'
    rcases List.mem_append.mp hmem with hmem | hmem
    · apply h since' s' hmem hle'
    · cases List.mem_singleton.mp hmem
      apply UInt64.le_refl

/-- What is in effect stays so after a record for a height below, or for none that matters. -/
theorem InEffect.concat (h : InEffect facts height subnet since s) {f : Fact Key}
    (hf : ∀ since' s', f = .validators subnet since' s' → since' ≤ height → since' < since) :
  InEffect (facts ++ [f]) height subnet since s
  := by
  constructor
  case le => exact h.le
  case last =>
    have hnone : f.snapshotOf? subnet since = none := by
      cases f with
      | validators subnet' since' s' =>
          apply if_neg
          rintro ⟨rfl, rfl⟩
          apply UInt64.lt_irrefl _ (hf _ _ rfl h.le)
      | chain _ _ => rfl
      | height _ => rfl
    rw [List.filterMap_append, List.filterMap_cons_none hnone, List.filterMap_nil,
      List.append_nil]
    exact h.last
  case greatest =>
    intro since' s' hmem hle
    rcases List.mem_append.mp hmem with hmem | hmem
    · apply h.greatest _ _ hmem hle
    · apply UInt64.le_of_lt
      apply hf _ _ (List.mem_singleton.mp hmem).symm hle

theorem NoneInEffect.concat (h : NoneInEffect facts height subnet) {f : Fact Key}
    (hf : ∀ since s, f = .validators subnet since s → height < since) :
  NoneInEffect (facts ++ [f]) height subnet
  := by
  intro since s hmem
  rcases List.mem_append.mp hmem with hmem | hmem
  · apply h _ _ hmem
  · apply hf _ _ (List.mem_singleton.mp hmem).symm

/-! ### What is found -/

/-- Only a record of the subnet for a height that is not above changes what is found. -/
theorem latest_tell (h : History Key) (height : UInt64) (subnet : Id) (f : Fact Key) :
  (∃ since s, f = .validators subnet since s ∧ since ≤ height ∧
    (h.tell f).latest height subnet
      = match h.latest height subnet with
        | some (b, old) => if b ≤ since then some (since, s) else some (b, old)
        | none => some (since, s)) ∨
  (∀ since s, f = .validators subnet since s → height < since) ∧
    (h.tell f).latest height subnet = h.latest height subnet
  := by
  cases f with
  | validators subnet' since s =>
      by_cases hf : subnet' = subnet ∧ since ≤ height
      · left
        obtain ⟨rfl, hle⟩ := hf
        refine ⟨since, s, rfl, hle, ?_⟩
        exact if_pos ⟨rfl, hle⟩
      · right
        constructor
        · rintro _ _ ⟨⟩
          apply UInt64.not_le.mp
          intro hle
          exact hf ⟨rfl, hle⟩
        · exact if_neg hf
  | chain _ _ => exact .inr ⟨nofun, rfl⟩
  | height _ => exact .inr ⟨nofun, rfl⟩

/-- What is found of the validators of a subnet at a height is what is in effect there. -/
theorem latest_ofFacts (facts : List (Fact Key)) (height : UInt64) (subnet : Id) :
  match (ofFacts facts).latest height subnet with
  | some (since, s) => InEffect facts height subnet since s
  | none => NoneInEffect facts height subnet
  := by
  induction facts using List.reverseRecOn with
  | nil => exact nofun
  | append_singleton facts f ih =>
      rw [ofFacts_concat]
      obtain ⟨since, s, rfl, hle, hlatest⟩ | ⟨hf, hlatest⟩ :=
        (ofFacts facts).latest_tell height subnet f
      · rw [hlatest]
        cases hfound : (ofFacts facts).latest height subnet with
        | none =>
            rw [hfound] at ih
            apply inEffect_concat hle
            intro since' s' hmem hle'
            exact absurd hle' (UInt64.not_le.mpr (ih since' s' hmem))
        | some found =>
            obtain ⟨b, old⟩ := found
            rw [hfound] at ih
            dsimp only at ih ⊢
            by_cases hb : b ≤ since
            · rw [if_pos hb]
              apply inEffect_concat hle
              intro since' s' hmem hle'
              apply UInt64.le_trans (ih.greatest since' s' hmem hle') hb
            · rw [if_neg hb]
              apply ih.concat
              rintro _ _ ⟨⟩ -
              apply UInt64.not_le.mp hb
      · rw [hlatest]
        cases hfound : (ofFacts facts).latest height subnet with
        | none =>
            rw [hfound] at ih
            apply ih.concat hf
        | some found =>
            rw [hfound] at ih
            apply ih.concat
            intro since s heq hle
            exact absurd hle (UInt64.not_le.mpr (hf since s heq))

/-- The answer for a height is the validators in effect. -/
theorem snapshot_eq_ok_iff (facts : List (Fact Key)) (height : UInt64) (subnet : Id)
    (s : Snapshot Key) :
  (ofFacts facts).directory.snapshot height subnet = .ok s
    ↔ ∃ since, InEffect facts height subnet since s
  := by
  have hlatest := latest_ofFacts facts height subnet
  simp only [directory]
  cases hfound : (ofFacts facts).latest height subnet with
  | none =>
      rw [hfound] at hlatest
      constructor
      · rintro ⟨⟩
      · rintro ⟨since, h⟩
        exact absurd h hlatest.not_inEffect
  | some found =>
      obtain ⟨b, old⟩ := found
      rw [hfound] at hlatest
      constructor
      · rintro ⟨⟩
        exact ⟨b, hlatest⟩
      · rintro ⟨since, h⟩
        exact congrArg Except.ok (hlatest.unique h).2

/-- There is no answer for a height exactly if no validators are in effect. -/
theorem snapshot_eq_error_iff (facts : List (Fact Key)) (height : UInt64) (subnet : Id)
    (e : MessageError) :
  (ofFacts facts).directory.snapshot height subnet = .error e
    ↔ NoneInEffect facts height subnet ∧ e = .setUnavailable height.toNat subnet
  := by
  have hlatest := latest_ofFacts facts height subnet
  simp only [directory]
  cases hfound : (ofFacts facts).latest height subnet with
  | none =>
      rw [hfound] at hlatest
      constructor
      · rintro ⟨⟩
        exact ⟨hlatest, rfl⟩
      · rintro ⟨-, rfl⟩
        rfl
  | some found =>
      rw [hfound] at hlatest
      constructor
      · rintro ⟨⟩
      · rintro ⟨h, -⟩
        exact absurd hlatest h.not_inEffect

/-! ### What stays -/

/-- Later facts that say nothing about the validators of a subnet up to a height do not change
what is found there. -/
theorem snapshot_append (facts : List (Fact Key)) {later : List (Fact Key)}
    (h : ∀ f ∈ later, f.Spares height subnet) :
  (ofFacts (facts ++ later)).directory.snapshot height subnet
    = (ofFacts facts).directory.snapshot height subnet
  := by
  have hlatest : (ofFacts (facts ++ later)).latest height subnet
      = (ofFacts facts).latest height subnet := by
    induction later using List.reverseRecOn with
    | nil => rw [List.append_nil]
    | append_singleton later f ih =>
        obtain ⟨hlater, hf⟩ := List.forall_mem_append.mp h
        rw [← List.append_assoc, ofFacts_concat, ← ih hlater]
        obtain ⟨since, s, rfl, hle, -⟩ | ⟨-, hlatest⟩ :=
          (ofFacts (facts ++ later)).latest_tell height subnet f
        · rcases hf _ (List.mem_singleton_self _) with habove | hother
          · exact absurd hle (UInt64.not_le.mpr habove)
          · exact absurd rfl hother
        · exact hlatest
  simp only [directory, hlatest]

/-- Later facts about other chains do not change which subnet validates a chain. -/
theorem subnetOf_append {later : List (Fact Key)} {chain : Id}
    (h : ∀ subnet, .chain chain subnet ∉ later) :
  (ofFacts (facts ++ later)).directory.subnetOf chain
    = (ofFacts facts).directory.subnetOf chain
  := by
  have hfound : (ofFacts (facts ++ later)).chains.find? (·.1 = chain)
      = (ofFacts facts).chains.find? (·.1 = chain) := by
    induction later using List.reverseRecOn with
    | nil => rw [List.append_nil]
    | append_singleton later f ih =>
        rw [← List.append_assoc, ofFacts_concat, ← ih fun subnet hmem =>
          h subnet (List.mem_append_left _ hmem)]
        cases f with
        | chain chain' subnet =>
            apply List.find?_cons_of_neg
            rintro hchain
            obtain rfl : chain' = chain := of_decide_eq_true hchain
            apply h subnet
            apply List.mem_append_right _ (List.mem_singleton_self _)
        | validators _ _ _ => rfl
        | height _ => rfl
  simp only [directory, hfound]

end History

variable [AggregateScheme Key Sig]

/-- Directories that say the same of the chain of a message and of the subnet that attests for it
verify the message alike. -/
theorem SignedMessage.verifyAt_congr {d d' : Directory Key} (m : SignedMessage) (network : UInt32)
    {own : Id} {height : UInt64} (quorum : Quorum)
    (hsubnet : d'.subnetOf m.message.chain = d.subnetOf m.message.chain)
    (hsnapshot : ∀ source, d.subnetOf m.message.chain = .ok source →
      d'.snapshot height (Directory.attestingSubnet source own)
        = d.snapshot height (Directory.attestingSubnet source own)) :
  m.verifyAt d' network own height quorum = m.verifyAt d network own height quorum
  := by
  have hset : d'.sourceSet height m.message.chain own
      = d.sourceSet height m.message.chain own := by
    rw [Directory.sourceSet, Directory.sourceSet, hsubnet]
    cases hsource : d.subnetOf m.message.chain with
    | error e => rfl
    | ok source =>
        show d'.canonicalSet _ _ = d.canonicalSet _ _
        rw [Directory.canonicalSet, Directory.canonicalSet, hsnapshot source hsource]
  rw [verifyAt, verifyAt, hset]

/-- The answer of a history for a height and a subnet is what was recorded last for the greatest
height that is not above, if there is such a record.  Neither the answer changes by what is
recorded later for greater heights, for other subnets, of other chains or of the current height,
nor the result, be it weights or an error, of verifying at that height any message for which this
subnet attests. -/
theorem History.answers_stable (facts : List (Fact Key)) (height : UInt64) (subnet : Id) :
  (∀ s, (ofFacts facts).directory.snapshot height subnet = .ok s
    ↔ ∃ since, InEffect facts height subnet since s) ∧
  (∀ e, (ofFacts facts).directory.snapshot height subnet = .error e
    ↔ NoneInEffect facts height subnet ∧ e = .setUnavailable height.toNat subnet) ∧
  ∀ later : List (Fact Key), (∀ f ∈ later, f.Spares height subnet) →
    (ofFacts (facts ++ later)).directory.snapshot height subnet
      = (ofFacts facts).directory.snapshot height subnet ∧
    ∀ (m : SignedMessage) (network : UInt32) (own : Id) (quorum : Quorum),
      (∀ subnet, .chain m.message.chain subnet ∉ later) →
      (∀ source, (ofFacts facts).directory.subnetOf m.message.chain = .ok source →
        Directory.attestingSubnet source own = subnet) →
      m.verifyAt (ofFacts (facts ++ later)).directory network own height quorum
        = m.verifyAt (ofFacts facts).directory network own height quorum
  := by
  use snapshot_eq_ok_iff facts height subnet, snapshot_eq_error_iff facts height subnet
  intro later hlater
  have hsnapshot := snapshot_append facts hlater
  use hsnapshot
  intro m network own quorum hchain hattests
  apply m.verifyAt_congr network quorum (subnetOf_append hchain)
  intro source hsource
  rw [hattests source hsource, hsnapshot]

/-- Once the validator of a subnet was replaced at a lower height than one it was recorded for
first, a message that the new one signed is verified at a height between, and so it is after later
rotations, those of other subnets and a change of the current height. -/
theorem History.answers_stable_rotated :
  let chain : Id := ⟨.replicate 32 1⟩
  let subnet : Id := ⟨.replicate 32 2⟩
  let facts : List (Fact Residue) := [.chain chain subnet,
    .validators subnet 5 [⟨default, some 7, 1⟩], .validators subnet 1 [⟨default, some 7, 1⟩],
    .validators subnet 1 [⟨default, some 3, 1⟩]]
  let later : List (Fact Residue) := [.validators subnet 4 [⟨default, some 9, 1⟩],
    .validators chain 2 [⟨default, some 9, 1⟩], .height 0]
  (∀ f ∈ later, f.Spares 3 subnet) ∧ (∀ subnet', .chain chain subnet' ∉ later) ∧
  InEffect facts 3 subnet 1 [⟨default, some 3, 1⟩] ∧
  (ofFacts (facts ++ later)).directory.snapshot 3 subnet = .ok [⟨default, some 3, 1⟩] ∧
  ∃ m : SignedMessage, m.message.chain = chain ∧
    m.verifyAt (ofFacts (facts ++ later)).directory 1 .zero 3 .standard = .ok ⟨1, 1⟩
  := by
  intro chain subnet facts later
  obtain ⟨hanswer, -, hstable⟩ := answers_stable facts 3 subnet
  have hspares : ∀ f ∈ later, f.Spares 3 subnet := by
    simp only [later, List.forall_mem_cons, List.not_mem_nil, false_implies, implies_true]
    exact ⟨.inl (by decide), .inr (by decide), trivial, trivial⟩
  have hchains : ∀ subnet', .chain chain subnet' ∉ later := by
    intro subnet' hmem
    simp [later] at hmem
  have hsnapshot : (ofFacts facts).directory.snapshot 3 subnet
      = .ok [⟨default, some 3, 1⟩] := rfl
  obtain ⟨since, heffect⟩ := (hanswer _).mp hsnapshot
  obtain rfl : since = 1 := by
    simpa [facts, show (3 : Residue) ≠ 7 by decide] using heffect.mem
  obtain ⟨hsame, hverify⟩ := hstable later hspares
  obtain ⟨m, hnetwork, hchain, hsigned, sig, hdecode, hsig⟩ :=
    SignedMessage.exists_signed_residue 1 chain (show (3 : Residue) ≠ 0 by decide)
  have hsubnet : (ofFacts facts).directory.subnetOf m.message.chain = .ok subnet := by
    rw [hchain]
    rfl
  use hspares, hchains
  refine ⟨heffect, ?_, m, hchain, ?_⟩
  · rw [hsame, hsnapshot]
  · rw [hverify m 1 .zero .standard (by rwa [hchain]), ← hnetwork]
    · apply SignedMessage.verifyAt_of_sole default .standard _ hsigned hdecode hsig
      apply (Directory.sourceSet_eq_ok_iff ..).mpr
      use subnet, [⟨default, some 3, 1⟩], hsubnet, hsnapshot
      apply ValidatorSet.ofRecords_sole
    · intro source hsource
      cases hsubnet.symm.trans hsource
      rfl

end Interchain
