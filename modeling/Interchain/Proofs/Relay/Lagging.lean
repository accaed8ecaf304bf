import Interchain.Proofs.Relay.Integrity

/-!
# Falling behind

A chain keeps only the last headers for those who read them, and a relayer that waits for the
block of its transaction recognizes it by its header alone.  So it may miss the block if others are
busy meanwhile: `RelayConfig.submit_sealed` says when it is told the block and when it is not.

`World.Follows` says how far a reader has come of what a chain announced since an earlier state,
and `RelayConfig.awaitBlock_succ` what one look of the relayer comes to.
-/

namespace Interchain

variable {σ Key Sig : Type}

/-! ### Headers -/

namespace Site.GrowsTo

variable {s s' : Site} {done before later : List Sealing} {a : Sealing}

theorem length_sent (h : s.GrowsTo done s') :
  s'.feed.sent.length = s.feed.sent.length + done.length
  := by
  rw [h.announced, List.length_append, List.length_reverse, List.length_map, Nat.add_comm]

/-- The header of a block is followed by those of the blocks that were sealed later. -/
theorem getElem?_sent (h : s.GrowsTo (before ++ a :: later) s') :
  s'.feed.sent[later.length]? = some a.block
  := by
  have hlength : later.length = (later.map (·.block)).reverse.length := by simp
  rw [h.announced, List.map_append, List.map_cons, List.reverse_append, List.reverse_cons,
    List.append_assoc, List.append_assoc, hlength, List.getElem?_append_right (Nat.le_refl _),
    Nat.sub_self]
  rfl

theorem exists_later (h : s.GrowsTo (before ++ a :: later) s') {k : Nat} {b : Header}
    (hk : k < later.length) (hb : s'.feed.sent[k]? = some b) :
  ∃ a' ∈ later, a'.block = b
  := by
  have hlength : k < (later.map (·.block)).reverse.length := by simpa using hk
  rw [h.announced, List.map_append, List.map_cons, List.reverse_append, List.reverse_cons,
    List.append_assoc, List.append_assoc, List.getElem?_append_left hlength] at hb
  apply List.mem_map.mp
  apply List.mem_reverse.mp (List.mem_of_getElem? hb)

end Site.GrowsTo

namespace World

variable {w w' : World Key Sig} {reader client i position : Nat} {s₀ s s' : Site}
  {done before later : List Sealing} {a : Sealing}

/-- The chain at a site announced no fewer headers than it had before. -/
theorem GrowsTo.length_sent_le (h : w.GrowsTo w') (hs : w.sites[i]? = some s)
    (hs' : w'.sites[i]? = some s') :
  s.feed.sent.length ≤ s'.feed.sent.length
  := by
  obtain ⟨done, s'', hs'', hgrown⟩ := h.sites hs
  cases hs'.symm.trans hs''
  rw [hgrown.length_sent]
  apply Nat.le_add_right

/-- No later block has the hash of an earlier one. -/
theorem Serves.hash_ne (h : w.Serves client i s₀ (before ++ a :: later) s)
    (hw : w.Separates i s₀) {b : Sealing} (hb : b ∈ later) :
  a.block.hash ≠ b.block.hash
  := by
  obtain ⟨hlength, hc⟩ := hw h.site_eq h.grown
  have hnodup := h.grown.grown.nodup_blocks hlength hc
  rw [List.map_append, List.map_cons] at hnodup
  have hnotMem := (List.nodup_cons.mp (List.nodup_append.mp hnodup).2.1).1
  intro heq
  apply hnotMem
  rw [heq]
  apply List.mem_map_of_mem (f := fun a => a.block.hash) hb

/-- A reader follows the chain at a site, which grew from an earlier state by some sealings, and
was told of so many of its headers. -/
structure Follows (w : World Key Sig) (reader client i : Nat) (s₀ : Site) (done : List Sealing)
    (s : Site) (position : Nat) : Prop extends w.Serves client i s₀ done s where
  isOpen : s.feed.closed = false
  reader_eq : w.readers[reader]? = some ⟨client, position, false⟩

/-- What waits for a reader is what was announced since it was told something. -/
theorem Follows.backlog_eq (h : w.Follows reader client i s₀ done s position) :
  w.backlog reader = s.feed.sent.length - position + 1
  := by
  have hfront : w.front? client = none := by
    rw [front?, h.client_eq]
    rfl
  rw [backlog, h.reader_eq]
  simp only [hfront, Option.map_none, Option.getD_none, feed_eq h.client_eq h.site_eq,
    Nat.add_zero]

end World

namespace Traffic

variable [AggregateScheme Key Sig] {T : Traffic σ Key Sig} {config : ChainConfig}
  {reader client i position : Nat} {s s' : σ} {s₀ site : Site} {done : List Sealing}

omit [AggregateScheme Key Sig] in
/-- Others leave a reader of the chain at a site alone: they do not read in its place nor end the
announcements, and no more headers wait for it than the bound says. -/
structure LeavesAlone (T : Traffic σ Key Sig) (reader i : Nat) : Prop where
  reader_eq : ∀ {s r}, (T.world s).readers[reader]? = some r →
    (T.world (T.others s)).readers[reader]? = some r
  isOpen : ∀ {s site site'}, (T.world s).sites[i]? = some site →
    (T.world (T.others s)).sites[i]? = some site' → site.feed.closed = false →
      site'.feed.closed = false
  backlog_le : ∀ s, (T.world s).backlog reader ≤ T.backlog reader s

omit [AggregateScheme Key Sig] in
/-- Nobody is there to disturb a reader in a quiet world. -/
theorem leavesAlone_quiet (reader i : Nat) :
  (quiet : Traffic (World Key Sig) Key Sig).LeavesAlone reader i
  := by
  constructor
  case reader_eq =>
    intro w r hr
    exact hr
  case isOpen =>
    intro w s s' hs hs' hopen
    cases hs.symm.trans hs'
    exact hopen
  case backlog_le =>
    intro w
    apply Nat.le_refl

omit [AggregateScheme Key Sig] in
/-- A reader follows a chain while others let it grow. -/
theorem follows_others (hT : T.LeavesAlone reader i)
    (h : (T.world s).Follows reader client i s₀ done site position) :
  ∃ later site',
    (T.world (T.others s)).Follows reader client i s₀ (done ++ later) site' position
  := by
  obtain ⟨later, site', hserves⟩ := h.toServes.of_growsTo (T.grows_others s)
  exact ⟨later, site', hserves, hT.isOpen h.site_eq hserves.site_eq h.isOpen,
    hT.reader_eq h.reader_eq⟩

/-- A reader follows a chain to which a transaction is sent. -/
theorem follows_of_submit_eq {t : Transaction} {name : Id} (hT : T.LeavesAlone reader i)
    (h : ((T.access config client).submit t).run s = (.ok name, s'))
    (hfollows : (T.world s).Follows reader client i s₀ done site position) :
  name = t.hash ∧ ∃ later site' a,
    (T.world s').Follows reader client i s₀ (done ++ later ++ [a]) site' position ∧
    a.transaction = t
  := by
  obtain ⟨rfl, later, site₁, x, hserves₁, hx, hw⟩ :=
    T.exists_performUnder_of_submit_eq h hfollows.toServes
  obtain ⟨intrinsic, hadmission, hexecute⟩ := (site₁.chain.performUnder_eq_ok_iff ..).mp hx
  obtain ⟨stations, hsealed⟩ := World.sealed_eq
    (w := (T.world (T.others s)).onMoment Moment.step) hserves₁.site_eq t x
  refine ⟨rfl, later, site₁.withBlock t x, ⟨t, x, (site₁.chain.withBlock t x).head⟩, ?_, rfl⟩
  rw [hw, hsealed]
  have hlt := (List.getElem?_eq_some_iff.mp hserves₁.site_eq).1
  have hisOpen := hT.isOpen hfollows.site_eq hserves₁.site_eq hfollows.isOpen
  exact ⟨⟨hserves₁.client_eq, List.getElem?_set_self hlt,
      hserves₁.grown.trans (Site.growsTo_withBlock hadmission hexecute)⟩,
    hisOpen, hT.reader_eq hfollows.reader_eq⟩

/-- A reader is told what the chain announced by then. -/
theorem follows_of_receive_eq {deadline : Nat} {e : HeadEvent} (hT : T.LeavesAlone reader i)
    (h : (T.access config client).receive reader deadline s = (e, s'))
    (hfollows : (T.world s).Follows reader client i s₀ done site position) :
  ∃ later site', (T.world (T.others s)).sites[i]? = some site' ∧
    e = (site'.feed.receive position).1 ∧
    (T.world s').Follows reader client i s₀ (done ++ later) site' (site'.feed.receive position).2
  := by
  obtain ⟨later, site', hfollows'⟩ := follows_others hT hfollows
  have hrun := T.eq_of_during_eq (x := fun _ => World.receive reader deadline) h
  obtain ⟨m, hreceive⟩ := World.receive_eq hfollows'.client_eq hfollows'.site_eq
    hfollows'.reader_eq deadline
  obtain ⟨he, hw⟩ := Prod.mk_inj.mp (hreceive.symm.trans hrun)
  refine ⟨later, site', hfollows'.site_eq, he.symm, ?_⟩
  rw [← hw]
  have hlt := (List.getElem?_eq_some_iff.mp hfollows'.reader_eq).1
  exact ⟨⟨hfollows'.client_eq, hfollows'.site_eq, hfollows'.grown⟩, hfollows'.isOpen,
    List.getElem?_set_self hlt⟩

/-- A reader follows a chain that is asked for a receipt. -/
theorem follows_of_receipt_eq {transaction : Id} {found : Except ChainError Receipt}
    (hT : T.LeavesAlone reader i)
    (h : ((T.access config client).receipt transaction).run s = (found, s'))
    (hfollows : (T.world s).Follows reader client i s₀ done site position) :
  ∃ later site', found = site'.chain.receipt transaction ∧
    (T.world s').Follows reader client i s₀ (done ++ later) site' position
  := by
  obtain ⟨later, site', hfollows'⟩ := follows_others hT hfollows
  have hrun := T.eq_of_during_eq (x := fun _ => (World.receipt client transaction).run) h
  rw [World.receipt_eq hfollows'.client_eq hfollows'.site_eq] at hrun
  obtain ⟨hfound, hw⟩ := Prod.mk_inj.mp hrun
  rw [hw] at hfollows'
  exact ⟨later, site', hfound.symm, hfollows'⟩

end Traffic

/-! ### Waiting -/

/-- The next transaction of an account, which does nothing. -/
def Chain.idleTransaction (c : Chain) (sender : Address) : Transaction where
  chain := c.config.number
  nonce := c.nonceOf sender
  sender
  recipient := .zero
  gas := 21000
  feeCap := 0
  tipCap := 0
  value := 0
  data := []
  accessList := []

theorem Chain.admission_idleTransaction (c : Chain) (sender : Address) :
  c.admission (c.idleTransaction sender) = .ok 21000
  := by
  apply (c.admission_eq_ok_iff ..).mpr
  exact ⟨rfl, rfl, rfl, Nat.le_refl _⟩

namespace RelayConfig

variable [AggregateScheme Key Sig] {T : Traffic σ Key Sig} {config : ChainConfig}
  {client i reader position deadline n : Nat} {s s' : σ} {s₀ site : Site}
  {before later : List Sealing} {a : Sealing} {o : Except ChainError (Header × Receipt)}

/-- What comes of looking once for a header that was announced at a place: a relayer that waits is
told nothing more, finds the header, or waits on from another position, because it has lost headers
or was told one that is not it. -/
inductive Look (place announced position : Nat) (o : Except ChainError (Header × Receipt))
    (waitsOn : Nat → Prop) : Prop
  | silent (hle : announced ≤ position) (ho : o = .error (.timeout .newHead))
  | found (hle : position ≤ place) (hkept : announced ≤ position + Feed.capacity)
      (hfound : ∃ found, o = .ok found)
  | lagged (hlost : position + Feed.capacity < announced)
      (hrest : waitsOn (announced - Feed.capacity))
  | passed (hne : position ≠ place) (hkept : announced ≤ position + Feed.capacity)
      (hrest : waitsOn (position + 1))

/-- A relayer that waits for the block of a sealed transaction, before whose header some others
were announced, looks for it when others have done something. -/
theorem awaitBlock_succ {place : Nat} (hT : T.LeavesAlone reader i)
    (hplace : s₀.feed.sent.length + before.length = place)
    (h : (awaitBlock (T.access config client) reader a.transaction.hash deadline (n + 1)).run s
      = (o, s'))
    (hfollows : (T.world s).Follows reader client i s₀ (before ++ a :: later) site position)
    (hseparates : (T.world s').Separates i s₀) :
  ∃ site₁, (T.world (T.others s)).sites[i]? = some site₁ ∧ place < site₁.feed.sent.length ∧
    Look place site₁.feed.sent.length position o fun position' => ∃ s₁ new site₂,
      (awaitBlock (T.access config client) reader a.transaction.hash deadline n).run s₁ = (o, s') ∧
      (T.world s₁).Follows reader client i s₀ (before ++ a :: new) site₂ position' ∧
      site₁.feed.sent.length ≤ site₂.feed.sent.length
  := by
  have hgrows := T.grows_access config client
  rcases hevent : (T.access config client).receive reader deadline s with ⟨e, s₁⟩
  obtain ⟨new, site₁, hsite₁, rfl, hfollows₁⟩ := T.follows_of_receive_eq hT hevent hfollows
  rw [List.append_assoc, List.cons_append] at hfollows₁
  have hlength := hfollows₁.grown.length_sent
  rw [List.length_append, List.length_cons] at hlength
  refine ⟨site₁, hsite₁, by omega, ?_⟩
  obtain ⟨hlagging, heq⟩ | ⟨behind, b, hbehind, hkept, hb, heq⟩ | ⟨hle, heq⟩ :=
    site₁.feed.receive_cases position
  · rw [heq] at hevent hfollows₁
    rw [awaitBlock_of_lagged hevent] at h
    exact .lagged hlagging ⟨s₁, _, site₁, h, hfollows₁, Nat.le_refl _⟩
  · rw [heq] at hevent hfollows₁
    rcases hfound : ((T.access config client).receipt a.transaction.hash).run s₁ with ⟨found, s₂⟩
    obtain ⟨new', site₂, rfl, hfollows₂⟩ := T.follows_of_receipt_eq hT hfound hfollows₁
    rw [List.append_assoc, List.cons_append] at hfollows₂
    have hgrown := (hgrows.receipt _).growsTo hfound
    have hseparates₂ :=
      hseparates.of_growsTo (growsTo_of_awaitBlock_of_head hgrows hevent hfound h)
    have hreceipt := hfollows₂.receipt_eq hseparates₂
      (List.mem_append_right before List.mem_cons_self)
    rw [hreceipt] at hfound
    rw [awaitBlock_of_found hevent hfound] at h
    split at h
    · next hhash =>
      cases h
      refine .found ?_ (by omega) ⟨_, rfl⟩
      by_contra hpast
      have hlater : behind < (later ++ new).length := by omega
      obtain ⟨a', ha', rfl⟩ := hfollows₁.grown.exists_later hlater hb
      apply hfollows₁.hash_ne (hseparates₂.of_growsTo hgrown) ha' hhash
    · next hhash =>
      refine .passed ?_ (by omega) ⟨s₂, _, site₂, h, hfollows₂, ?_⟩
      · rintro rfl
        have hlater : behind = (later ++ new).length := by omega
        rw [hlater, hfollows₁.grown.getElem?_sent] at hb
        cases hb
        exact hhash rfl
      · apply hgrown.length_sent_le hfollows₁.site_eq hfollows₂.site_eq
  · rw [heq, hfollows₁.isOpen] at hevent
    rw [awaitBlock_of_silent hevent] at h
    cases h
    exact .silent hle rfl

/-- A relayer that waits for the block of a sealed transaction either finds it, which it cannot if
it looks when the header is no longer kept, or gives up, which it does only if it was told of the
header before, is not told enough, or so many newer blocks are sealed by then. -/
theorem awaitBlock_cases {place : Nat} (hT : T.LeavesAlone reader i)
    (hplace : s₀.feed.sent.length + before.length = place)
    (h : (awaitBlock (T.access config client) reader a.transaction.hash deadline n).run s
      = (o, s'))
    (hfollows : (T.world s).Follows reader client i s₀ (before ++ a :: later) site position)
    (hseparates : (T.world s').Separates i s₀) :
  ((∃ found, o = .ok found) ∧ position ≤ place ∧
    ∀ site', (T.world (T.others s)).sites[i]? = some site' →
      site'.feed.sent.length ≤ place + Feed.capacity) ∨
  (o = .error (.timeout .newHead) ∧ (position ≤ place → position + n ≤ place ∨
    ∀ site', (T.world s').sites[i]? = some site' →
      place + Feed.capacity < site'.feed.sent.length))
  := by
  have hgrows := T.grows_access config client
  induction n generalizing s later site position with
  | zero =>
      cases h
      exact .inr ⟨rfl, .inl⟩
  | succ n ih =>
      obtain ⟨site₁, hsite₁, hannounced, hlook⟩ :=
        awaitBlock_succ hT hplace h hfollows hseparates
      have hthen {site' : Site} (hsite' : (T.world (T.others s)).sites[i]? = some site') :
          site' = site₁ := Option.some.inj (hsite'.symm.trans hsite₁)
      cases hlook with
      | silent hle ho => exact .inr ⟨ho, fun hle => by omega⟩
      | found hle hkept hfound =>
          refine .inl ⟨hfound, hle, fun site' hsite' => ?_⟩
          rw [hthen hsite']
          omega
      | lagged hlost hrest =>
          obtain ⟨s₁, new, site₂, h, hfollows₁, hmore⟩ := hrest
          obtain ⟨hfound, hle, -⟩ | ⟨ho, hlate⟩ := ih h hfollows₁
          · -- what is kept begins before the header
            refine .inl ⟨hfound, by omega, fun site' hsite' => ?_⟩
            rw [hthen hsite']
            omega
          · refine .inr ⟨ho, fun hle => ?_⟩
            by_cases hpast : site₁.feed.sent.length - Feed.capacity ≤ place
            · apply (hlate hpast).imp_left
              intro hfew
              omega
            · right
              intro site' hsite'
              have hgrown := (grows_awaitBlock hgrows _ _ _ _).growsTo h
              have hle' := hgrown.length_sent_le hfollows₁.site_eq hsite'
              omega
      | passed hne hkept hrest =>
          obtain ⟨s₁, new, site₂, h, hfollows₁, -⟩ := hrest
          obtain ⟨hfound, hle, -⟩ | ⟨ho, hlate⟩ := ih h hfollows₁
          · refine .inl ⟨hfound, by omega, fun site' hsite' => ?_⟩
            rw [hthen hsite']
            omega
          · refine .inr ⟨ho, fun hle => ?_⟩
            apply (hlate (by omega)).imp_left
            intro hfew
            omega

/-- Once a transaction that a relayer sent is sealed, its receipt is on the chain, and the relayer
is told its block and its receipt, or that waiting for the block took too long, whatever others
send to the chain meanwhile, as long as no hashes collide.  It is told the block if fewer newer
blocks than the chain keeps headers of are sealed until it is done, and it is not if so many are
sealed before it looks for the first time: then the header of its block is lost, and no other
one has the hash in the receipt. -/
theorem submit_sealed (T : Traffic σ Key Sig) (c : RelayConfig) {config : ChainConfig}
    {reader client i position : Nat} {s s₁ s' : σ} {s₀ site : Site} {done : List Sealing}
    {t : Transaction} {name : Id} {o : Except ChainError (Header × Receipt)}
    (hT : T.LeavesAlone reader i)
    (hfollows : (T.world s).Follows reader client i s₀ done site position)
    (hsince : s₀.feed.sent.length ≤ position) (hle : position ≤ site.feed.sent.length)
    (hsent : ((T.access config client).submit t).run s = (.ok name, s₁))
    (h : (c.submit T.clock (T.access config client) reader t).run s = (o, s'))
    (hseparates : (T.world s').Separates i s₀) :
  ∃ before a later site₁ site', a.transaction = t ∧
    (T.world s₁).Serves client i s₀ (before ++ [a]) site₁ ∧
    (T.world s').Serves client i s₀ (before ++ a :: later) site' ∧
    site'.chain.receipt t.hash = .ok a.receipt ∧
    (o = .ok (a.block, a.receipt) ∨ o = .error (.timeout .newHead)) ∧
    (later.length < Feed.capacity → o = .ok (a.block, a.receipt)) ∧
    ∀ crowd site₂, (T.world (T.others s₁)).Serves client i s₀ (before ++ a :: crowd) site₂ →
      Feed.capacity ≤ crowd.length → o = .error (.timeout .newHead)
  := by
  have hgrows := T.grows_access config client
  obtain ⟨rfl, new, site₁, a, hfollows₁, rfl⟩ := T.follows_of_submit_eq hT hsent hfollows
  rw [submit, Action.run_bind_of_ok hsent, Action.run_get_bind] at h
  have hgrown := (grows_awaitBlock hgrows _ _ _ _).growsTo h
  obtain ⟨later, site', hserves'⟩ := hfollows₁.toServes.of_growsTo hgrown
  rw [List.append_assoc, List.singleton_append] at hserves'
  have hlength := hfollows.grown.length_sent
  have hlength₁ := hfollows₁.grown.length_sent
  have hlength' := hserves'.grown.length_sent
  simp only [List.length_append, List.length_cons, List.length_nil] at hlength₁ hlength'
  -- no more can be told before the header than waits for the reader
  have hbacklog : (T.world s₁).backlog reader ≤ (T.access config client).backlog reader s₁ :=
    hT.backlog_le s₁
  rw [hfollows₁.backlog_eq] at hbacklog
  have hplace : (done ++ new).length = done.length + new.length := List.length_append
  have hcases := awaitBlock_cases hT rfl h hfollows₁ hseparates
  have hfound (found : Header × Receipt) (ho : o = .ok found) :
      o = .ok (a.block, a.receipt) := by
    subst ho
    have hlistens : (T.world s₁).Listens reader client s₀.feed.sent.length :=
      ⟨_, hfollows₁.reader_eq, rfl, hsince⟩
    have ha : a ∈ done ++ new ++ [a] := List.mem_append_right _ List.mem_cons_self
    obtain ⟨hb, hr⟩ := awaitBlock_eq_ok h hfollows₁.toServes hlistens ha hseparates
    rw [← hb, ← hr]
  refine ⟨done ++ new, a, later, site₁, site', rfl, hfollows₁.toServes, hserves', ?_, ?_, ?_, ?_⟩
  · apply hserves'.receipt_eq hseparates (List.mem_append_right _ List.mem_cons_self)
  · obtain ⟨⟨found, ho⟩, -⟩ | ⟨ho, -⟩ := hcases
    · exact .inl (hfound found ho)
    · exact .inr ho
  · intro hlate
    obtain ⟨⟨found, ho⟩, -⟩ | ⟨ho, hlost⟩ := hcases
    · exact hfound found ho
    · rcases hlost (by omega) with hfew | hlost
      · omega
      · have hlost := hlost site' hserves'.site_eq
        omega
  · intro crowd site₂ hserves₂ hcrowd
    have hlength₂ := hserves₂.grown.length_sent
    simp only [List.length_append, List.length_cons] at hlength₂
    obtain ⟨-, -, hkept⟩ | ⟨ho, -⟩ := hcases
    · have hkept := hkept site₂ hserves₂.site_eq
      omega
    · exact ho

/-- In a quiet world a relayer is told the block of its transaction. -/
theorem submit_sealed_twoChains :
  let T : Traffic (World Residue Residue) Residue Residue := .quiet
  let c : RelayConfig := {}
  let site := newSite .zero 1
  let t := site.chain.idleTransaction .zero
  let w : World Residue Residue := { twoChains with readers := [⟨0, 0, false⟩] }
  T.LeavesAlone 0 0 ∧ w.Follows 0 0 0 site [] site 0 ∧
  ∃ (name : Id) (w₁ w' : World Residue Residue) (o : Except ChainError (Header × Receipt))
    (a : Sealing) (site' : Site),
    ((T.access site.chain.config 0).submit t).run w = (.ok name, w₁) ∧
    (c.submit T.clock (T.access site.chain.config 0) 0 t).run w = (o, w') ∧
    w'.Separates 0 site ∧ w'.sites[0]? = some site' ∧ a.transaction = t ∧
    site'.chain.receipt t.hash = .ok a.receipt ∧ o = .ok (a.block, a.receipt)
  := by
  intro T c site t w
  have hleaves : T.LeavesAlone 0 0 := Traffic.leavesAlone_quiet 0 0
  have hclient : w.clients[0]? = some { site := 0 } := rfl
  have hsite : w.sites[0]? = some site := rfl
  have hr : w.readers[0]? = some ⟨0, 0, false⟩ := rfl
  have hfollows : w.Follows 0 0 0 site [] site 0 := ⟨⟨hclient, hsite, .refl site⟩, rfl, hr⟩
  have hx := (site.chain.performUnder_eq_ok_iff (fun _ => w.directoryAt 0) t _).mpr
    ⟨21000, site.chain.admission_idleTransaction .zero, rfl⟩
  obtain ⟨w', hadvances, h⟩ := submit_quiet site.chain.config (c := c) hclient hsite hr hx
  obtain ⟨name, w₁, hsent, -⟩ := Action.run_bind_eq_ok_iff.mp h
  have hsite' := hadvances.getElem?_sites hsite
  have hseparates : w'.Separates 0 site := World.separates_of_length hsite' rfl
  obtain ⟨before, a, later, -, site', ht, -, hserves', hreceipt, -, hkept, -⟩ :=
    submit_sealed T c hleaves hfollows (Nat.le_refl _) (Nat.le_refl _) hsent h hseparates
  cases hsite'.symm.trans hserves'.site_eq
  have hfew : later.length < Feed.capacity := by
    have hlength : 1 = 0 + (before ++ a :: later).length := hserves'.grown.length_sent
    rw [List.length_append, List.length_cons] at hlength
    rw [Feed.capacity]
    omega
  exact ⟨hleaves, hfollows, name, w₁, w', _, a, _, hsent, h, hseparates, hsite', ht, hreceipt,
    hkept hfew⟩

end RelayConfig

end Interchain
