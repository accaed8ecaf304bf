import Interchain.Proofs.Relay.Traffic

/-!
# Having a transaction sealed

A relayer that sends a transaction to a chain and waits for its block is told the block that the
chain sealed it into and the receipt that it has there, whatever others send to the chain
meanwhile, as long as no hashes collide.  `World.Serves` says how a chain came to be since the
relayer began, and `RelayConfig.submit_eq_ok` what was sealed.
-/

namespace Interchain

variable {σ Key Sig : Type}

/-! ### A chain since an earlier state -/

namespace World

variable {w w' : World Key Sig} {client i : Nat} {s₀ s : Site} {done : List Sealing}

/-- A client uses directly the chain at a site, which grew from an earlier state by some
sealings. -/
structure Serves (w : World Key Sig) (client i : Nat) (s₀ : Site) (done : List Sealing)
    (s : Site) : Prop where
  client_eq : w.clients[client]? = some { site := i }
  site_eq : w.sites[i]? = some s
  grown : s₀.GrowsTo done s

/-- What was sealed stays sealed. -/
theorem Serves.of_growsTo (h : w.Serves client i s₀ done s) (hg : w.GrowsTo w') :
  ∃ later s', w'.Serves client i s₀ (done ++ later) s'
  := by
  obtain ⟨later, s', hs', hgrown⟩ := hg.sites h.site_eq
  exact ⟨later, s', hg.clients h.client_eq, hs', h.grown.trans hgrown⟩

/-- By whatever sealings a chain grew from an earlier state, they are not too many for the
numbers of blocks and transactions, and no two of them have the same hash by chance. -/
def Separates (w : World Key Sig) (i : Nat) (s₀ : Site) : Prop :=
  ∀ ⦃done s⦄, w.sites[i]? = some s → s₀.GrowsTo done s →
    done.length < 2 ^ 64 ∧ Sealing.Collisionless done

theorem Separates.of_growsTo (h : w'.Separates i s₀) (hg : w.GrowsTo w') :
  w.Separates i s₀
  := by
  intro done s hs hgrown
  obtain ⟨later, s', hs', hgrown'⟩ := hg.sites hs
  obtain ⟨hlength, hc⟩ := h hs' (hgrown.trans hgrown')
  rw [List.length_append] at hlength
  exact ⟨by omega, hc.of_subset (List.subset_append_left _ _)⟩

/-- A single sealing is not one too many. -/
theorem separates_of_length (hsite : w.sites[i]? = some s)
    (hlength : s.feed.sent.length = s₀.feed.sent.length + 1) :
  w.Separates i s₀
  := by
  intro done s' hs' hgrown
  cases hsite.symm.trans hs'
  rw [hgrown.announced, List.length_append, List.length_reverse, List.length_map] at hlength
  obtain ⟨a, rfl⟩ := List.length_eq_one_iff.mp (show done.length = 1 by omega)
  exact ⟨by norm_num, Sealing.collisionless_singleton a⟩

/-- A new chain whose transactions and blocks have different hashes could not have come to be by
any with hashes in common. -/
theorem separates_of_nodup (hsite : w.sites[i]? = some s)
    (hnew : s₀.chain.receipts.entries = []) (hgrown : s₀.GrowsTo done s)
    (hlength : done.length < 2 ^ 64) (hhashes : (done.map (·.transaction.hash)).Nodup)
    (hblocks : (done.map (·.block.hash)).Nodup) :
  w.Separates i s₀
  := by
  intro done' s' hs' hgrown'
  cases hsite.symm.trans hs'
  have heq : done'.map (·.block) = done.map (·.block) := by
    have hannounced := hgrown'.announced.symm.trans hgrown.announced
    exact List.reverse_injective (List.append_cancel_right hannounced)
  have hlength' : done'.length = done.length := by
    have hmap := congrArg List.length heq
    rwa [List.length_map, List.length_map] at hmap
  use hlength'.trans_lt hlength
  apply hgrown'.grown.collisionless
  · apply hgrown'.grown.nodup_hashes_of_length_receipts
    rw [hgrown.grown.length_receipts_eq hnew hhashes, hnew, hlength']
    exact (Nat.zero_add _).symm
  · have hmap : done'.map (·.block.hash) = done.map (·.block.hash) := by
      have hhash := congrArg (List.map Header.hash) heq
      rwa [List.map_map, List.map_map] at hhash
    rwa [hmap]

/-- A chain has the receipts of all transactions that it sealed. -/
theorem Serves.receipt_eq (h : w.Serves client i s₀ done s) (hw : w.Separates i s₀) {a : Sealing}
    (ha : a ∈ done) :
  s.chain.receipt a.transaction.hash = .ok a.receipt
  := by
  obtain ⟨hlength, hc⟩ := hw h.site_eq h.grown
  exact h.grown.grown.receipt_eq (h.grown.grown.nodup_hashes hlength hc) ha

/-- A chain has the logs of all blocks that it sealed, which are those of the messenger. -/
theorem Serves.logs_eq (h : w.Serves client i s₀ done s) (hw : w.Separates i s₀) {a : Sealing}
    (ha : a ∈ done) :
  s.chain.logs a.block.hash messengerAddress = a.receipt.logs
  := by
  obtain ⟨hlength, hc⟩ := hw h.site_eq h.grown
  have hlogs := h.grown.grown.get?_blockLogs_eq (h.grown.grown.nodup_blocks hlength hc) ha
  rw [Chain.logs, hlogs, Option.getD_some, List.filter_eq_self.mpr]
  intro l hl
  obtain ⟨_, -, rfl⟩ := List.mem_map.mp hl
  exact decide_eq_true rfl

/-- A block has one transaction. -/
theorem Serves.eq_of_hash_eq (h : w.Serves client i s₀ done s) (hw : w.Separates i s₀)
    {a b : Sealing} (ha : a ∈ done) (hb : b ∈ done) (heq : a.block.hash = b.block.hash) :
  a = b
  := by
  obtain ⟨hlength, hc⟩ := hw h.site_eq h.grown
  exact List.inj_on_of_nodup_map (h.grown.grown.nodup_blocks hlength hc) ha hb heq

end World

/-! ### Calls -/

namespace Traffic

variable [AggregateScheme Key Sig] {T : Traffic σ Key Sig} {config : ChainConfig}
  {client i reader deadline : Nat} {s s' : σ} {s₀ site : Site} {done : List Sealing}

/-- A new reader is told of what is sealed from then on. -/
theorem listens_of_subscribe_eq (h : (T.access config client).subscribe s = (reader, s'))
    (hserves : (T.world s).Serves client i s₀ done site) :
  (T.world s').Listens reader client s₀.feed.sent.length
  := by
  obtain ⟨later, site', hserves'⟩ := hserves.of_growsTo (T.grows_others s)
  have hrun := T.eq_of_during_eq (x := fun _ => World.subscribe client) h
  have hlistens := World.listens_subscribe hserves'.client_eq hserves'.site_eq
  rw [hrun, hserves'.grown.announced, List.length_append] at hlistens
  obtain ⟨r, hr, hclient, hle⟩ := hlistens
  exact ⟨r, hr, hclient, by omega⟩

/-- A header that a relayer is told of is that of a block sealed since an earlier state. -/
theorem block_of_receive_eq {b : Header}
    (h : (T.access config client).receive reader deadline s = (.head b, s'))
    (hserves : (T.world s).Serves client i s₀ done site)
    (hlistens : (T.world s).Listens reader client s₀.feed.sent.length) :
  ∃ later site', (T.world s').Serves client i s₀ (done ++ later) site' ∧
    ∃ a ∈ done ++ later, a.block = b
  := by
  have hothers := T.grows_others s
  obtain ⟨later, site', hserves'⟩ := hserves.of_growsTo hothers
  obtain ⟨hidles, htells⟩ := World.tells_receive reader deadline (T.world (T.others s))
  have hrun := T.eq_of_during_eq (x := fun _ => World.receive reader deadline) h
  rw [hrun] at hidles htells
  have hb := htells b rfl (hlistens.of_growsTo hothers) hserves'.client_eq hserves'.site_eq
  refine ⟨later, site', ⟨hidles.clients hserves'.client_eq, ?_, hserves'.grown⟩,
    hserves'.grown.exists_block hb⟩
  rw [hidles.sites_eq]
  exact hserves'.site_eq

/-- A receipt that a relayer finds is one of the chain. -/
theorem receipt_of_run_eq {transaction : Id} {r : Receipt}
    (h : ((T.access config client).receipt transaction).run s = (.ok r, s'))
    (hserves : (T.world s).Serves client i s₀ done site) :
  ∃ later site', (T.world s').Serves client i s₀ (done ++ later) site' ∧
    site'.chain.receipt transaction = .ok r
  := by
  obtain ⟨later, site', hserves'⟩ := hserves.of_growsTo (T.grows_others s)
  have hrun := T.eq_of_during_eq (x := fun _ => (World.receipt client transaction).run) h
  rw [World.receipt_eq hserves'.client_eq hserves'.site_eq] at hrun
  obtain ⟨hr, hw⟩ := Prod.mk_inj.mp hrun
  rw [hw] at hserves'
  exact ⟨later, site', hserves', hr⟩

/-- The logs that a relayer finds are those of the chain. -/
theorem logs_of_run_eq {block : Id} {a : Address} {logs : List Log}
    (h : ((T.access config client).logs block a).run s = (.ok logs, s'))
    (hserves : (T.world s).Serves client i s₀ done site) :
  ∃ later site', (T.world s').Serves client i s₀ (done ++ later) site' ∧
    logs = site'.chain.logs block a
  := by
  obtain ⟨later, site', hserves'⟩ := hserves.of_growsTo (T.grows_others s)
  have hrun := T.eq_of_during_eq (x := fun _ => (World.logs client block a).run) h
  rw [World.logs_eq hserves'.client_eq hserves'.site_eq] at hrun
  obtain ⟨hlogs, hw⟩ := Prod.mk_inj.mp hrun
  rw [hw] at hserves'
  cases hlogs
  exact ⟨later, site', hserves', rfl⟩

/-- At a moment between two states something holds of the chain at a site. -/
def Meanwhile (T : Traffic σ Key Sig) (s s' : σ) (i : Nat) (P : σ → Chain → Prop) : Prop :=
  ∃ s₁ site, (T.world s).GrowsTo (T.world s₁) ∧ (T.world s₁).GrowsTo (T.world s') ∧
    (T.world s₁).sites[i]? = some site ∧ P s₁ site.chain

omit [AggregateScheme Key Sig] in
theorem Meanwhile.mono {r r' : σ} {P Q : σ → Chain → Prop} (h : T.Meanwhile s s' i P)
    (hs : (T.world r).GrowsTo (T.world s)) (hs' : (T.world s').GrowsTo (T.world r'))
    (hPQ : ∀ s₁ chain, P s₁ chain → Q s₁ chain) :
  T.Meanwhile r r' i Q
  := by
  obtain ⟨s₁, site, hbefore, hafter, hsite, h⟩ := h
  exact ⟨s₁, site, hs.trans hbefore, hafter.trans hs', hsite, hPQ s₁ site.chain h⟩

/-- Between two states the chain at a site admitted a transaction and executed it, its questions
about validators being answered by the directories of that moment. -/
def Performed (T : Traffic σ Key Sig) (s s' : σ) (i : Nat) (a : Sealing) : Prop :=
  T.Meanwhile s s' i fun s₁ chain =>
    chain.performUnder (T.answers s₁ i) a.transaction = .ok a.execution

/-- Between two states a transaction was sent through a client, and the chain at a site, which
grew from an earlier state of it, sealed it then. -/
def Submitted (T : Traffic σ Key Sig) (config : ChainConfig) (client : Nat) (s s' : σ) (i : Nat)
    (s₀ : Site) (a : Sealing) : Prop :=
  ∃ s₁ s₂ before site, (T.world s).GrowsTo (T.world s₁) ∧
    ((T.access config client).submit a.transaction).run s₁ = (.ok a.transaction.hash, s₂) ∧
    (T.world s₂).Serves client i s₀ (before ++ [a]) site ∧ (T.world s₂).GrowsTo (T.world s')

theorem Submitted.mono {r r' : σ} {a : Sealing} (h : T.Submitted config client s s' i s₀ a)
    (hs : (T.world r).GrowsTo (T.world s)) (hs' : (T.world s').GrowsTo (T.world r')) :
  T.Submitted config client r r' i s₀ a
  := by
  obtain ⟨s₁, s₂, before, site, hbefore, hsubmit, hserves, hafter⟩ := h
  exact ⟨s₁, s₂, before, site, hs.trans hbefore, hsubmit, hserves, hafter.trans hs'⟩

/-- A transaction that a relayer sends with success is admitted, executed and sealed when others
have done something. -/
theorem exists_performUnder_of_submit_eq {t : Transaction} {name : Id}
    (h : ((T.access config client).submit t).run s = (.ok name, s'))
    (hserves : (T.world s).Serves client i s₀ done site) :
  name = t.hash ∧ ∃ later site' x,
    (T.world (T.others s)).Serves client i s₀ (done ++ later) site' ∧
    site'.chain.performUnder (T.answers (T.others s) i) t = .ok x ∧
    T.world s' = ((T.world (T.others s)).onMoment Moment.step).sealed i t x
  := by
  obtain ⟨later, site', hserves'⟩ := hserves.of_growsTo (T.grows_others s)
  have hrun := T.eq_of_during_eq
    (x := fun s => (World.sendUnder client t (T.answers s)).run) h
  rw [World.sendUnder_run hserves'.client_eq hserves'.site_eq rfl] at hrun
  cases hx : site'.chain.performUnder (T.answers (T.others s) i) t with
  | error e =>
      rw [hx] at hrun
      cases hrun
  | ok x =>
      rw [hx] at hrun
      obtain ⟨hname, hw⟩ := Prod.mk_inj.mp hrun
      cases hname
      exact ⟨rfl, later, site', x, hserves', hx, hw.symm⟩

/-- A transaction that a relayer sends with success is sealed, and its block is the last one
then. -/
theorem sealed_of_submit_eq {t : Transaction} {name : Id}
    (h : ((T.access config client).submit t).run s = (.ok name, s'))
    (hserves : (T.world s).Serves client i s₀ done site) :
  name = t.hash ∧ ∃ later site' a, (T.world s').Serves client i s₀ (done ++ later ++ [a]) site' ∧
    a.transaction = t ∧ T.Performed s s' i a
  := by
  obtain ⟨rfl, later, site₁, x, hserves₁, hx, hw⟩ := T.exists_performUnder_of_submit_eq h hserves
  obtain ⟨intrinsic, hadmission, hexecute⟩ := (site₁.chain.performUnder_eq_ok_iff ..).mp hx
  have hsite := World.getElem?_sites_sealed
    (w := (T.world (T.others s)).onMoment Moment.step) hserves₁.site_eq t x
  have hgrown : (T.world (T.others s)).GrowsTo (T.world s') := by
    rw [hw]
    exact (World.GrowsTo.onMoment _ _).trans (.sealed hserves₁.site_eq hadmission hexecute)
  rw [← hw] at hsite
  have hseal := hserves₁.grown.trans (Site.growsTo_withBlock hadmission hexecute)
  exact ⟨rfl, _, _, _, ⟨hgrown.clients hserves₁.client_eq, hsite, hseal⟩, rfl,
    T.others s, site₁, T.grows_others s, hgrown, hserves₁.site_eq, hx⟩

end Traffic

/-! ### Waiting for a block -/

namespace RelayConfig

theorem grows_awaitBlock {world : σ → World Key Sig} {chain : ChainAccess σ}
    (h : chain.Grows world) (reader : Nat) (transaction : Id) (deadline announcements : Nat) :
  Grows world (awaitBlock chain reader transaction deadline announcements).run
  := by
  induction announcements with
  | zero => exact fun s => .refl (world s)
  | succ n ih =>
      apply (h.receive reader deadline).run_lift.run_bind
      intro event
      cases event with
      | silent => exact fun s => .refl (world s)
      | closed => exact fun s => .refl (world s)
      | lagged missed => exact ih
      | head b =>
          apply (h.receipt transaction).run_lift.run_bind
          intro found
          cases found with
          | error e => exact ih
          | ok r =>
              dsimp only
              split
              · exact .pure _
              · exact ih

section Looks

variable {chain : ChainAccess σ} {reader deadline n missed : Nat} {transaction : Id} {b : Header}
  {r : Receipt} {e : ChainError} {s s₁ s₂ : σ}

theorem awaitBlock_of_silent (h : chain.receive reader deadline s = (.silent, s₁)) :
  (awaitBlock chain reader transaction deadline (n + 1)).run s
    = (.error (.timeout .newHead), s₁)
  := by
  rw [awaitBlock, Action.run_bind_of_ok (Action.run_lift_eq_ok_iff.mpr h)]
  rfl

theorem awaitBlock_of_closed (h : chain.receive reader deadline s = (.closed, s₁)) :
  (awaitBlock chain reader transaction deadline (n + 1)).run s
    = (.error .subscriptionClosed, s₁)
  := by
  rw [awaitBlock, Action.run_bind_of_ok (Action.run_lift_eq_ok_iff.mpr h)]
  rfl

/-- A relayer that lost headers waits on. -/
theorem awaitBlock_of_lagged (h : chain.receive reader deadline s = (.lagged missed, s₁)) :
  (awaitBlock chain reader transaction deadline (n + 1)).run s
    = (awaitBlock chain reader transaction deadline n).run s₁
  := by
  rw [awaitBlock, Action.run_bind_of_ok (Action.run_lift_eq_ok_iff.mpr h)]

/-- A relayer that is told a header while there is no receipt waits on. -/
theorem awaitBlock_of_not_found (h : chain.receive reader deadline s = (.head b, s₁))
    (hfound : (chain.receipt transaction).run s₁ = (.error e, s₂)) :
  (awaitBlock chain reader transaction deadline (n + 1)).run s
    = (awaitBlock chain reader transaction deadline n).run s₂
  := by
  have hlift : (ExceptT.lift (chain.receipt transaction).run :
      Action σ (Except ChainError Receipt)).run s₁ = (.ok (.error e), s₂) :=
    Action.run_lift_eq_ok_iff.mpr hfound
  rw [awaitBlock, Action.run_bind_of_ok (Action.run_lift_eq_ok_iff.mpr h)]
  dsimp only
  rw [Action.run_bind_of_ok hlift]

/-- A relayer that is told a header while there is a receipt waits on unless the header is that of
the block in the receipt. -/
theorem awaitBlock_of_found (h : chain.receive reader deadline s = (.head b, s₁))
    (hfound : (chain.receipt transaction).run s₁ = (.ok r, s₂)) :
  (awaitBlock chain reader transaction deadline (n + 1)).run s
    = if r.block = b.hash then (.ok (b, r), s₂)
      else (awaitBlock chain reader transaction deadline n).run s₂
  := by
  have hlift : (ExceptT.lift (chain.receipt transaction).run :
      Action σ (Except ChainError Receipt)).run s₁ = (.ok (.ok r), s₂) :=
    Action.run_lift_eq_ok_iff.mpr hfound
  rw [awaitBlock, Action.run_bind_of_ok (Action.run_lift_eq_ok_iff.mpr h)]
  dsimp only
  rw [Action.run_bind_of_ok hlift]
  dsimp only
  split
  · rfl
  · rfl

/-- From when a receipt was asked for, a world only grows. -/
theorem growsTo_of_awaitBlock_of_head {world : σ → World Key Sig} {s' : σ}
    {found : Except ChainError Receipt} {o : Except ChainError (Header × Receipt)}
    (hgrows : chain.Grows world) (h : chain.receive reader deadline s = (.head b, s₁))
    (hfound : (chain.receipt transaction).run s₁ = (found, s₂))
    (hrun : (awaitBlock chain reader transaction deadline (n + 1)).run s = (o, s')) :
  (world s₂).GrowsTo (world s')
  := by
  have hrest (h : (awaitBlock chain reader transaction deadline n).run s₂ = (o, s')) :=
    (grows_awaitBlock hgrows reader transaction deadline n).growsTo h
  cases found with
  | error e =>
      rw [awaitBlock_of_not_found h hfound] at hrun
      exact hrest hrun
  | ok r =>
      rw [awaitBlock_of_found h hfound] at hrun
      split at hrun
      · cases hrun
        exact .refl _
      · exact hrest hrun

end Looks

variable [AggregateScheme Key Sig] {T : Traffic σ Key Sig} {config : ChainConfig}
  {client i reader deadline : Nat} {s s' : σ} {s₀ site : Site} {done : List Sealing}

/-- A relayer that waits for the block of a transaction that was sealed is told this block and
the receipt of the transaction. -/
theorem awaitBlock_eq_ok {a : Sealing} {n : Nat} {b : Header} {r : Receipt}
    (h : (awaitBlock (T.access config client) reader a.transaction.hash deadline n).run s
      = (.ok (b, r), s'))
    (hserves : (T.world s).Serves client i s₀ done site)
    (hlistens : (T.world s).Listens reader client s₀.feed.sent.length) (ha : a ∈ done)
    (hseparates : (T.world s').Separates i s₀) :
  b = a.block ∧ r = a.receipt
  := by
  have hgrows := T.grows_access config client
  induction n generalizing s done site with
  | zero => cases h
  | succ n ih =>
      rcases hevent : (T.access config client).receive reader deadline s with ⟨event, s₁⟩
      have hgrown := (hgrows.receive reader deadline).growsTo hevent
      have hlistens₁ := hlistens.of_growsTo hgrown
      cases event with
      | silent =>
          rw [awaitBlock_of_silent hevent] at h
          cases h
      | closed =>
          rw [awaitBlock_of_closed hevent] at h
          cases h
      | lagged missed =>
          rw [awaitBlock_of_lagged hevent] at h
          obtain ⟨later, site₁, hserves₁⟩ := hserves.of_growsTo hgrown
          apply ih h hserves₁ hlistens₁ (List.mem_append_left _ ha)
      | head b' =>
          obtain ⟨later, site₁, hserves₁, a', ha', rfl⟩ :=
            T.block_of_receive_eq hevent hserves hlistens
          have ha := List.mem_append_left later ha
          rcases hfound : ((T.access config client).receipt a.transaction.hash).run s₁
            with ⟨found, s₂⟩
          have hgrown₁ := (hgrows.receipt _).growsTo hfound
          have hlistens₂ := hlistens₁.of_growsTo hgrown₁
          cases found with
          | error e =>
              rw [awaitBlock_of_not_found hevent hfound] at h
              obtain ⟨later', site₂, hserves₂⟩ := hserves₁.of_growsTo hgrown₁
              apply ih h hserves₂ hlistens₂ (List.mem_append_left _ ha)
          | ok r' =>
              obtain ⟨later', site₂, hserves₂, hr'⟩ := T.receipt_of_run_eq hfound hserves₁
              have ha := List.mem_append_left later' ha
              have ha' := List.mem_append_left later' ha'
              rw [awaitBlock_of_found hevent hfound] at h
              split at h
              · next hhash =>
                -- the receipt is that of the transaction and its block the one of the header
                cases h
                rw [hserves₂.receipt_eq hseparates ha] at hr'
                cases hr'
                rw [hserves₂.eq_of_hash_eq hseparates ha ha' hhash]
                exact ⟨rfl, rfl⟩
              · apply ih h hserves₂ hlistens₂ ha

/-- A relayer that sends a transaction and waits for its block is told the block in which the
chain sealed it since then, and its receipt. -/
theorem submit_eq_ok {c : RelayConfig} {t : Transaction} {b : Header} {r : Receipt}
    (h : (c.submit T.clock (T.access config client) reader t).run s = (.ok (b, r), s'))
    (hserves : (T.world s).Serves client i s₀ done site)
    (hlistens : (T.world s).Listens reader client s₀.feed.sent.length)
    (hseparates : (T.world s').Separates i s₀) :
  ∃ later site' a, (T.world s').Serves client i s₀ (done ++ later) site' ∧ a ∈ later ∧
    a.transaction = t ∧ T.Performed s s' i a ∧ T.Submitted config client s s' i s₀ a ∧
    b = a.block ∧ r = a.receipt
  := by
  have hgrows := T.grows_access config client
  obtain ⟨name, s₁, hsubmit, h⟩ := Action.run_bind_eq_ok_iff.mp h
  rw [Action.run_get_bind] at h
  obtain ⟨rfl, later, site₁, a, hserves₁, rfl, hperformed⟩ := T.sealed_of_submit_eq hsubmit hserves
  have hlistens₁ := hlistens.of_growsTo ((hgrows.submit _).growsTo hsubmit)
  have hgrown := (grows_awaitBlock hgrows reader _ _ _).growsTo h
  have hsubmitted : T.Submitted config client s s' i s₀ a :=
    ⟨s, s₁, _, site₁, .refl _, hsubmit, hserves₁, hgrown⟩
  have ha : a ∈ later ++ [a] := List.mem_append_right _ List.mem_cons_self
  rw [List.append_assoc] at hserves₁
  obtain ⟨hb, hr⟩ := awaitBlock_eq_ok h hserves₁ hlistens₁ (List.mem_append_right _ ha) hseparates
  obtain ⟨later', site', hserves'⟩ := hserves₁.of_growsTo hgrown
  rw [List.append_assoc] at hserves'
  exact ⟨_, site', a, hserves', List.mem_append_left _ ha, rfl,
    hperformed.mono (.refl _) hgrown fun _ _ hx => hx, hsubmitted, hb, hr⟩

/-- A relayer that has the next transaction of an account sealed goes on with its block and its
receipt. -/
theorem submitNext_eq_ok {α : Type} {c : RelayConfig} {sender : Address}
    {f : UInt64 → Transaction} {g : Header × Receipt → Action σ α} {x : α}
    (hg : ∀ found, Grows T.world (g found).run)
    (h : (do
        let chain := T.access config client
        let reader ← chain.subscribe
        let nonce ← chain.nonceOf sender
        let found ← c.submit T.clock chain reader (f nonce)
        g found : Action σ α).run s = (.ok x, s'))
    (hserves : (T.world s).Serves client i s₀ done site)
    (hseparates : (T.world s').Separates i s₀) :
  ∃ nonce s₁ later site' a, (T.world s₁).Serves client i s₀ (done ++ later) site' ∧ a ∈ later ∧
    a.transaction = f nonce ∧ T.Performed s s₁ i a ∧ T.Submitted config client s s₁ i s₀ a ∧
    (g (a.block, a.receipt)).run s₁ = (.ok x, s')
  := by
  have hgrows := T.grows_access config client
  obtain ⟨reader, s₁, hreader, h⟩ := Action.run_bind_eq_ok_iff.mp h
  have hreader : (T.access config client).subscribe s = (reader, s₁) :=
    Action.run_lift_eq_ok_iff.mp hreader
  have hgrown := hgrows.subscribe.growsTo hreader
  have hlistens := T.listens_of_subscribe_eq hreader hserves
  obtain ⟨nonce, s₂, hnonce, h⟩ := Action.run_bind_eq_ok_iff.mp h
  have hgrown₁ := (hgrows.nonceOf _).growsTo hnonce
  have hbefore := hgrown.trans hgrown₁
  obtain ⟨⟨b, r⟩, s₃, hsubmit, h⟩ := Action.run_bind_eq_ok_iff.mp h
  obtain ⟨later, site₂, hserves₂⟩ := hserves.of_growsTo hbefore
  obtain ⟨later', site₃, a, hserves₃, ha, ht, hperformed, hsubmitted, rfl, rfl⟩ :=
    submit_eq_ok hsubmit hserves₂ (hlistens.of_growsTo hgrown₁)
      (hseparates.of_growsTo ((hg _).growsTo h))
  rw [List.append_assoc] at hserves₃
  exact ⟨nonce, s₃, later ++ later', site₃, a, hserves₃, List.mem_append_right _ ha, ht,
    hperformed.mono hbefore (.refl _) fun _ _ hx => hx, hsubmitted.mono hbefore (.refl _), h⟩

end RelayConfig

end Interchain
