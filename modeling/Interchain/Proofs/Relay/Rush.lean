import Interchain.Proofs.Relay.Lagging

/-!
# A rush of transactions

An account may send as many transactions as a chain keeps headers of between two steps of a
relayer.  If they come right after the transaction of the relayer was sealed, the header of its
block is lost before the relayer looks, and `RelayConfig.submit_rushing` says that it is not told
the block, although the chain has a receipt of the transaction.  This does not depend on any
hashes: the headers that the relayer is told have other numbers.

If the transactions are fewer and no hashes collide, the relayer is told the block:
`RelayConfig.send_rushing` says that it is done with a payload that it sends.
-/

namespace Interchain

variable {σ Key Sig : Type}

/-! ### A crowd of transactions -/

namespace Site

/-- The site after an account sent some transactions to its chain. -/
def rushed (sender : Address) : (n : Nat) → Site → Site
  | 0, s => s
  | n + 1, s =>
    let t := s.chain.idleTransaction sender
    rushed sender n (s.withBlock t (s.chain.execute t 21000 []))

/-- The chain grew by as many blocks. -/
theorem growsTo_rushed (s : Site) (sender : Address) (n : Nat) :
  ∃ crowd, s.GrowsTo crowd (s.rushed sender n) ∧ crowd.length = n
  := by
  induction n generalizing s with
  | zero => exact ⟨[], .refl s, rfl⟩
  | succ n ih =>
      let t := s.chain.idleTransaction sender
      let x := s.chain.execute t 21000 []
      obtain ⟨crowd, hgrown, hlength⟩ := ih (s.withBlock t x)
      have hfirst := growsTo_withBlock (s.chain.admission_idleTransaction sender)
        (show x = s.chain.execute t 21000 [] from rfl)
      refine ⟨_, hfirst.trans hgrown, ?_⟩
      rw [List.length_append, hlength, List.length_singleton, Nat.add_comm]

theorem closed_rushed (s : Site) (sender : Address) (n : Nat) :
  (s.rushed sender n).feed.closed = s.feed.closed
  := by
  induction n generalizing s with
  | zero => rfl
  | succ n ih =>
      rw [rushed, ih]
      rfl

end Site

namespace World

variable [AggregateScheme Key Sig] {w : World Key Sig} {i : Nat} {s : Site}

/-- The world after an account sent some transactions to the chain at a site. -/
def rush (sender : Address) (i : Nat) : (n : Nat) → World Key Sig → World Key Sig
  | 0, w => w
  | n + 1, w =>
    match w.sites[i]? with
    | none => w
    | some s =>
      let t := s.chain.idleTransaction sender
      rush sender i n (w.sealed i t (s.chain.execute t 21000 []))

/-- Only the nodes and the site of the chain are not as they were. -/
theorem rush_eq (hsite : w.sites[i]? = some s) (sender : Address) (n : Nat) :
  ∃ stations, w.rush sender i n
    = { w with stations, sites := w.sites.set i (s.rushed sender n) }
  := by
  induction n generalizing w s with
  | zero =>
      obtain ⟨hlt, rfl⟩ := List.getElem?_eq_some_iff.mp hsite
      use w.stations
      rw [Site.rushed, List.set_getElem_self]
      rfl
  | succ n ih =>
      let t := s.chain.idleTransaction sender
      let x := s.chain.execute t 21000 []
      obtain ⟨stations, hsealed⟩ := sealed_eq hsite t x
      obtain ⟨stations', hrush⟩ := ih (w := w.sealed i t x) (getElem?_sites_sealed hsite t x)
      use stations'
      rw [rush, hsite]
      dsimp only
      rw [hrush, hsealed]
      dsimp only
      rw [List.set_set]
      rfl

theorem growsTo_rush (w : World Key Sig) (sender : Address) (i n : Nat) :
  w.GrowsTo (w.rush sender i n)
  := by
  induction n generalizing w with
  | zero => exact .refl w
  | succ n ih =>
      rw [rush]
      split
      · exact .refl w
      · next s hsite =>
        exact (GrowsTo.sealed hsite (s.chain.admission_idleTransaction sender) rfl).trans (ih _)

/-- The world after an account sent some transactions to the chain at a site if this had announced
its first block. -/
def rushFirst (sender : Address) (i n : Nat) (w : World Key Sig) : World Key Sig :=
  match w.sites[i]? with
  | none => w
  | some s => if s.feed.sent.length = 1 then w.rush sender i n else w

theorem rushFirst_of_ne (hsite : w.sites[i]? = some s) (h : s.feed.sent.length ≠ 1)
    (sender : Address) (n : Nat) :
  w.rushFirst sender i n = w
  := by
  rw [rushFirst, hsite]
  apply if_neg h

theorem rushFirst_of_eq (hsite : w.sites[i]? = some s) (h : s.feed.sent.length = 1)
    (sender : Address) (n : Nat) :
  w.rushFirst sender i n = w.rush sender i n
  := by
  rw [rushFirst, hsite]
  apply if_pos h

theorem growsTo_rushFirst (sender : Address) (i n : Nat) (w : World Key Sig) :
  w.GrowsTo (w.rushFirst sender i n)
  := by
  rw [rushFirst]
  split
  · exact .refl w
  · split
    · apply growsTo_rush
    · exact .refl w

/-- Readers are as they were, and the channel of the chain is as open as it was. -/
theorem rushFirst_eq (hsite : w.sites[i]? = some s) (sender : Address) (n : Nat) :
  ∃ stations s', w.rushFirst sender i n = { w with stations, sites := w.sites.set i s' } ∧
    s'.feed.closed = s.feed.closed
  := by
  by_cases h : s.feed.sent.length = 1
  · obtain ⟨stations, hrush⟩ := rush_eq hsite sender n
    exact ⟨stations, _, (rushFirst_of_eq hsite h sender n).trans hrush, s.closed_rushed sender n⟩
  · obtain ⟨hlt, rfl⟩ := List.getElem?_eq_some_iff.mp hsite
    refine ⟨w.stations, w.sites[i], (rushFirst_of_ne hsite h sender n).trans ?_, rfl⟩
    rw [List.set_getElem_self]

end World

namespace Traffic

variable [AggregateScheme Key Sig]

/-- The traffic in which an account sends some transactions to the chain at a site as soon as
this has announced its first block, and nobody does anything else. -/
def rushing (sender : Address) (i n : Nat) : Traffic (World Key Sig) Key Sig :=
  { quiet with
    others := World.rushFirst sender i n
    grows_others := World.growsTo_rushFirst sender i n }

/-- The account leaves all readers alone. -/
theorem leavesAlone_rushing (sender : Address) (reader i n : Nat) :
  (rushing sender i n : Traffic (World Key Sig) Key Sig).LeavesAlone reader i
  := by
  constructor
  case reader_eq =>
    intro w r hr
    show (World.rushFirst sender i n w).readers[reader]? = some r
    cases hsite : w.sites[i]? with
    | none =>
        rw [World.rushFirst, hsite]
        exact hr
    | some s =>
        obtain ⟨stations, s', heq, -⟩ := World.rushFirst_eq hsite sender n
        rw [heq]
        exact hr
  case isOpen =>
    intro w s s' hsite hsite' hopen
    have hsite : w.sites[i]? = some s := hsite
    have hsite' : (World.rushFirst sender i n w).sites[i]? = some s' := hsite'
    have hlt := (List.getElem?_eq_some_iff.mp hsite).1
    obtain ⟨stations, s'', heq, hclosed⟩ := World.rushFirst_eq hsite sender n
    rw [heq] at hsite'
    dsimp only at hsite'
    rw [List.getElem?_set_self hlt] at hsite'
    cases hsite'
    rw [hclosed, hopen]
  case backlog_le =>
    intro w
    apply Nat.le_refl

end Traffic

namespace RelayConfig

variable [AggregateScheme Key Sig] {T : Traffic σ Key Sig} {config : ChainConfig}
  {client i reader deadline m n : Nat} {s s' : σ} {s₀ site : Site} {sites : List Site}

/-- A header that a relayer finds while nothing happens to the chains was announced after those
that the relayer was told of. -/
theorem mem_of_awaitBlock_eq_ok {since : Nat} {transaction : Id} {b : Header} {r : Receipt}
    (hothers : ∀ s, (T.world s).sites = sites → (T.world (T.others s)).sites = sites)
    (h : (awaitBlock (T.access config client) reader transaction deadline n).run s
      = (.ok (b, r), s'))
    (hsites : (T.world s).sites = sites) (hsite : sites[i]? = some site)
    (hclient : (T.world s).clients[client]? = some { site := i })
    (hlistens : (T.world s).Listens reader client since) :
  b ∈ site.feed.sent.take (site.feed.sent.length - since)
  := by
  have hgrows := T.grows_access config client
  induction n generalizing s with
  | zero => cases h
  | succ n ih =>
      rcases hevent : (T.access config client).receive reader deadline s with ⟨event, s₁⟩
      have hgrown := (hgrows.receive reader deadline).growsTo hevent
      obtain ⟨hidles, htells⟩ := World.tells_receive reader deadline (T.world (T.others s))
      have hrun := T.eq_of_during_eq (x := fun _ => World.receive reader deadline) hevent
      rw [hrun] at hidles htells
      have hsites₁ : (T.world s₁).sites = sites := hidles.sites_eq.trans (hothers s hsites)
      have hclient₁ := hgrown.clients hclient
      have hlistens₁ := hlistens.of_growsTo hgrown
      cases event with
      | silent =>
          rw [awaitBlock_of_silent hevent] at h
          cases h
      | closed =>
          rw [awaitBlock_of_closed hevent] at h
          cases h
      | lagged missed =>
          rw [awaitBlock_of_lagged hevent] at h
          exact ih h hsites₁ hclient₁ hlistens₁
      | head b' =>
          rcases hfound : ((T.access config client).receipt transaction).run s₁ with ⟨found, s₂⟩
          have hgrown₁ := (hgrows.receipt _).growsTo hfound
          have hothers₁ := T.grows_others s₁
          have hsites₂ : (T.world s₂).sites = sites := by
            have hrun := T.eq_of_during_eq
              (x := fun _ => (World.receipt client transaction).run) hfound
            rw [World.receipt_eq (hothers₁.clients hclient₁)
              (by rw [hothers s₁ hsites₁, hsite])] at hrun
            rw [← (Prod.mk_inj.mp hrun).2]
            exact hothers s₁ hsites₁
          have hrest := fun h => ih h hsites₂ (hgrown₁.clients hclient₁)
            (hlistens₁.of_growsTo hgrown₁)
          cases found with
          | error e =>
              rw [awaitBlock_of_not_found hevent hfound] at h
              exact hrest h
          | ok r' =>
              rw [awaitBlock_of_found hevent hfound] at h
              split at h
              · cases h
                have hothers' := T.grows_others s
                apply htells b rfl (hlistens.of_growsTo hothers') (hothers'.clients hclient)
                rw [hothers s hsites, hsite]
              · exact hrest h

/-- If an account rushes to send as many transactions as a chain keeps headers of, a relayer that
was told of no header yet finds one of theirs at best. -/
theorem mem_rush_of_awaitBlock_eq_ok {w w' : World Key Sig} {sender : Address} {transaction : Id}
    {b : Header} {r : Receipt}
    (h : (awaitBlock ((Traffic.rushing sender i Feed.capacity).access config client) reader
      transaction deadline n).run w = (.ok (b, r), w'))
    (hclient : w.clients[client]? = some { site := i }) (hsite : w.sites[i]? = some site)
    (hr : w.readers[reader]? = some ⟨client, 0, false⟩) (hone : site.feed.sent.length = 1) :
  ∃ crowd site', site.GrowsTo crowd site' ∧ crowd.length = Feed.capacity ∧
    ∃ a ∈ crowd, a.block = b
  := by
  let T : Traffic (World Key Sig) Key Sig := .rushing sender i Feed.capacity
  obtain ⟨stations, hrush⟩ := World.rush_eq hsite sender Feed.capacity
  obtain ⟨crowd, hgrown, hcrowd⟩ := site.growsTo_rushed sender Feed.capacity
  generalize site.rushed sender Feed.capacity = site' at hrush hgrown
  refine ⟨crowd, site', hgrown, hcrowd, ?_⟩
  let w₁ : World Key Sig := { w with stations, sites := w.sites.set i site' }
  have hothers : T.others w = w₁ := (World.rushFirst_of_eq hsite hone ..).trans hrush
  have hsite₁ : w₁.sites[i]? = some site' :=
    List.getElem?_set_self (List.getElem?_eq_some_iff.mp hsite).1
  have hlength := hgrown.length_sent
  have hcapacity : Feed.capacity = 64 := rfl
  cases n with
  | zero => cases h
  | succ n =>
      rcases hevent : (T.access config client).receive reader deadline w with ⟨event, w₂⟩
      have hrun := T.eq_of_during_eq (x := fun _ => World.receive reader deadline) hevent
      rw [hothers] at hrun
      obtain ⟨m, hreceive⟩ := World.receive_eq (w := w₁) hclient hsite₁ hr deadline
      obtain ⟨hlagging, heq⟩ | ⟨behind, _, hbehind, hkept, -⟩ | ⟨hle, -⟩ :=
        site'.feed.receive_cases 0
      · -- the first header is lost, and the relayer goes on with those of the account
        obtain ⟨rfl, hw⟩ := Prod.mk_inj.mp (hreceive.symm.trans hrun)
        rw [heq] at hevent hw
        rw [awaitBlock_of_lagged hevent] at h
        have hw₂ : w₂ = { w₁ with
            toMoment := m
            readers := w₁.readers.set reader
              ⟨client, site'.feed.sent.length - Feed.capacity, false⟩ } := hw.symm
        have hmore : site'.feed.sent.length ≠ 1 := by omega
        have hstays (w₃ : World Key Sig) (hw₃ : w₃.sites = w₁.sites) :
            (T.others w₃).sites = w₁.sites := by
          have hsite₃ : w₃.sites[i]? = some site' := by rw [hw₃, hsite₁]
          show (World.rushFirst sender i Feed.capacity w₃).sites = w₁.sites
          rw [World.rushFirst_of_ne hsite₃ hmore, hw₃]
        have hlistens : w₂.Listens reader client 1 := by
          rw [hw₂]
          have hlt := (List.getElem?_eq_some_iff.mp hr).1
          refine ⟨_, List.getElem?_set_self hlt, rfl, ?_⟩
          show 1 ≤ site'.feed.sent.length - Feed.capacity
          omega
        apply hgrown.exists_block
        rw [hone]
        apply mem_of_awaitBlock_eq_ok (T := T) hstays h _ hsite₁ _ hlistens
        · rw [hw₂]
          rfl
        · rw [hw₂]
          exact hclient
      · omega
      · omega

/-- A transaction that a relayer sends before a chain has announced a block is sealed. -/
theorem submit_run_rushing {w : World Key Sig} {t : Transaction} {x : Execution}
    (config : ChainConfig) (sender : Address) (n : Nat)
    (hclient : w.clients[client]? = some { site := i }) (hsite : w.sites[i]? = some site)
    (hnone : site.feed.sent = [])
    (hx : site.chain.performUnder (fun _ => w.directoryAt i) t = .ok x) :
  ∃ m stations, (((Traffic.rushing sender i n).access config client).submit t).run w
    = (.ok t.hash,
        { w with toMoment := m, stations, sites := w.sites.set i (site.withBlock t x) })
  := by
  let T : Traffic (World Key Sig) Key Sig := .rushing sender i n
  have hothers : T.others w = w :=
    World.rushFirst_of_ne hsite (by rw [hnone]; exact Nat.zero_ne_one) ..
  have hx' : site.chain.performUnder (T.answers w i) t = .ok x := hx
  obtain ⟨stations, hsealed⟩ := World.sealed_eq (w := w.onMoment Moment.step) hsite t x
  use w.toMoment.step, stations
  show (World.sendUnder client t (T.answers (T.others w))).run (T.others w) = _
  rw [hothers, World.sendUnder_run hclient hsite rfl, hx']
  dsimp only
  rw [hsealed]
  rfl

/-- If a transaction that a relayer sends is sealed into the first block of a chain, and an account
rushes to send as many transactions as the chain keeps headers of, the relayer is not told its
block, although the chain has a receipt of the transaction. -/
theorem submit_rushing {w : World Key Sig} {sender : Address} {t : Transaction} {x : Execution}
    (c : RelayConfig) (hclient : w.clients[client]? = some { site := i })
    (hsite : w.sites[i]? = some site) (hr : w.readers[reader]? = some ⟨client, 0, false⟩)
    (hnone : site.feed.sent = [])
    (hx : site.chain.performUnder (fun _ => w.directoryAt i) t = .ok x) :
  let T : Traffic (World Key Sig) Key Sig := .rushing sender i Feed.capacity
  ∃ w₁ w' o a later site' r,
    ((T.access config client).submit t).run w = (.ok t.hash, w₁) ∧
    (c.submit T.clock (T.access config client) reader t).run w = (o, w') ∧
    w'.Serves client i site (a :: later) site' ∧ a.transaction = t ∧
    site'.chain.receipt t.hash = .ok r ∧ ∀ r', o ≠ .ok (a.block, r')
  := by
  intro T
  obtain ⟨intrinsic, hadmission, hexecute⟩ := (site.chain.performUnder_eq_ok_iff ..).mp hx
  have hgrown := Site.growsTo_withBlock hadmission hexecute
  obtain ⟨m, stations, hsent⟩ := submit_run_rushing config sender Feed.capacity
    hclient hsite hnone hx
  let w₁ : World Key Sig :=
    { w with toMoment := m, stations, sites := w.sites.set i (site.withBlock t x) }
  have hsite₁ : w₁.sites[i]? = some (site.withBlock t x) :=
    List.getElem?_set_self (List.getElem?_eq_some_iff.mp hsite).1
  rcases hwait : (awaitBlock (T.access config client) reader t.hash
    (T.clock.now w₁ + c.headTimeout) ((T.access config client).backlog reader w₁ + 1)).run w₁
    with ⟨o, w'⟩
  have hserves₁ : w₁.Serves client i site _ _ := ⟨hclient, hsite₁, hgrown⟩
  have hgrown' := (grows_awaitBlock (T.grows_access config client) _ _ _ _).growsTo hwait
  obtain ⟨later, site', hserves'⟩ := hserves₁.of_growsTo hgrown'
  obtain ⟨r, hreceipt⟩ := hserves'.grown.grown.exists_receipt List.mem_cons_self
  refine ⟨w₁, w', o, _, later, site', r, hsent, ?_, hserves', rfl, hreceipt, ?_⟩
  · rw [submit, Action.run_bind_of_ok hsent, Action.run_get_bind]
    exact hwait
  · rintro r' rfl
    have hone : (site.withBlock t x).feed.sent.length = 1 := by
      rw [hgrown.length_sent, hnone]
      rfl
    obtain ⟨crowd, site₂, hcrowd, hlength, a, ha, hblock⟩ :=
      mem_rush_of_awaitBlock_eq_ok hwait hclient hsite₁ hr hone
    -- blocks have different numbers, even if their hashes are the same by chance
    have hnumbers := (hgrown.trans hcrowd).grown.nodup_numbers (by
      rw [List.length_append, hlength]
      norm_num [Feed.capacity])
    apply (List.nodup_cons.mp hnumbers).1
    exact List.mem_map.mpr ⟨a, ha, congrArg Header.number hblock⟩

/-- A transaction that was sealed first and then followed by a rush of transactions of another
account has a receipt, but a relayer that sent it is not told its block. -/
theorem submit_rushing_twoChains :
  let T : Traffic (World Residue Residue) Residue Residue :=
    .rushing ⟨.replicate 20 1⟩ 0 Feed.capacity
  let c : RelayConfig := {}
  let site := newSite .zero 1
  let t := site.chain.idleTransaction .zero
  let w : World Residue Residue := { twoChains with readers := [⟨0, 0, false⟩] }
  T.LeavesAlone 0 0 ∧ w.Follows 0 0 0 site [] site 0 ∧
  ∃ w₁ w' o a later site' r,
    ((T.access site.chain.config 0).submit t).run w = (.ok t.hash, w₁) ∧
    (c.submit T.clock (T.access site.chain.config 0) 0 t).run w = (o, w') ∧
    w'.Serves 0 0 site (a :: later) site' ∧ a.transaction = t ∧
    site'.chain.receipt t.hash = .ok r ∧ ∀ r', o ≠ .ok (a.block, r')
  := by
  intro T c site t w
  have hclient : w.clients[0]? = some { site := 0 } := rfl
  have hsite : w.sites[0]? = some site := rfl
  have hr : w.readers[0]? = some ⟨0, 0, false⟩ := rfl
  have hadmission := site.chain.admission_idleTransaction .zero
  have hx := (site.chain.performUnder_eq_ok_iff (fun _ => w.directoryAt 0) t _).mpr
    ⟨21000, hadmission, rfl⟩
  refine ⟨Traffic.leavesAlone_rushing .., ⟨⟨hclient, hsite, .refl site⟩, rfl, hr⟩, ?_⟩
  exact submit_rushing c hclient hsite hr rfl hx

/-! ### A small crowd -/

/-- If the transaction of a relayer is sealed into the first block of a chain, and an account sends
fewer than the chain keeps headers of, the relayer is told its block. -/
theorem awaitBlock_rushing {w : World Key Sig} {sender : Address} {a : Sealing}
    (config : ChainConfig) (hgrown : s₀.GrowsTo [a] site) (hnone : s₀.feed.sent = [])
    (hclient : w.clients[client]? = some { site := i }) (hsite : w.sites[i]? = some site)
    (hr : w.readers[reader]? = some ⟨client, 0, false⟩) (hpos : 0 < m) (hfew : m < Feed.capacity)
    (hseparates : ∀ w' : World Key Sig, w'.sites[i]? = some (site.rushed sender m) →
      w'.Separates i s₀) :
  ∃ w', w'.clients = w.clients ∧ w'.sites = w.sites.set i (site.rushed sender m) ∧
    (awaitBlock ((Traffic.rushing sender i m).access config client) reader a.transaction.hash
      deadline (n + 1)).run w = (.ok (a.block, a.receipt), w')
  := by
  let T : Traffic (World Key Sig) Key Sig := .rushing sender i m
  have hone : site.feed.sent.length = 1 := by
    rw [hgrown.length_sent, hnone]
    rfl
  obtain ⟨stations, hrush⟩ := World.rush_eq hsite sender m
  obtain ⟨crowd, hcrowd, hlength⟩ := site.growsTo_rushed sender m
  have hall : s₀.GrowsTo ([] ++ a :: crowd) (site.rushed sender m) := hgrown.trans hcrowd
  have hmore := hall.length_sent
  rw [hnone, List.nil_append, List.length_cons, hlength, List.length_nil] at hmore
  generalize site.rushed sender m = site' at hrush hall hmore hseparates
  let w₁ : World Key Sig := { w with stations, sites := w.sites.set i site' }
  have hothers : T.others w = w₁ := (World.rushFirst_of_eq hsite hone ..).trans hrush
  have hsite₁ : w₁.sites[i]? = some site' :=
    List.getElem?_set_self (List.getElem?_eq_some_iff.mp hsite).1
  obtain ⟨moment, hreceive⟩ := World.receive_eq (w := w₁) hclient hsite₁ hr deadline
  have hheader : site'.feed.receive 0 = (.head a.block, 1) := by
    obtain ⟨hlagging, -⟩ | ⟨behind, b, hbehind, -, hb, heq⟩ | ⟨hle, -⟩ := site'.feed.receive_cases 0
    · omega
    · rw [show behind = crowd.length by omega, hall.getElem?_sent] at hb
      cases hb
      exact heq
    · omega
  let w₂ : World Key Sig :=
    { w₁ with toMoment := moment, readers := w₁.readers.set reader ⟨client, 1, false⟩ }
  rw [hheader] at hreceive
  have hevent : (T.access config client).receive reader deadline w = (.head a.block, w₂) := by
    show World.receive reader deadline (T.others w) = _
    rw [hothers, hreceive]
  -- nobody does anything any more
  have hidle : T.others w₂ = w₂ := World.rushFirst_of_ne (w := w₂) hsite₁ (by omega) ..
  have hserves : w₂.Serves client i s₀ _ site' := ⟨hclient, hsite₁, hall⟩
  have hfound : ((T.access config client).receipt a.transaction.hash).run w₂
      = (.ok a.receipt, w₂) := by
    show (World.receipt client a.transaction.hash).run (T.others w₂) = _
    rw [hidle, World.receipt_eq (w := w₂) hclient hsite₁,
      hserves.receipt_eq (hseparates w₂ hsite₁) List.mem_cons_self]
  refine ⟨w₂, rfl, rfl, ?_⟩
  rw [awaitBlock_of_found hevent hfound]
  apply if_pos rfl

/-- If an account sends fewer transactions than a chain keeps headers of, a relayer that has a
transaction sealed into the first block is told its block and its receipt. -/
theorem submit_rushing_few {w : World Key Sig} {t : Transaction} {x : Execution}
    (c : RelayConfig) (sender : Address) (hclient : w.clients[client]? = some { site := i })
    (hsite : w.sites[i]? = some site) (hr : w.readers[reader]? = some ⟨client, 0, false⟩)
    (hnone : site.feed.sent = [])
    (hx : site.chain.performUnder (fun _ => w.directoryAt i) t = .ok x)
    (hpos : 0 < n) (hfew : n < Feed.capacity) :
  let T : Traffic (World Key Sig) Key Sig := .rushing sender i n
  let a : Sealing := ⟨t, x, (site.chain.withBlock t x).head⟩
  let site' := (site.withBlock t x).rushed sender n
  (∀ w' : World Key Sig, w'.sites[i]? = some site' → w'.Separates i site) →
    ∃ w' later, w'.Serves client i site (a :: later) site' ∧ later.length = n ∧
      (c.submit T.clock (T.access site.chain.config client) reader t).run w
        = (.ok (a.block, a.receipt), w')
  := by
  intro T a site' hseparates
  obtain ⟨intrinsic, hadmission, hexecute⟩ := (site.chain.performUnder_eq_ok_iff ..).mp hx
  have hgrown : site.GrowsTo [a] (site.withBlock t x) := Site.growsTo_withBlock hadmission hexecute
  obtain ⟨moment, stations, hsent⟩ :=
    submit_run_rushing site.chain.config sender n hclient hsite hnone hx
  let w₁ : World Key Sig :=
    { w with toMoment := moment, stations, sites := w.sites.set i (site.withBlock t x) }
  have hsite₁ : w₁.sites[i]? = some (site.withBlock t x) :=
    List.getElem?_set_self (List.getElem?_eq_some_iff.mp hsite).1
  obtain ⟨w₂, hclients, hsites, hwait⟩ := awaitBlock_rushing (w := w₁) site.chain.config hgrown
    hnone hclient hsite₁ hr hpos hfew hseparates
  obtain ⟨later, hlater, hlength⟩ := (site.withBlock t x).growsTo_rushed sender n
  have hclient₂ : w₂.clients[client]? = some { site := i } := by rwa [hclients]
  have hsite₂ : w₂.sites[i]? = some site' := by
    rw [hsites]
    exact List.getElem?_set_self (List.getElem?_eq_some_iff.mp hsite₁).1
  refine ⟨w₂, later, ⟨hclient₂, hsite₂, hgrown.trans hlater⟩, hlength, ?_⟩
  rw [submit, Action.run_bind_of_ok hsent, Action.run_get_bind]
  exact hwait

/-- A relayer that sends a payload for which there is gas, and which is not too long, to a new chain
is done with it, even if an account sends some transactions between its own and its first look
at the chain, as long as they are fewer than the chain keeps headers of and no hashes collide. -/
theorem send_rushing {w : World Key Sig} (c : RelayConfig) (sender other : Address)
    {payload : Bytes} (hclient : w.clients[client]? = some { site := i })
    (hsite : w.sites[i]? = some site) (hnone : site.feed.sent = [])
    (hgas : 62500 + 8 * payload.length ≤ c.sendGas.toNat)
    (hsize : payload.length + 76 ≤ Wire.maxSize) (hpos : 0 < n) (hfew : n < Feed.capacity) :
  let T : Traffic (World Key Sig) Key Sig := .rushing other i n
  let t := c.transaction (T.access site.chain.config client) sender (site.chain.nonceOf sender)
    c.sendGas (Abi.Function.send payload).encode
  let site' := (site.withBlock t (site.chain.execute t 21000 [])).rushed other n
  (∀ w' : World Key Sig, w'.sites[i]? = some site' → w'.Separates i site) →
    ∃ o w', (c.send T.clock (T.access site.chain.config client) sender payload).run w
      = (.ok o, w') ∧ w'.sites[i]? = some site'
  := by
  intro T t site' hseparates
  obtain ⟨hadmission, hsuccessful, m, -, hannouncements⟩ := executes_send (c := c)
    (T.access site.chain.config client) (s := site.chain) sender rfl hgas hsize []
  have hx := (site.chain.performUnder_eq_ok_iff (fun _ => w.directoryAt i) t
    (site.chain.execute t 21000 [])).mpr ⟨21000, hadmission, rfl⟩
  have hothers (w : World Key Sig) (hsite : w.sites[i]? = some site) : T.others w = w :=
    World.rushFirst_of_ne hsite (by rw [hnone]; exact Nat.zero_ne_one) ..
  let w₁ : World Key Sig := { w with readers := w.readers ++ [⟨client, 0, false⟩] }
  have hreader : (T.access site.chain.config client).subscribe w = (w.readers.length, w₁) := by
    show World.subscribe client (T.others w) = _
    rw [hothers w hsite, World.subscribe_eq hclient hsite, hnone]
    rfl
  have hnonce : ((T.access site.chain.config client).nonceOf sender).run w₁
      = (.ok (site.chain.nonceOf sender), w₁) := by
    show (World.nonceOf client sender).run (T.others w₁) = _
    rw [hothers w₁ hsite, World.nonceOf_eq (w := w₁) hclient hsite]
  have hr : w₁.readers[w.readers.length]? = some ⟨client, 0, false⟩ :=
    List.getElem?_concat_length
  obtain ⟨w₂, later, hserves, hlength, hsubmit⟩ :=
    submit_rushing_few (w := w₁) c other hclient hsite hr hnone hx hpos hfew hseparates
  have hmore : site'.feed.sent.length ≠ 1 := by
    rw [hserves.grown.length_sent, hnone, List.length_cons, hlength, List.length_nil]
    omega
  have hidle : T.others w₂ = w₂ := World.rushFirst_of_ne hserves.site_eq hmore ..
  have hseparates₂ : (T.others w₂).Separates i site := by
    rw [hidle]
    apply hseparates w₂ hserves.site_eq
  obtain ⟨o, w₃, -, -, hw₃, hread⟩ := exists_readBack (T := T) hserves List.mem_cons_self
    hseparates₂ hsuccessful hannouncements
  have hsite₃ : w₃.sites[i]? = some site' := by
    rw [show w₃ = T.others w₂ from hw₃, hidle, hserves.site_eq]
  refine ⟨o, w₃, ?_, hsite₃⟩
  apply (Action.run_bind_of_ok (Action.run_lift_eq_ok_iff.mpr hreader)).trans
  apply (Action.run_bind_of_ok hnonce).trans
  apply (Action.run_bind_of_ok hsubmit).trans
  exact hread

end RelayConfig

end Interchain
