import Interchain.Proofs.Ledger.Inquiry
import Interchain.Proofs.Ledger.Turns
import Interchain.Simulation.Access

/-!
# How a world grows

Whatever a relayer does in a world, the chains only grow, a client that uses a chain directly
goes on using it, and readers of headers are only told more.  `World.GrowsTo` says so of two
moments, and `Grows` of a computation that leads from one to the other, possibly in a larger
state that the world is seen in.
-/

namespace Interchain

/-! ### Actions -/

namespace Action

variable {σ α β : Type} {s s' : σ}

/-- An action goes on with the result of the one before it. -/
theorem run_bind_of_ok {x : Action σ α} {f : α → Action σ β} {a : α}
    (h : x.run s = (.ok a, s')) :
  (x >>= f).run s = (f a).run s'
  := by
  show ExceptT.bindCont f (x.run s).1 (x.run s).2 = (f a).run s'
  rw [h]
  rfl

/-- An action ends with the failure of the one before it. -/
theorem run_bind_of_error {x : Action σ α} {f : α → Action σ β} {e : ChainError}
    (h : x.run s = (.error e, s')) :
  (x >>= f).run s = (.error e, s')
  := by
  show ExceptT.bindCont f (x.run s).1 (x.run s).2 = (.error e, s')
  rw [h]
  rfl

/-- A computation that cannot fail succeeds as an action. -/
theorem run_lift_eq_ok_iff {x : StateM σ α} {a : α} :
  (liftM x : Action σ α).run s = (.ok a, s') ↔ x s = (a, s')
  := by
  show (Except.ok (x s).1, (x s).2) = (.ok a, s') ↔ _
  rw [Prod.mk_inj, Except.ok.injEq, Prod.ext_iff]

/-- A result is that of an action that changes nothing. -/
theorem run_except_eq_ok_iff {x : Except ChainError α} {a : α} :
  (liftM x : Action σ α).run s = (.ok a, s') ↔ x = .ok a ∧ s = s'
  := by
  cases x with
  | error e => exact ⟨nofun, nofun⟩
  | ok b =>
      show (Except.ok b, s) = (.ok a, s') ↔ _
      exact Prod.mk_inj

/-- An action goes on after a check that succeeds. -/
theorem run_check_bind {x : Except ChainError α} {f : α → Action σ β} {a : α} (h : x = .ok a) :
  (liftM x >>= f : Action σ β).run s = (f a).run s
  := by
  rw [h]
  rfl

/-- An action that begins by reading the state goes on with it. -/
theorem run_get_bind (f : σ → Action σ α) (s : σ) :
  (do f (← get) : Action σ α).run s = (f s).run s
  := rfl

/-- An action that goes on after another one succeeds if both do. -/
theorem run_bind_eq_ok_iff {x : Action σ α} {f : α → Action σ β} {b : β} :
  (x >>= f).run s = (.ok b, s') ↔ ∃ a s₁, x.run s = (.ok a, s₁) ∧ (f a).run s₁ = (.ok b, s')
  := by
  constructor
  · intro h
    rcases hx : x.run s with ⟨e | a, s₁⟩
    · rw [run_bind_of_error hx] at h
      cases h
    · rw [run_bind_of_ok hx] at h
      exact ⟨a, s₁, rfl, h⟩
  · rintro ⟨a, s₁, hx, h⟩
    rwa [run_bind_of_ok hx]

/-- A loop goes on after a round that succeeds. -/
theorem run_forIn_cons_of_yield {x : α} {xs : List α} {f : α → β → Action σ (ForInStep β)}
    {b b' : β} (h : (f x b).run s = (.ok (.yield b'), s')) :
  (forIn (x :: xs) b f : Action σ β).run s = (forIn xs b' f : Action σ β).run s'
  := by rw [List.forIn_cons, run_bind_of_ok h]

/-- A loop ends with a round that fails. -/
theorem run_forIn_cons_of_error {x : α} {xs : List α} {f : α → β → Action σ (ForInStep β)} {b : β}
    {e : ChainError} (h : (f x b).run s = (.error e, s')) :
  (forIn (x :: xs) b f : Action σ β).run s = (.error e, s')
  := by rw [List.forIn_cons, run_bind_of_error h]

/-- A loop of which no round changes anything. -/
theorem run_forIn_of_ok {xs : List α} {f : α → β → Action σ (ForInStep β)} {b : β}
    (h : ∀ x ∈ xs, (f x b).run s = (.ok (.yield b), s)) :
  (forIn xs b f : Action σ β).run s = (.ok b, s)
  := by
  induction xs with
  | nil => rfl
  | cons x xs ih =>
      obtain ⟨hx, hxs⟩ := List.forall_mem_cons.mp h
      rw [run_forIn_cons_of_yield hx]
      exact ih hxs

end Action

/-! ### Chains, clients and readers -/

/-- The chain at a site grew by some sealings, whose blocks were announced. -/
structure Site.GrowsTo (s : Site) (done : List Sealing) (s' : Site) : Prop where
  grown : s.chain.GrownFrom done s'.chain
  announced : s'.feed.sent = (done.map (·.block)).reverse ++ s.feed.sent

namespace Site

theorem GrowsTo.refl (s : Site) :
  s.GrowsTo [] s
  := ⟨.start, rfl⟩

theorem GrowsTo.trans {s s' s'' : Site} {done later : List Sealing} (h : s.GrowsTo done s')
    (h' : s'.GrowsTo later s'') :
  s.GrowsTo (done ++ later) s''
  := by
  refine ⟨h.grown.trans h'.grown, ?_⟩
  rw [h'.announced, h.announced, List.map_append, List.reverse_append, List.append_assoc]

/-- A site grows by a transaction that its chain admits, executes and seals. -/
theorem growsTo_withBlock {s : Site} {t : Transaction} {intrinsic : Nat} {x : Execution}
    {results : PredicateResults} (ha : s.chain.admission t = .ok intrinsic)
    (hx : x = s.chain.execute t intrinsic results) :
  s.GrowsTo [⟨t, x, (s.chain.withBlock t x).head⟩] (s.withBlock t x)
  := ⟨.grow .start ha hx, rfl⟩

/-- A header that was announced since an earlier state is that of a block sealed since. -/
theorem GrowsTo.exists_block {s s' : Site} {done : List Sealing} (h : s.GrowsTo done s')
    {b : Header} (hb : b ∈ s'.feed.sent.take (s'.feed.sent.length - s.feed.sent.length)) :
  ∃ a ∈ done, a.block = b
  := by
  rw [h.announced, List.length_append, Nat.add_sub_cancel, List.take_left, List.mem_reverse] at hb
  apply List.mem_map.mp hb

end Site

namespace World

variable {Key Sig : Type}

/-- The chains grew, the clients that use a chain directly still do, and readers were told of
more headers. -/
structure GrowsTo (w w' : World Key Sig) : Prop where
  sites : ∀ {i : Nat} {s : Site}, w.sites[i]? = some s →
    ∃ done s', w'.sites[i]? = some s' ∧ s.GrowsTo done s'
  clients : ∀ {k i : Nat}, w.clients[k]? = some { site := i } → w'.clients[k]? = some { site := i }
  readers : ∀ {k : Nat} {r : Reader}, w.readers[k]? = some r →
    ∃ r', w'.readers[k]? = some r' ∧ r'.client = r.client ∧ r.position ≤ r'.position

namespace GrowsTo

/-- A world in which sites, clients and readers are the same did not shrink. -/
theorem of_eq {w w' : World Key Sig} (hsites : w'.sites = w.sites)
    (hclients : w'.clients = w.clients) (hreaders : w'.readers = w.readers) :
  w.GrowsTo w'
  := by
  constructor
  case sites =>
    intro i s hs
    rw [hsites]
    exact ⟨[], s, hs, .refl s⟩
  case clients =>
    intro k i hk
    rwa [hclients]
  case readers =>
    intro k r hr
    rw [hreaders]
    exact ⟨r, hr, rfl, Nat.le_refl _⟩

theorem refl (w : World Key Sig) :
  w.GrowsTo w
  := of_eq rfl rfl rfl

theorem trans {w w' w'' : World Key Sig} (h : w.GrowsTo w') (h' : w'.GrowsTo w'') :
  w.GrowsTo w''
  := by
  constructor
  case sites =>
    intro i s hs
    obtain ⟨done, s', hs', hgrown⟩ := h.sites hs
    obtain ⟨later, s'', hs'', hgrown'⟩ := h'.sites hs'
    exact ⟨_, s'', hs'', hgrown.trans hgrown'⟩
  case clients =>
    intro k i hk
    apply h'.clients (h.clients hk)
  case readers =>
    intro k r hr
    obtain ⟨r', hr', hclient, hle⟩ := h.readers hr
    obtain ⟨r'', hr'', hclient', hle'⟩ := h'.readers hr'
    exact ⟨r'', hr'', hclient'.trans hclient, hle.trans hle'⟩

/-- The moment does not matter. -/
theorem onMoment (w : World Key Sig) (f : Moment → Moment) :
  w.GrowsTo (w.onMoment f)
  := of_eq rfl rfl rfl

end GrowsTo

end World

/-! ### Computations -/

section Grows

variable {σ α β Key Sig : Type}

/-- A computation goes on with the result and the state of the one before it. -/
theorem bind_apply (x : StateM σ α) (f : α → StateM σ β) (s : σ) :
  (x >>= f) s = f (x s).1 (x s).2
  := rfl

/-- A computation that begins by reading the state goes on with it. -/
theorem get_bind_apply (f : σ → StateM σ α) (s : σ) :
  (get >>= f : StateM σ α) s = f s s
  := rfl

/-- A computation that begins by changing the state goes on in the changed one. -/
theorem modify_bind_apply (f : σ → σ) (g : Unit → StateM σ α) (s : σ) :
  (modify f >>= g : StateM σ α) s = g () (f s)
  := rfl

/-- A computation lets a world grow that is seen in its state. -/
def Grows (world : σ → World Key Sig) (x : StateM σ α) : Prop :=
  ∀ s, (world s).GrowsTo (world (x s).2)

namespace Grows

variable {world : σ → World Key Sig}

theorem growsTo {x : StateM σ α} {s s' : σ} {a : α} (h : Grows world x) (hx : x s = (a, s')) :
  (world s).GrowsTo (world s')
  := by
  have hs := h s
  rwa [hx] at hs

theorem pure (a : α) :
  Grows world (pure a : StateM σ α)
  := fun s => .refl (world s)

theorem modify {f : σ → σ} (h : ∀ s, (world s).GrowsTo (world (f s))) :
  Grows world (modify f : StateM σ Unit)
  := h

/-- Two actions one after another let a world grow if they do. -/
theorem run_bind {x : Action σ α} {f : α → Action σ β} (h : Grows world x.run)
    (h' : ∀ a, Grows world (f a).run) :
  Grows world (x >>= f).run
  := by
  intro s
  have hx := h s
  rcases hrun : x.run s with ⟨e | a, s₁⟩
  · rw [Action.run_bind_of_error hrun]
    rwa [hrun] at hx
  · rw [Action.run_bind_of_ok hrun]
    rw [hrun] at hx
    exact hx.trans (h' a s₁)

/-- A result that changes nothing. -/
theorem run_except (x : Except ChainError α) :
  Grows world (liftM x : Action σ α).run
  := by
  intro s
  cases x with
  | error e => exact .refl (world s)
  | ok a => exact .refl (world s)

/-- An action that begins by reading the state lets a world grow if what it goes on with does. -/
theorem run_get_bind {f : σ → Action σ α} (h : ∀ s, Grows world (f s).run) :
  Grows world (do f (← MonadState.get) : Action σ α).run
  := fun s => h s s

/-- A loop lets a world grow if each round does. -/
theorem run_forIn {xs : List α} {f : α → β → Action σ (ForInStep β)}
    (h : ∀ x ∈ xs, ∀ b, Grows world (f x b).run) (b : β) :
  Grows world (forIn xs b f : Action σ β).run
  := by
  induction xs generalizing b with
  | nil => apply Grows.pure
  | cons x xs ih =>
      obtain ⟨hx, hxs⟩ := List.forall_mem_cons.mp h
      rw [List.forIn_cons]
      apply (hx b).run_bind
      intro step
      cases step with
      | done b' => apply Grows.pure
      | yield b' => exact ih hxs b'

/-- A computation that cannot fail lets a world grow as a part of others as well. -/
theorem run_lift {x : StateM σ α} (h : Grows world x) :
  Grows world (liftM x : Action σ α).run
  := h

end Grows

/-- Nothing that is asked of a chain does more than let a world grow. -/
structure ChainAccess.Grows (chain : ChainAccess σ) (world : σ → World Key Sig) : Prop where
  subscribe : Interchain.Grows world chain.subscribe
  nonceOf : ∀ a, Interchain.Grows world (chain.nonceOf a).run
  submit : ∀ t, Interchain.Grows world (chain.submit t).run
  receive : ∀ reader deadline, Interchain.Grows world (chain.receive reader deadline)
  receipt : ∀ transaction, Interchain.Grows world (chain.receipt transaction).run
  logs : ∀ block a, Interchain.Grows world (chain.logs block a).run
  height : Interchain.Grows world chain.height.run

end Grows

/-! ### Headers -/

namespace Feed

/-- A reader who is more headers behind than are kept loses those that are not, one who is behind
is told the next header, and nobody else is told one. -/
theorem receive_cases (f : Feed) (position : Nat) :
  (position + capacity < f.sent.length ∧ f.receive position
      = (.lagged (f.sent.length - position - capacity), f.sent.length - capacity)) ∨
  (∃ behind b, f.sent.length = position + behind + 1 ∧ behind < capacity ∧
    f.sent[behind]? = some b ∧ f.receive position = (.head b, position + 1)) ∨
  (f.sent.length ≤ position ∧
    f.receive position = (if f.closed then .closed else .silent, position))
  := by
  by_cases hlagging : capacity < f.sent.length - position
  · exact .inl ⟨by omega, if_pos hlagging⟩
  rw [receive, if_neg hlagging]
  cases hbehind : f.sent.length - position with
  | zero => exact .inr (.inr ⟨by omega, rfl⟩)
  | succ behind =>
      obtain ⟨b, hb⟩ : ∃ b, f.sent[behind]? = some b :=
        ⟨_, List.getElem?_eq_getElem (by omega)⟩
      refine .inr (.inl ⟨behind, b, by omega, by omega, hb, ?_⟩)
      simp only [Nat.succ_sub_one, hb]

theorem position_le_receive (f : Feed) (position : Nat) :
  position ≤ (f.receive position).2
  := by
  obtain ⟨h, heq⟩ | ⟨_, _, _, _, _, heq⟩ | ⟨_, heq⟩ := f.receive_cases position
  · rw [heq]
    dsimp only
    omega
  · rw [heq]
    apply Nat.le_succ
  · rw [heq]

/-- A reader is told a header only if it was announced after those that the reader was told
of. -/
theorem mem_of_receive_eq_head {f : Feed} {position : Nat} {h : Header}
    (he : (f.receive position).1 = .head h) :
  h ∈ f.sent.take (f.sent.length - position)
  := by
  obtain ⟨-, heq⟩ | ⟨behind, b, hlength, -, hb, heq⟩ | ⟨-, heq⟩ := f.receive_cases position
  · rw [heq] at he
    cases he
  · rw [heq] at he
    cases he
    apply List.mem_of_getElem? (i := behind)
    rw [List.getElem?_take_of_lt (by omega), hb]
  · rw [heq] at he
    dsimp only at he
    split at he
    · cases he
    · cases he

/-- A reader who is told nothing stays where it is. -/
theorem receive_eq_of_silent {f : Feed} {position : Nat}
    (h : (f.receive position).1 = .silent) :
  (f.receive position).2 = position
  := by
  obtain ⟨-, heq⟩ | ⟨_, _, -, -, -, heq⟩ | ⟨-, heq⟩ := f.receive_cases position
  · rw [heq] at h
    cases h
  · rw [heq] at h
    cases h
  · rw [heq]

end Feed

namespace World

variable {Key Sig : Type}

/-- What a reader of headers is told who does not wait. -/
theorem poll_apply (reader : Nat) (w : World Key Sig) :
  poll reader w
    = match w.readers[reader]? with
      | none => (.closed, w)
      | some r =>
        if r.late then (.closed, w)
        else
          let (event, position) := (w.feed r.client).receive r.position
          (event, { w with readers := w.readers.set reader { r with position } })
  := by
  rw [poll, get_bind_apply]
  cases w.readers[reader]? with
  | none => rfl
  | some r =>
      dsimp only
      split
      · rfl
      · rfl

/-- A reader that uses a client was told of so many headers, or of more. -/
def Listens (w : World Key Sig) (reader client since : Nat) : Prop :=
  ∃ r, w.readers[reader]? = some r ∧ r.client = client ∧ since ≤ r.position

theorem Listens.of_growsTo {w w' : World Key Sig} {reader client since : Nat}
    (h : w.Listens reader client since) (hg : w.GrowsTo w') :
  w'.Listens reader client since
  := by
  obtain ⟨r, hr, hclient, hsince⟩ := h
  obtain ⟨r', hr', hclient', hle⟩ := hg.readers hr
  exact ⟨r', hr', hclient'.trans hclient, hsince.trans hle⟩

/-- A client that uses a chain directly sees the headers that the chain announced. -/
theorem feed_eq {w : World Key Sig} {k i : Nat} {s : Site}
    (hclient : w.clients[k]? = some { site := i }) (hsite : w.sites[i]? = some s) :
  w.feed k = s.feed
  := by
  have hfront : w.front? k = none := by
    rw [front?, hclient]
    rfl
  rw [feed, hfront]
  dsimp only
  rw [hclient, Option.bind_some, hsite]
  rfl

/-- A reader may be told a header: if it uses a chain directly, this was announced after those
that the reader was told of. -/
def Announces (w : World Key Sig) (reader : Nat) (b : Header) : Prop :=
  ∀ ⦃k i since : Nat⦄ ⦃s : Site⦄, w.Listens reader k since →
    w.clients[k]? = some { site := i } → w.sites[i]? = some s →
      b ∈ s.feed.sent.take (s.feed.sent.length - since)

/-- A world grew without anything happening to its chains. -/
structure Idles (w w' : World Key Sig) : Prop extends w.GrowsTo w' where
  sites_eq : w'.sites = w.sites

theorem Idles.trans {w w' w'' : World Key Sig} (h : w.Idles w') (h' : w'.Idles w'') :
  w.Idles w''
  := ⟨h.toGrowsTo.trans h'.toGrowsTo, h'.sites_eq.trans h.sites_eq⟩

theorem Announces.of_idles {w w' : World Key Sig} {reader : Nat} {b : Header}
    (h : w'.Announces reader b) (hidles : w.Idles w') :
  w.Announces reader b
  := by
  intro k i since s hlistens hclient hsite
  apply h (hlistens.of_growsTo hidles.toGrowsTo) (hidles.clients hclient)
  rwa [hidles.sites_eq]

theorem idles_onMoment (w : World Key Sig) (f : Moment → Moment) :
  w.Idles (w.onMoment f)
  := ⟨.onMoment w f, rfl⟩

/-- A reader is told what may be announced to it, and nothing happens to the chains. -/
def Tells (reader : Nat) (x : StateM (World Key Sig) HeadEvent) : Prop :=
  ∀ w, w.Idles (x w).2 ∧ ∀ b, (x w).1 = .head b → w.Announces reader b

theorem tells_poll (reader : Nat) :
  Tells reader (poll reader : StateM (World Key Sig) HeadEvent)
  := by
  intro w
  rw [poll_apply]
  cases hr : w.readers[reader]? with
  | none => exact ⟨⟨.refl w, rfl⟩, nofun⟩
  | some r =>
      dsimp only
      split
      · exact ⟨⟨.refl w, rfl⟩, nofun⟩
      · constructor
        · refine ⟨⟨fun hs => ⟨[], _, hs, .refl _⟩, fun hk => hk, ?_⟩, rfl⟩
          intro k r' hr'
          by_cases hk : reader = k
          · subst hk
            rw [hr] at hr'
            cases hr'
            have hlt := (List.getElem?_eq_some_iff.mp hr).1
            exact ⟨_, List.getElem?_set_self hlt, rfl, Feed.position_le_receive _ _⟩
          · rw [← List.getElem?_set_ne hk] at hr'
            exact ⟨r', hr', rfl, Nat.le_refl _⟩
        · rintro b hb k i since s ⟨r', hr', rfl, hsince⟩ hclient hsite
          rw [hr] at hr'
          cases hr'
          have hmem := Feed.mem_of_receive_eq_head hb
          rw [feed_eq hclient hsite] at hmem
          apply List.take_subset_take_left _ _ hmem
          omega

/-- Nothing is told before time has passed. -/
theorem Tells.of_onMoment {reader : Nat} {x : StateM (World Key Sig) HeadEvent}
    (h : Tells reader x) (f : Moment → Moment) :
  Tells reader (do modify (onMoment f); x)
  := by
  intro w
  obtain ⟨hidles, htells⟩ := h (w.onMoment f)
  have hmoment := w.idles_onMoment f
  use hmoment.trans hidles
  intro b hb
  apply (htells b hb).of_idles hmoment

/-- A reader who is told nothing at once may be told something in another way. -/
theorem Tells.poll_or {reader : Nat} {x : StateM (World Key Sig) HeadEvent} (h : Tells reader x)
    (f : Moment → Moment) :
  Tells reader (do
    match ← poll reader with
    | .silent => x
    | event =>
      modify (onMoment f)
      return event)
  := by
  intro w
  obtain ⟨hidles, htells⟩ := tells_poll reader w
  have hevent (e : HeadEvent) (he : (poll reader w).1 = e) :
      w.Idles ((poll reader w).2.onMoment f) ∧ ∀ b, e = .head b → w.Announces reader b := by
    use hidles.trans ((poll reader w).2.idles_onMoment f)
    intro b hb
    apply htells b (he.trans hb)
  rw [bind_apply]
  cases he : (poll reader w).1 with
  | silent =>
      obtain ⟨hidles', htells'⟩ := h (poll reader w).2
      use hidles.trans hidles'
      intro b hb
      apply (htells' b hb).of_idles hidles
  | _ => exact hevent _ he

theorem tells_await (reader deadline : Nat) :
  Tells reader (await reader deadline : StateM (World Key Sig) HeadEvent)
  := by
  intro w
  have hsilent := w.idles_onMoment fun _ => .wakeAt deadline
  rw [await, get_bind_apply]
  cases w.nextDue? reader with
  | none => exact ⟨hsilent, nofun⟩
  | some due =>
      dsimp only
      split
      · apply (tells_poll reader).of_onMoment (fun _ => (Moment.wakeAt due).giveTurn.step) w
      · exact ⟨hsilent, nofun⟩

/-- A reader who waits is told what may be announced to it, and nothing happens to the chains
meanwhile. -/
theorem tells_receive (reader deadline : Nat) :
  Tells reader (receive reader deadline : StateM (World Key Sig) HeadEvent)
  := by
  apply Tells.of_onMoment
  apply Tells.poll_or
  intro w
  rw [get_bind_apply]
  split
  · exact ⟨w.idles_onMoment _, nofun⟩
  · exact ((tells_await reader deadline).poll_or _).of_onMoment _ w

theorem grows_receive (reader deadline : Nat) :
  Grows id (receive reader deadline : StateM (World Key Sig) HeadEvent)
  := fun w => (tells_receive reader deadline w).1.toGrowsTo

theorem grows_subscribe (client : Nat) :
  Grows id (subscribe client : StateM (World Key Sig) Nat)
  := by
  intro w
  refine ⟨fun hs => ⟨[], _, hs, .refl _⟩, fun hk => hk, ?_⟩
  intro k r hr
  use r
  constructor
  · exact (List.getElem?_append_left (List.getElem?_eq_some_iff.mp hr).1).trans hr
  · exact ⟨rfl, Nat.le_refl _⟩

/-- A new reader is told what is announced from then on. -/
theorem listens_subscribe {w : World Key Sig} {k i : Nat} {s : Site}
    (hclient : w.clients[k]? = some { site := i }) (hsite : w.sites[i]? = some s) :
  (subscribe k w).2.Listens (subscribe k w).1 k s.feed.sent.length
  := by
  rw [← feed_eq hclient hsite]
  exact ⟨_, List.getElem?_concat_length, rfl, Nat.le_refl _⟩

/-! ### Calls -/

/-- What is behind a client is found, and nothing changes. -/
theorem behind_eq {w : World Key Sig} {client : Nat} {c : Client} {s : Site}
    (hc : w.clients[client]? = some c) (hs : w.sites[c.site]? = some s) :
  (behind client).run w = (.ok (c.front, c.site, s.chain), w)
  := by
  rw [behind, Action.run_get_bind]
  simp only [Option.bind_eq_bind, hc, Option.bind_some, hs]
  rfl

/-- Either there is a chain behind a client or calls fail. -/
theorem behind_cases (client : Nat) (w : World Key Sig) :
  (∃ c s, w.clients[client]? = some c ∧ w.sites[c.site]? = some s ∧
    (behind client).run w = (.ok (c.front, c.site, s.chain), w)) ∨
  (behind client).run w = (.error .subscriptionClosed, w)
  := by
  cases hc : w.clients[client]? with
  | none =>
      right
      rw [behind, Action.run_get_bind, hc]
      rfl
  | some c =>
      cases hs : w.sites[c.site]? with
      | none =>
          right
          rw [behind, Action.run_get_bind]
          simp only [Option.bind_eq_bind, hc, Option.bind_some, hs]
          rfl
      | some s => exact .inl ⟨c, s, rfl, hs, behind_eq hc hs⟩

theorem grows_behind (client : Nat) :
  Grows id (behind client : Action (World Key Sig) _).run
  := by
  intro w
  obtain ⟨c, s, -, -, h⟩ | h := behind_cases client w
  · rw [h]
    exact .refl w
  · rw [h]
    exact .refl w

theorem grows_nonceOf (client : Nat) (a : Address) :
  Grows id (nonceOf client a : Action (World Key Sig) UInt64).run
  := by
  apply (grows_behind client).run_bind
  rintro ⟨f, -, chain⟩
  apply (Grows.run_except (checkFront f .nonce)).run_bind
  intro
  apply Grows.pure

theorem grows_logs (client : Nat) (block : Id) (a : Address) :
  Grows id (logs client block a : Action (World Key Sig) (List Log)).run
  := by
  apply (grows_behind client).run_bind
  rintro ⟨f, -, chain⟩
  apply (Grows.run_except (checkFront f .logs)).run_bind
  intro
  apply Grows.pure

/-- A client that has a front may get another one. -/
theorem GrowsTo.withFront {w : World Key Sig} {client : Nat} {c : Client} {f : Front}
    (hc : w.clients[client]? = some c) (hf : c.front = some f) (f' : Front) :
  w.GrowsTo (w.withFront client f')
  := by
  refine ⟨fun hs => ⟨[], _, hs, .refl _⟩, ?_, fun hr => ⟨_, hr, rfl, Nat.le_refl _⟩⟩
  intro k i hk
  have hne : client ≠ k := by
    rintro rfl
    rw [hc] at hk
    cases hk
    cases hf
  rw [← hk]
  exact List.getElem?_modify_ne _ _ hne

theorem grows_receipt (client : Nat) (transaction : Id) :
  Grows id (receipt client transaction : Action (World Key Sig) Receipt).run
  := by
  intro w
  rw [receipt]
  obtain ⟨c, s, hc, -, h⟩ | h := behind_cases client w
  · rw [Action.run_bind_of_ok h]
    cases hf : c.front with
    | none => exact Grows.run_except _ w
    | some f =>
        dsimp only
        split
        · exact Grows.run_except _ w
        · exact .withFront hc hf _
  · rw [Action.run_bind_of_error h]
    exact .refl w

theorem grows_height (client : Nat) :
  Grows id (height client : Action (World Key Sig) UInt64).run
  := by
  intro w
  rw [height]
  obtain ⟨c, s, hc, -, h⟩ | h := behind_cases client w
  · rw [Action.run_bind_of_ok h]
    cases hf : c.front with
    | none => exact .refl w
    | some f =>
        have hrest (told : UInt64) : Grows id
            (do checkFront (some f) .height; return told : Action (World Key Sig) UInt64).run :=
          (Grows.run_except _).run_bind fun _ => Grows.pure _
        dsimp only
        split
        · exact (GrowsTo.withFront hc hf _).trans (hrest _ _)
        · exact (GrowsTo.withFront hc hf _).trans (hrest _ _)
  · rw [Action.run_bind_of_error h]
    exact .refl w

section Direct

variable {w : World Key Sig} {k i : Nat} {s : Site}

/-- A client that uses a chain directly reads the receipts of the chain. -/
theorem receipt_eq (hclient : w.clients[k]? = some { site := i })
    (hsite : w.sites[i]? = some s) (transaction : Id) :
  (receipt k transaction).run w = (s.chain.receipt transaction, w)
  := by
  rw [receipt, Action.run_bind_of_ok (behind_eq hclient hsite)]
  dsimp only
  cases s.chain.receipt transaction with
  | error e => rfl
  | ok r => rfl

/-- A client that uses a chain directly reads the logs of the chain. -/
theorem logs_eq (hclient : w.clients[k]? = some { site := i }) (hsite : w.sites[i]? = some s)
    (block : Id) (a : Address) :
  (logs k block a).run w = (.ok (s.chain.logs block a), w)
  := by
  rw [logs, Action.run_bind_of_ok (behind_eq hclient hsite)]
  rfl

theorem subscribe_eq (hclient : w.clients[k]? = some { site := i })
    (hsite : w.sites[i]? = some s) :
  subscribe k w
    = (w.readers.length, { w with readers := w.readers ++ [⟨k, s.feed.sent.length, false⟩] })
  := by
  have hfront : w.front? k = none := by
    rw [front?, hclient]
    rfl
  rw [subscribe, get_bind_apply, hfront, feed_eq hclient hsite]
  rfl

theorem nonceOf_eq (hclient : w.clients[k]? = some { site := i })
    (hsite : w.sites[i]? = some s) (a : Address) :
  (nonceOf k a).run w = (.ok (s.chain.nonceOf a), w)
  := by
  rw [nonceOf, Action.run_bind_of_ok (behind_eq hclient hsite)]
  rfl

/-- A reader that uses a chain directly is told at once what the chain announced. -/
theorem poll_eq {reader position : Nat} (hclient : w.clients[k]? = some { site := i })
    (hsite : w.sites[i]? = some s) (hr : w.readers[reader]? = some ⟨k, position, false⟩) :
  poll reader w = ((s.feed.receive position).1,
    { w with readers := w.readers.set reader ⟨k, (s.feed.receive position).2, false⟩ })
  := by
  rw [poll_apply, hr]
  dsimp only
  rw [if_neg (by decide), feed_eq hclient hsite]

/-- A reader that there is nothing for is told nothing, and nothing changes. -/
theorem poll_silent {reader position : Nat} (hclient : w.clients[k]? = some { site := i })
    (hsite : w.sites[i]? = some s) (hr : w.readers[reader]? = some ⟨k, position, false⟩)
    (he : (s.feed.receive position).1 = .silent) :
  poll reader w = (.silent, w)
  := by
  obtain ⟨hlt, hget⟩ := List.getElem?_eq_some_iff.mp hr
  rw [poll_eq hclient hsite hr, he, Feed.receive_eq_of_silent he, ← hget, List.set_getElem_self]

/-- A chain that is used directly announces nothing later. -/
theorem nextDue?_eq {reader position : Nat} (hclient : w.clients[k]? = some { site := i })
    (hr : w.readers[reader]? = some ⟨k, position, false⟩) :
  w.nextDue? reader = none
  := by
  simp only [nextDue?, front?, hr, hclient, Option.bind_eq_bind, Option.bind_some,
    Option.bind_none]

/-- A reader that uses a chain directly and waits is told what the chain announced by then. -/
theorem receive_eq {reader position : Nat} (hclient : w.clients[k]? = some { site := i })
    (hsite : w.sites[i]? = some s) (hr : w.readers[reader]? = some ⟨k, position, false⟩)
    (deadline : Nat) :
  ∃ m, receive reader deadline w = ((s.feed.receive position).1,
    { w with
      toMoment := m
      readers := w.readers.set reader ⟨k, (s.feed.receive position).2, false⟩ })
  := by
  rw [receive, modify_bind_apply, bind_apply]
  by_cases he : (s.feed.receive position).1 = .silent
  · let w₁ := w.onMoment Moment.ready
    let w₂ := w₁.onMoment Moment.giveTurn
    have hpoll : poll reader w₁ = (.silent, w₁) := poll_silent (w := w₁) hclient hsite hr he
    have hpoll' : poll reader w₂ = (.silent, w₂) := poll_silent (w := w₂) hclient hsite hr he
    have hdue : w₂.nextDue? reader = none := nextDue?_eq (w := w₂) hclient hr
    obtain ⟨hlt, hget⟩ := List.getElem?_eq_some_iff.mp hr
    rw [he, Feed.receive_eq_of_silent he, ← hget, List.set_getElem_self, hpoll]
    dsimp only
    rw [get_bind_apply]
    split
    · exact ⟨_, rfl⟩
    · rw [modify_bind_apply, bind_apply, hpoll']
      dsimp only
      rw [await, get_bind_apply, hdue]
      exact ⟨_, rfl⟩
  · have hpoll := poll_eq (w := w.onMoment Moment.ready) hclient hsite hr
    rw [hpoll]
    cases hevent : (s.feed.receive position).1 with
    | silent => exact absurd hevent he
    | head b => exact ⟨_, rfl⟩
    | lagged missed => exact ⟨_, rfl⟩
    | closed => exact ⟨_, rfl⟩

/-- A client that uses a chain directly is told the number of the last block. -/
theorem height_eq (hclient : w.clients[k]? = some { site := i })
    (hsite : w.sites[i]? = some s) :
  (height k).run w = (.ok s.chain.head.number, w)
  := by
  rw [height, Action.run_bind_of_ok (behind_eq hclient hsite)]
  rfl

end Direct

/-! ### Sealing -/

variable [AggregateScheme Key Sig]

/-- A world grows when one of its chains admits, executes and seals a transaction. -/
theorem GrowsTo.sealed {w : World Key Sig} {i : Nat} {s : Site} {t : Transaction}
    {intrinsic : Nat} {x : Execution} {results : PredicateResults} (hsite : w.sites[i]? = some s)
    (ha : s.chain.admission t = .ok intrinsic) (hx : x = s.chain.execute t intrinsic results) :
  w.GrowsTo (w.sealed i t x)
  := by
  obtain ⟨stations, hsealed⟩ := sealed_eq hsite t x
  rw [hsealed]
  refine ⟨?_, fun hk => hk, fun hr => ⟨_, hr, rfl, Nat.le_refl _⟩⟩
  intro k s' hk
  by_cases hik : i = k
  · subst hik
    rw [hsite] at hk
    cases hk
    have hlt := (List.getElem?_eq_some_iff.mp hsite).1
    exact ⟨_, _, List.getElem?_set_self hlt, Site.growsTo_withBlock ha hx⟩
  · rw [← List.getElem?_set_ne hik] at hk
    exact ⟨[], s', hk, .refl s'⟩

end World

end Interchain