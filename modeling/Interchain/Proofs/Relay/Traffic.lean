import Interchain.Proofs.Delegation
import Interchain.Proofs.Relay.Growth
import Interchain.Proofs.Round.Network

/-!
# Relaying while others are at work

Whenever a relayer waits, others may do something in the world: use its chains, have nodes
follow them, change what is recorded about validators.  A `Traffic` is what they do, of which
nothing is assumed but that it lets the chains grow, and `Traffic.access` is how a relayer then
deals with a chain.  A message is attested by a `Traffic.Aggregator`, which asks nodes or has
somebody else ask them, who may do something in the world as well.  `Traffic.quiet` is the
traffic in which nobody else does anything.
-/

namespace Interchain

variable {σ Key Sig : Type}

/-! ### Sending while validators change -/

namespace World

variable [AggregateScheme Key Sig]

/-- Sends a transaction through a client and tells its name, where the questions of the chain at
a site about validators are answered by some directories in turn. -/
def sendUnder (client : Nat) (t : Transaction) (answers : (site : Nat) → Nat → Directory Key) :
    Action (World Key Sig) Id := do
  let (f, site, _) ← behind client
  checkFront f .send
  modify (onMoment Moment.step)
  match (← get).submitUnder site t (answers site) with
  | some (.ok _, w) => set w
  | some (.error e, _) => throw e
  | none => return t.hash
  if let some f := f then
    let (_, _, chain) ← behind client
    modify fun w => w.withFront client (f.announce w.toMoment chain.head)
  return t.hash

variable {w : World Key Sig} {client : Nat} {c : Client} {s : Site} {t : Transaction}
  {answers : (site : Nat) → Nat → Directory Key}

theorem clients_sealed {i : Nat} {s : Site} (hs : w.sites[i]? = some s) (t : Transaction)
    (x : Execution) :
  (w.sealed i t x).clients = w.clients
  := by
  obtain ⟨stations, hsealed⟩ := sealed_eq hs t x
  rw [hsealed]

omit [AggregateScheme Key Sig] in
/-- A front is told of the last block. -/
theorem announce_run (hc : w.clients[client]? = some c) (hs : w.sites[c.site]? = some s)
    (name : Id) :
  (do
    if let some f := c.front then
      let (_, _, chain) ← behind client
      modify fun w => w.withFront client (f.announce w.toMoment chain.head)
    return name : Action (World Key Sig) Id).run w
    = (.ok name,
        match c.front with
        | some f => w.withFront client (f.announce w.toMoment s.chain.head)
        | none => w)
  := by
  cases c.front with
  | none => rfl
  | some f =>
      dsimp only
      rw [Action.run_bind_of_ok (behind_eq hc hs)]
      rfl

/-- A transaction is sealed if it is admitted, and a front is told of the block. -/
theorem sendUnder_run (hc : w.clients[client]? = some c) (hs : w.sites[c.site]? = some s)
    (hcheck : checkFront c.front .send = .ok ()) :
  (sendUnder client t answers).run w
    = match s.chain.performUnder (answers c.site) t with
      | .error e => (.error e, w.onMoment Moment.step)
      | .ok x =>
        let w' := (w.onMoment Moment.step).sealed c.site t x
        (.ok t.hash,
          match c.front with
          | some f => w'.withFront client (f.announce w'.toMoment (s.chain.withBlock t x).head)
          | none => w')
  := by
  have hs' : (w.onMoment Moment.step).sites[c.site]? = some s := hs
  rw [sendUnder, Action.run_bind_of_ok (behind_eq hc hs)]
  dsimp only
  rw [Action.run_check_bind hcheck, Action.run_modify_get, submitUnder, hs']
  simp only [Option.bind_eq_bind, Option.bind_some]
  cases s.chain.performUnder (answers c.site) t with
  | error e => rfl
  | ok x =>
      have hc' : ((w.onMoment Moment.step).sealed c.site t x).clients[client]? = some c := by
        rw [clients_sealed hs']
        exact hc
      exact announce_run hc' (getElem?_sites_sealed hs' t x) t.hash

/-- The validators as the chain at a site sees them. -/
def directoryAt (w : World Key Sig) (i : Nat) : Directory Key :=
  match w.sites[i]? with
  | some s => w.directoryOf s
  | none => w.directory

/-- If nobody changes the validators, the questions are answered by what is recorded of them. -/
theorem send_run (client : Nat) (t : Transaction) (w : World Key Sig) :
  (send client t).run w = (sendUnder client t fun i _ => w.directoryAt i).run w
  := by
  obtain ⟨c, s, hc, hs, hbehind⟩ | hbehind := behind_cases client w
  swap
  · rw [send, sendUnder, Action.run_bind_of_error hbehind, Action.run_bind_of_error hbehind]
  cases hcheck : checkFront c.front .send with
  | error e =>
      rw [send, sendUnder, Action.run_bind_of_ok hbehind, Action.run_bind_of_ok hbehind]
      dsimp only
      rw [hcheck]
      rfl
  | ok =>
      let w' := w.onMoment Moment.step
      have hs' : w'.sites[c.site]? = some s := hs
      have hdirectory : w.directoryAt c.site = w'.directoryOf s := by
        rw [directoryAt, hs]
        rfl
      have hsubmit : (submit c.site t).run w
          = match s.chain.perform (w'.directoryOf s) t with
            | .error e => (.error e, w')
            | .ok x => (.ok (some (s.chain.receiptFor t x)), w'.sealed c.site t x) := by
        rw [submit, Action.run_modify_get, hs']
        dsimp only
        cases s.chain.perform (w'.directoryOf s) t with
        | error e => rfl
        | ok x => rfl
      rw [sendUnder_run hc hs hcheck, send, Action.run_bind_of_ok hbehind]
      dsimp only
      rw [Action.run_check_bind hcheck, Chain.performUnder_const, hdirectory]
      cases hx : s.chain.perform (w'.directoryOf s) t with
      | error e =>
          rw [hx] at hsubmit
          rw [Action.run_bind_of_error hsubmit]
      | ok x =>
          rw [hx] at hsubmit
          have hc' : (w'.sealed c.site t x).clients[client]? = some c := by
            rw [clients_sealed hs']
            exact hc
          rw [Action.run_bind_of_ok hsubmit]
          exact announce_run hc' (getElem?_sites_sealed hs' t x) t.hash

/-- Sending a transaction through any client lets the world grow. -/
theorem grows_sendUnder (client : Nat) (t : Transaction)
    (answers : (site : Nat) → Nat → Directory Key) :
  Grows id (sendUnder client t answers : Action (World Key Sig) Id).run
  := by
  intro w
  obtain ⟨c, s, hc, hs, hbehind⟩ | hbehind := behind_cases client w
  · cases hcheck : checkFront c.front .send with
    | error e =>
        rw [sendUnder, Action.run_bind_of_ok hbehind]
        dsimp only
        rw [hcheck]
        exact .refl w
    | ok =>
        rw [sendUnder_run hc hs hcheck]
        cases hx : s.chain.performUnder (answers c.site) t with
        | error e => exact .onMoment w _
        | ok x =>
            obtain ⟨intrinsic, ha, hx⟩ := (s.chain.performUnder_eq_ok_iff ..).mp hx
            let w' := w.onMoment Moment.step
            have hs' : w'.sites[c.site]? = some s := hs
            have hsealed := (GrowsTo.onMoment w Moment.step).trans (.sealed hs' ha hx)
            dsimp only
            cases hf : c.front with
            | none => exact hsealed
            | some f =>
                apply hsealed.trans
                have hc' : (w'.sealed c.site t x).clients[client]? = some c := by
                  rw [clients_sealed hs']
                  exact hc
                exact .withFront hc' hf _
  · rw [sendUnder, Action.run_bind_of_error hbehind]
    exact .refl w

end World

/-! ### Traffic -/

/-- What goes on in a world besides the doings of a relayer, in states `σ` that the world is
seen in. -/
structure Traffic (σ Key Sig : Type) where
  world : σ → World Key Sig
  /-- The state with another world. -/
  put : World Key Sig → σ → σ
  world_put : ∀ w s, world (put w s) = w
  /-- The state after others have done something, while the relayer waited. -/
  others : σ → σ
  grows_others : ∀ s, (world s).GrowsTo (world (others s))
  /-- The directories that answer the questions of the chain at a site, one after another. -/
  answers : σ → (site : Nat) → Nat → Directory Key
  /-- A bound on how often a reader is told something before it gives up waiting. -/
  backlog : (reader : Nat) → σ → Nat
  /-- A bound on how often the height behind a client changes while no time passes. -/
  heightChanges : (client : Nat) → σ → Nat

namespace Traffic

variable {α : Type} (T : Traffic σ Key Sig)

/-- Something is done in the world when others have done what they do. -/
def during (x : σ → StateM (World Key Sig) α) : StateM σ α := fun s =>
  let s := T.others s
  let (a, w) := x s (T.world s)
  (a, T.put w s)

theorem grows_during {x : σ → StateM (World Key Sig) α} (h : ∀ s, Grows id (x s)) :
  Grows T.world (T.during x)
  := by
  intro s
  apply (T.grows_others s).trans
  show (T.world (T.others s)).GrowsTo (T.world (T.put _ _))
  rw [T.world_put]
  apply h (T.others s)

/-- What is done is done in the world that the others left. -/
theorem eq_of_during_eq {x : σ → StateM (World Key Sig) α} {s s' : σ} {a : α}
    (h : T.during x s = (a, s')) :
  x (T.others s) (T.world (T.others s)) = (a, T.world s')
  := by
  cases h
  rw [T.world_put]
  rfl

/-- How time passes. -/
def clock : Clock σ where
  now s := (T.world s).now
  sleep d s := T.put ((T.world s).onMoment (·.sleep d)) s

theorem grows_sleep (d : Nat) (s : σ) :
  (T.world s).GrowsTo (T.world (T.clock.sleep d s))
  := by
  rw [clock, T.world_put]
  apply World.GrowsTo.onMoment

variable [AggregateScheme Key Sig]

/-- A client as a relayer sees it, behind which there is a chain as it was made. -/
def access (config : ChainConfig) (client : Nat) : ChainAccess σ where
  name := config.name
  number := config.number
  subscribe := T.during fun _ => World.subscribe client
  nonceOf a := .mk <| T.during fun _ => (World.nonceOf client a).run
  submit t := .mk <| T.during fun s => (World.sendUnder client t (T.answers s)).run
  receive reader deadline := T.during fun _ => World.receive reader deadline
  backlog := T.backlog
  receipt transaction := .mk <| T.during fun _ => (World.receipt client transaction).run
  logs block a := .mk <| T.during fun _ => (World.logs client block a).run
  height := .mk <| T.during fun _ => (World.height client).run
  heightChanges := T.heightChanges client

theorem grows_access (config : ChainConfig) (client : Nat) :
  (T.access config client).Grows T.world
  where
  subscribe := T.grows_during fun _ => World.grows_subscribe client
  nonceOf a := T.grows_during fun _ => World.grows_nonceOf client a
  submit t := T.grows_during fun s => World.grows_sendUnder client t (T.answers s)
  receive reader deadline := T.grows_during fun _ => World.grows_receive reader deadline
  receipt transaction := T.grows_during fun _ => World.grows_receipt client transaction
  logs block a := T.grows_during fun _ => World.grows_logs client block a
  height := T.grows_during fun _ => World.grows_height client

/-- Whoever has messages attested: by rounds in which nodes are asked and answer in whatever
order, measured against a set, or by rounds of somebody else, whose results are verified. -/
inductive Aggregator where
  | direct (net : Network σ Sig) (grows : ∀ now node m, Grows T.world (net.ask now node m))
      (schedules : FanOut.Schedules Key net) (set : ValidatorSet Key) (config : RoundConfig)
  | delegated (v : Verifier) (view : σ → Directory Key)
      (ask : SignatureRequest → UInt64 → StateM σ (Except MessageError Bytes))
      (grows : ∀ r percent, Grows T.world (ask r percent))

namespace Aggregator

variable {T}

/-- The attestation of a message. -/
def attest : T.Aggregator → Message → StateM σ (Except MessageError Attested)
  | direct net _ schedules set config, m => fun s =>
    let (result, r) :=
      aggregate net set config m config.maxAttempts (T.world s).toMoment s (schedules set m _ _)
    (result, T.put ((T.world r.network).onMoment fun _ => r.toMoment) r.network)
  | delegated v view ask _, m => fun s => v.delegateIn view ask m s

theorem grows_attest (a : T.Aggregator) (m : Message) :
  Grows T.world (a.attest m)
  := by
  intro s
  cases a with
  | direct net grows schedules set config =>
      have hnet : net.Keeps fun s' => (T.world s).GrowsTo (T.world s') := by
        intro now node m s' hs'
        exact hs'.trans (grows now node m s')
      have hround := holds_of_aggregate hnet set config m config.maxAttempts (T.world s).toMoment
        (schedules set m _ _) (.refl (T.world s))
      rw [attest, T.world_put]
      exact hround.trans (.onMoment _ _)
  | delegated v view ask grows =>
      simp only [attest, Verifier.delegateIn]
      split
      · exact .refl (T.world s)
      · apply grows

/-- What is attested is the message that was to be attested. -/
theorem message_of_attest_eq_ok {a : T.Aggregator} {m : Message} {s : σ} {r : Attested}
    (h : (a.attest m s).1 = .ok r) :
  r.message.message = m
  := by
  cases a with
  | direct net grows schedules set config => exact message_of_aggregate_eq_ok h
  | delegated v view ask grows =>
      obtain ⟨_, _, -, hcheck⟩ := Verifier.checkAnswer_of_delegateIn_eq_ok h
      exact (Verifier.eq_of_checkAnswer_eq_ok hcheck).2.1

end Aggregator

/-! ### A quiet world -/

/-- The traffic in which nobody else does anything, and questions about validators are answered
by what is recorded of them. -/
def quiet : Traffic (World Key Sig) Key Sig where
  world := id
  put w _ := w
  world_put _ _ := rfl
  others := id
  grows_others w := .refl w
  answers w i _ := w.directoryAt i
  backlog := World.backlog
  heightChanges client w := ((w.front? client).map (·.heights.length)).getD 0

omit [AggregateScheme Key Sig] in
theorem during_quiet (x : World Key Sig → StateM (World Key Sig) α) (w : World Key Sig) :
  quiet.during x w = x w w
  := rfl

/-- In a quiet world a transaction that a relayer sends meets what is recorded of validators. -/
theorem submit_access_quiet (config : ChainConfig) (client : Nat) (t : Transaction)
    (w : World Key Sig) :
  ((quiet.access config client).submit t).run w
    = (World.sendUnder client t fun i _ => w.directoryAt i).run w
  := during_quiet (fun w => (World.sendUnder client t fun i _ => w.directoryAt i).run) w

/-- In a quiet world a relayer deals with a client as it is. -/
theorem access_quiet {w : World Key Sig} {client : Nat} {access : ChainAccess (World Key Sig)}
    (h : w.access? client = some access) :
  ∃ c s, w.clients[client]? = some c ∧ w.sites[c.site]? = some s ∧
    access = quiet.access s.chain.config client
  := by
  simp only [World.access?, Option.bind_eq_bind, Option.bind_eq_some_iff] at h
  obtain ⟨c, hc, s, hs, h⟩ := h
  use c, s, hc, hs
  cases h
  congr 1
  funext t w
  exact (w.send_run client t).trans (submit_access_quiet s.chain.config client t w).symm

end Traffic

/-! ### Rounds in a world -/

namespace World

theorem growsTo_of_atStation {α : Type} {w w' : World Key Sig} {k : Nat}
    {f : Attestor Key Sig → (Id → Bool) → α × Attestor Key Sig} {a : α}
    (h : w.atStation k f = some (a, w')) :
  w.GrowsTo w'
  := by
  obtain ⟨stations, rfl⟩ := eq_of_atStation h
  exact .of_eq rfl rfl rfl

variable [AggregateScheme Key Sig]

/-- Whoever answers a request does nothing to the chains. -/
theorem growsTo_of_ask {w w' : World Key Sig} {c : Contact} {r : SignatureRequest}
    {a : Except MessageError (FixedBytes 96)} (h : w.ask c r = some (a, w')) :
  w.GrowsTo w'
  := by
  cases c with
  | station i =>
      rw [ask_station] at h
      exact growsTo_of_atStation h
  | service i =>
      simp only [ask, Option.bind_eq_bind, Option.bind_eq_some_iff] at h
      obtain ⟨p, -, h⟩ := h
      exact growsTo_of_atStation h
  | endpoint i =>
      simp only [ask, Option.bind_eq_bind, Option.bind_eq_some_iff] at h
      obtain ⟨e, -, h⟩ := h
      cases h
      exact .of_eq rfl rfl rfl

/-- Asking the nodes of an address book does nothing to the chains. -/
theorem grows_ask_network (book now : Nat) (node : NodeId) (m : Message) :
  Grows id (((peers book : Peers (World Key Sig)).network Key).ask now node m)
  := by
  intro w
  simp only [Peers.network, Peers.fetch]
  split
  · exact .refl w
  · next peer hpeer =>
    split
    · exact .refl w
    · next request _ =>
      simp only [peers, Option.bind_eq_bind, Option.bind_eq_some_iff] at hpeer
      obtain ⟨entries, -, contact, -, h⟩ := hpeer
      cases h
      dsimp only
      cases hask : w.ask contact request with
      | none => exact .refl w
      | some answer => exact growsTo_of_ask hask

/-- Rounds among the nodes of an address book are one way to have messages attested in a quiet
world. -/
theorem exists_attest_eq_conduct (book : Nat) (set : ValidatorSet Key) (config : RoundConfig) :
  ∃ a : (Traffic.quiet : Traffic (World Key Sig) Key Sig).Aggregator,
    a.attest = conduct book set config
  := ⟨.direct _ (grows_ask_network book) (.earliestFirst _) set config, rfl⟩

/-- A round that a service conducts does nothing to the chains. -/
theorem growsTo_of_serviceAttest {w w' : World Key Sig} {i : Nat} {r : SignatureRequest}
    {percent : UInt64} {a : Except MessageError Bytes}
    (h : w.serviceAttest i r percent = some (a, w')) :
  w.GrowsTo w'
  := by
  simp only [serviceAttest, Option.bind_eq_bind, Option.bind_eq_some_iff] at h
  obtain ⟨⟨s, p⟩, -, h⟩ := h
  cases h
  have hnet : ((peers p.book : Peers (World Key Sig)).network Key).Keeps w.GrowsTo := by
    intro now node m w' hw'
    exact hw'.trans (grows_ask_network p.book now node m w')
  have hround := s.holds_of_attest hnet w.directory r percent w.toMoment (.earliestFirst _)
    (.refl w)
  exact hround.trans (.of_eq rfl rfl rfl)

/-- Having a service conduct rounds and verifying the results is another way. -/
theorem exists_attest_eq_delegated (v : Verifier) (service : Nat) :
  ∃ a : (Traffic.quiet : Traffic (World Key Sig) Key Sig).Aggregator,
    a.attest = delegated v service
  := by
  refine ⟨.delegated v directory
    (fun r percent w => (w.serviceAttest service r percent).getD (.error .disabled, w)) ?_, rfl⟩
  intro r percent w
  show w.GrowsTo ((w.serviceAttest service r percent).getD (.error .disabled, w)).2
  cases hattest : w.serviceAttest service r percent with
  | none => exact .refl w
  | some a => exact growsTo_of_serviceAttest hattest

end World

end Interchain
