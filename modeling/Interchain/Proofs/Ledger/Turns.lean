import Interchain.Proofs.Ledger.History

/-!
# What a turn does

`Sequencer.Took` lists what a turn can do to a chain with calls in progress, and
`Sequencer.took_step` says that it does one of these things.  From it follows what holds
after any number of turns: the chain grew by the transactions that were sealed, in order,
and announced their blocks; a call that asks about validators is the one that is served, and
the chain admits its transaction as it did when the call began to be served.
-/

namespace Interchain

/-- A site whose chain sealed a transaction and announced its block. -/
def Site.withBlock (s : Site) (t : Transaction) (x : Execution) : Site :=
  { s with
    chain := s.chain.withBlock t x
    feed := s.feed.send (s.chain.withBlock t x).head }

@[simp]
theorem Site.followers_withBlock (s : Site) (t : Transaction) (x : Execution) :
  (s.withBlock t x).followers = s.followers
  := rfl

namespace World

variable {Key Sig : Type}

/-- A node that does something changes nothing but what there is of nodes. -/
theorem eq_of_atStation {α : Type} {w w' : World Key Sig} {k : Nat}
    {f : Attestor Key Sig → (Id → Bool) → α × Attestor Key Sig} {a : α}
    (h : w.atStation k f = some (a, w')) :
  ∃ stations, w' = { w with stations }
  := by
  simp only [atStation, Option.bind_eq_bind, Option.bind_eq_some_iff] at h
  obtain ⟨s, -, h⟩ := h
  cases h
  exact ⟨_, rfl⟩

theorem getElem?_sites_addFollower {w : World Key Sig} {i : Nat} {site : Site}
    (h : w.sites[i]? = some site) (station : Nat) :
  (w.addFollower station i).sites[i]?
    = some { site with followers := site.followers ++ [station] }
  := by
  rw [addFollower, List.getElem?_modify_eq, h]
  rfl

variable [AggregateScheme Key Sig]

/-- A node is asked by having it answer. -/
theorem ask_station (w : World Key Sig) (k : Nat) (r : SignatureRequest) :
  w.ask (.station k) r = w.atStation k fun a accepted => a.answer accepted r
  := rfl

/-- A node that answers a request changes nothing about the chains. -/
theorem sites_of_ask {w w' : World Key Sig} {k : Nat} {r : SignatureRequest}
    {a : Except MessageError (FixedBytes 96)} (h : w.ask (.station k) r = some (a, w')) :
  w'.sites = w.sites
  := by
  rw [ask_station] at h
  obtain ⟨stations, rfl⟩ := eq_of_atStation h
  rfl

theorem hand_eq (w : World Key Sig) (m : Message) (station : Nat) :
  ∃ stations, w.hand m station = { w with stations }
  := by
  rw [hand]
  split
  · next h => exact eq_of_atStation h
  · exact ⟨w.stations, rfl⟩

/-- Messages are handed to nodes only. -/
theorem handAll_eq (w : World Key Sig) (r : Receipt) (followers : List Nat) :
  ∃ stations, w.handAll r followers = { w with stations }
  := by
  have hfollowers (m : Message) (w : World Key Sig) :
      ∃ stations, followers.foldl (·.hand m ·) w = { w with stations } := by
    induction followers generalizing w with
    | nil => exact ⟨w.stations, rfl⟩
    | cons f followers ih =>
        obtain ⟨stations, hhand⟩ := w.hand_eq m f
        rw [List.foldl_cons, hhand]
        apply ih
  rw [handAll]
  induction r.sent generalizing w with
  | nil => exact ⟨w.stations, rfl⟩
  | cons m messages ih =>
      obtain ⟨stations, hhand⟩ := hfollowers m w
      rw [List.foldl_cons, hhand]
      apply ih

/-- Sealing changes the chain and what there is of nodes. -/
theorem sealed_eq {w : World Key Sig} {i : Nat} {site : Site} (h : w.sites[i]? = some site)
    (t : Transaction) (x : Execution) :
  ∃ stations, w.sealed i t x
    = { w with stations, sites := w.sites.set i (site.withBlock t x) }
  := by
  rw [sealed, h]
  apply handAll_eq

/-- The chain has the block of the transaction that it sealed, and announced it. -/
theorem getElem?_sites_sealed {w : World Key Sig} {i : Nat} {site : Site}
    (h : w.sites[i]? = some site) (t : Transaction) (x : Execution) :
  (w.sealed i t x).sites[i]? = some (site.withBlock t x)
  := by
  obtain ⟨stations, hsealed⟩ := sealed_eq h t x
  rw [hsealed]
  exact List.getElem?_set_self (List.getElem?_eq_some_iff.mp h).1

end World

namespace Turn

/-- Whether a call or a request that was made before goes on. -/
def goesOn {Key : Type} : Turn Key → Bool
  | enter _ | answer _ _ | request _ _ => true
  | send _ | follow _ => false

end Turn

/-- Whether a call returned because its transaction was sealed. -/
def Submission.isSealed {Key : Type} (c : Submission Key) : Bool :=
  match c.progress with
  | .returned (.ok _) => true
  | _ => false

namespace Sequencer

variable {Key Sig : Type} [AggregateScheme Key Sig]

/-! ### One turn -/

/-- A call goes on with its transaction, admitted at a price: it begins to be served or was
answered. -/
inductive Proceeds (s : Sequencer Key Sig) (i call : Nat) (t : Transaction) (intrinsic : Nat) :
    Prop where
  | enters {site : Site} (hserved : s.served = none)
      (hcall : s.calls[call]? = some ⟨t, .waiting⟩) (hsite : s.world.sites[i]? = some site)
      (ha : site.chain.admission t = .ok intrinsic)
  | answered {q : Inquiry Key PredicateResults}
      (hcall : s.calls[call]? = some ⟨t, .asking intrinsic q⟩)

/-- What a turn can do, and what is sealed in it. -/
inductive Took (s : Sequencer Key Sig) (i : Nat) :
    Turn Key → Sequencer Key Sig → Option Sealing → Prop where
  | idle {turn : Turn Key} (hturn : turn.goesOn = true) :
    Took s i turn s none
  | sent (t : Transaction) :
    Took s i (.send t) { s with calls := s.calls ++ [{ transaction := t }] } none
  | refused {call : Nat} {t : Transaction} {site : Site} {e : ChainError}
      (hserved : s.served = none) (hcall : s.calls[call]? = some ⟨t, .waiting⟩)
      (hsite : s.world.sites[i]? = some site) (he : site.chain.admission t = .error e) :
    Took s i (.enter call) { s with calls := s.calls.set call ⟨t, .returned (.error e)⟩ } none
  | asked {turn : Turn Key} {call : Nat} {t : Transaction} {intrinsic : Nat}
      {q : Inquiry Key PredicateResults} (hturn : turn.goesOn = true)
      (h : s.Proceeds i call t intrinsic) :
    Took s i turn
      { s with calls := s.calls.set call ⟨t, .asking intrinsic q⟩, served := some call } none
  | sealed {turn : Turn Key} {call : Nat} {t : Transaction} {intrinsic : Nat}
      {results : PredicateResults} {site : Site} {x : Execution} (hturn : turn.goesOn = true)
      (h : s.Proceeds i call t intrinsic) (hsite : s.world.sites[i]? = some site)
      (hx : x = site.chain.execute t intrinsic results) :
    Took s i turn
      { world := s.world.sealed i t x, calls := s.calls.set call ⟨t, .returned (.ok t.hash)⟩ }
      (some ⟨t, x, (site.chain.withBlock t x).head⟩)
  | followed (station : Nat) :
    Took s i (.follow station) { s with world := s.world.addFollower station i } none
  | requested {station : Nat} {r : SignatureRequest} {a : Except MessageError (FixedBytes 96)}
      {world : World Key Sig} (h : s.world.ask (.station station) r = some (a, world)) :
    Took s i (.request station r) { s with world } none

/-- A call that goes on asks something more or has its transaction sealed. -/
theorem took_proceed {s : Sequencer Key Sig} {i call : Nat} {t : Transaction} {intrinsic : Nat}
    {turn : Turn Key} (hturn : turn.goesOn = true) (h : s.Proceeds i call t intrinsic)
    (q : Inquiry Key PredicateResults) :
  s.Took i turn (s.proceed i call t intrinsic q).1 (s.proceed i call t intrinsic q).2
  := by
  cases q with
  | done results =>
      rw [proceed]
      cases hsite : s.world.sites[i]? with
      | none => exact .idle hturn
      | some site => exact .sealed hturn h hsite rfl
  | height next => exact .asked hturn h
  | subnetOf chain next => exact .asked hturn h
  | snapshot height subnet next => exact .asked hturn h

/-- A turn does one of the things that it can do. -/
theorem took_step (s : Sequencer Key Sig) (i : Nat) (turn : Turn Key) :
  s.Took i turn (s.step i turn).1 (s.step i turn).2
  := by
  cases turn with
  | send t => exact .sent t
  | enter call =>
      rw [step]
      split
      · next t site hserved hcall hsite =>
        cases ha : site.chain.admission t with
        | error e => exact .refused hserved hcall hsite ha
        | ok intrinsic => exact took_proceed rfl (.enters hserved hcall hsite ha) _
      · exact .idle rfl
  | answer call d =>
      rw [step]
      split
      · next t intrinsic q hcall => exact took_proceed rfl (.answered hcall) _
      · exact .idle rfl
  | follow station => exact .followed station
  | request station r =>
      rw [step]
      split
      · next h => exact .requested h
      · exact .idle rfl

/-! ### The order of sealings -/

/-- The chain at a site grew by some sealings and announced their blocks, and the only call
that asks about validators is the one that is served, whose transaction is still
admitted. -/
structure Ordered (s : Sequencer Key Sig) (i : Nat) (config : ChainConfig)
    (done : List Sealing) (site : Site) : Prop where
  site_eq : s.world.sites[i]? = some site
  grown : Chain.Grown config done site.chain
  announced : site.feed.sent = (done.map (·.block)).reverse
  exclusive : ∀ {call : Nat} {t : Transaction} {intrinsic : Nat}
    {q : Inquiry Key PredicateResults}, s.calls[call]? = some ⟨t, .asking intrinsic q⟩ →
      s.served = some call ∧ site.chain.admission t = .ok intrinsic

variable {s s' : Sequencer Key Sig} {i : Nat} {config : ChainConfig} {done : List Sealing}
  {site : Site}

omit [AggregateScheme Key Sig] in
/-- A transaction that a call goes on with is admitted at the price that the call keeps. -/
theorem Proceeds.admission_eq {call : Nat} {t : Transaction} {intrinsic : Nat}
    (hp : s.Proceeds i call t intrinsic) (h : s.Ordered i config done site) :
  site.chain.admission t = .ok intrinsic
  := by
  cases hp with
  | enters hserved hcall hsite ha =>
      rw [h.site_eq] at hsite
      cases hsite
      exact ha
  | answered hcall => exact (h.exclusive hcall).2

omit [AggregateScheme Key Sig] in
/-- While a call goes on, no other one asks. -/
theorem Proceeds.not_asking {call : Nat} {t : Transaction} {intrinsic : Nat}
    (hp : s.Proceeds i call t intrinsic) (h : s.Ordered i config done site) {call' : Nat}
    (hne : call ≠ call') {t' : Transaction} {intrinsic' : Nat}
    {q : Inquiry Key PredicateResults} :
  s.calls[call']? ≠ some ⟨t', .asking intrinsic' q⟩
  := by
  intro hcall'
  have hserved' := (h.exclusive hcall').1
  cases hp with
  | enters hserved hcall hsite ha =>
      rw [hserved] at hserved'
      cases hserved'
  | answered hcall =>
      rw [(h.exclusive hcall).1] at hserved'
      apply hne
      exact Option.some.inj hserved'

omit [AggregateScheme Key Sig] in
/-- A call is what it was put to, or what it was if another one was. -/
theorem getElem?_calls_set {calls : List (Submission Key)} {call call' : Nat}
    {a b : Submission Key} (h : (calls.set call a)[call']? = some b) :
  (call = call' ∧ b = a) ∨ (call ≠ call' ∧ calls[call']? = some b)
  := by
  by_cases hcall : call = call'
  · left
    use hcall
    rw [hcall] at h
    have hlt := (List.getElem?_eq_some_iff.mp h).1
    rw [List.length_set] at hlt
    rw [List.getElem?_set_self hlt] at h
    exact (Option.some.inj h).symm
  · right
    use hcall
    rwa [List.getElem?_set_ne hcall] at h

/-- A turn keeps the order of sealings and adds at most one. -/
theorem Ordered.took {turn : Turn Key} {sealing : Option Sealing}
    (h : s.Ordered i config done site) (ht : s.Took i turn s' sealing) :
  ∃ site', s'.Ordered i config (done ++ sealing.toList) site'
  := by
  have hnone {s' : Sequencer Key Sig} {site' : Site} (h' : s'.Ordered i config done site') :
      ∃ site', s'.Ordered i config (done ++ (none : Option Sealing).toList) site' := by
    use site'
    rwa [Option.toList_none, List.append_nil]
  cases ht with
  | idle => exact hnone h
  | sent t =>
      refine hnone ⟨h.site_eq, h.grown, h.announced, ?_⟩
      intro call t' intrinsic q hcall
      rw [List.getElem?_append] at hcall
      split at hcall
      · exact h.exclusive hcall
      · have hmem := List.mem_of_getElem? hcall
        rw [List.mem_singleton] at hmem
        cases hmem
  | refused hserved hcall hsite he =>
      refine hnone ⟨h.site_eq, h.grown, h.announced, ?_⟩
      intro call' t' intrinsic q hcall'
      obtain ⟨-, heq⟩ | ⟨-, hold⟩ := getElem?_calls_set hcall'
      · cases heq
      · exact h.exclusive hold
  | asked hturn hp =>
      refine hnone ⟨h.site_eq, h.grown, h.announced, ?_⟩
      intro call' t' intrinsic q hcall'
      obtain ⟨rfl, heq⟩ | ⟨hne, hold⟩ := getElem?_calls_set hcall'
      · cases heq
        exact ⟨rfl, hp.admission_eq h⟩
      · cases hp.not_asking h hne hold
  | sealed hturn hp hsite hx =>
      rw [h.site_eq] at hsite
      cases hsite
      refine ⟨_, World.getElem?_sites_sealed h.site_eq _ _, .grow h.grown (hp.admission_eq h) hx,
        ?_, ?_⟩
      · rw [Site.withBlock, Feed.send, h.announced, Option.toList_some, List.map_append,
          List.reverse_append]
        rfl
      · intro call' t' intrinsic q hcall'
        obtain ⟨-, heq⟩ | ⟨hne, hold⟩ := getElem?_calls_set hcall'
        · cases heq
        · cases hp.not_asking h hne hold
  | followed station =>
      have hsite := World.getElem?_sites_addFollower h.site_eq station
      exact hnone ⟨hsite, h.grown, h.announced, h.exclusive⟩
  | requested hask =>
      refine hnone ⟨?_, h.grown, h.announced, h.exclusive⟩
      rw [World.sites_of_ask hask]
      exact h.site_eq

/-- Any number of turns keeps the order of sealings and adds those that were made. -/
theorem Ordered.run (h : s.Ordered i config done site) (turns : List (Turn Key)) :
  ∃ site', (s.run i turns).1.Ordered i config (done ++ (s.run i turns).2) site'
  := by
  induction turns generalizing s done site with
  | nil =>
      use site
      rwa [Sequencer.run, List.append_nil]
  | cons turn turns ih =>
      obtain ⟨site', h'⟩ := h.took (s.took_step i turn)
      rw [Sequencer.run, ← List.append_assoc]
      apply ih h'

omit [AggregateScheme Key Sig] in
/-- A new chain is in order. -/
theorem ordered_start (w : World Key Sig) (config : ChainConfig)
    (heightFault : Option MessageError) :
  (start w config heightFault).Ordered w.sites.length config [] { chain := { config }, heightFault }
  := by
  refine ⟨?_, .start, rfl, by simp [start]⟩
  exact List.getElem?_concat_length

/-! ### The number of calls -/

omit [AggregateScheme Key Sig] in
/-- A call that goes on has not returned. -/
theorem Proceeds.exists_call {call : Nat} {t : Transaction} {intrinsic : Nat}
    (hp : s.Proceeds i call t intrinsic) :
  ∃ c, s.calls[call]? = some c ∧ c.isSealed = false
  := by
  cases hp with
  | enters _ hcall => exact ⟨_, hcall, rfl⟩
  | answered hcall => exact ⟨_, hcall, rfl⟩

omit [AggregateScheme Key Sig] in
/-- When a call whose transaction was not sealed is put to something else, only what it is put
to counts. -/
theorem countP_isSealed_set {calls : List (Submission Key)} {call : Nat} {c : Submission Key}
    (hcall : calls[call]? = some c) (hc : c.isSealed = false) (c' : Submission Key) :
  (calls.set call c').countP Submission.isSealed
    = calls.countP Submission.isSealed + if c'.isSealed then 1 else 0
  := by
  obtain ⟨hlt, hget⟩ := List.getElem?_eq_some_iff.mp hcall
  rw [List.countP_set hlt, hget, hc]
  rfl

/-- A turn adds one call if somebody calls, and has the transaction of one call sealed if one is
sealed. -/
theorem Took.countP_calls {turn : Turn Key} {sealing : Option Sealing}
    (ht : s.Took i turn s' sealing) :
  s'.calls.length = s.calls.length + (if turn.isSend then 1 else 0) ∧
  s'.calls.countP Submission.isSealed
    = s.calls.countP Submission.isSealed + sealing.toList.length
  := by
  have hsend {turn : Turn Key} (hturn : turn.goesOn = true) : turn.isSend = false := by
    cases turn with
    | send => cases hturn
    | _ => rfl
  cases ht with
  | idle hturn => simp [hsend hturn]
  | sent t =>
      rw [List.length_append, List.countP_append]
      exact ⟨rfl, rfl⟩
  | refused hserved hcall =>
      rw [List.length_set, countP_isSealed_set hcall rfl]
      exact ⟨rfl, rfl⟩
  | asked hturn hp =>
      obtain ⟨c, hcall, hc⟩ := hp.exists_call
      rw [List.length_set, countP_isSealed_set hcall hc, hsend hturn]
      exact ⟨rfl, rfl⟩
  | sealed hturn hp =>
      obtain ⟨c, hcall, hc⟩ := hp.exists_call
      rw [List.length_set, countP_isSealed_set hcall hc, hsend hturn]
      exact ⟨rfl, rfl⟩
  | followed station => exact ⟨rfl, rfl⟩
  | requested => exact ⟨rfl, rfl⟩

/-- After any number of turns there are as many more calls as were made, and as many of them
returned with their transaction sealed as were sealed. -/
theorem countP_calls_run (s : Sequencer Key Sig) (i : Nat) (turns : List (Turn Key)) :
  (s.run i turns).1.calls.length = s.calls.length + turns.countP Turn.isSend ∧
  (s.run i turns).1.calls.countP Submission.isSealed
    = s.calls.countP Submission.isSealed + (s.run i turns).2.length
  := by
  induction turns generalizing s with
  | nil => exact ⟨rfl, rfl⟩
  | cons turn turns ih =>
      obtain ⟨hlength, hcount⟩ := (s.took_step i turn).countP_calls
      obtain ⟨hlength', hcount'⟩ := ih (s.step i turn).1
      rw [run]
      dsimp only
      rw [hlength', hcount', hlength, hcount, List.countP_cons, List.length_append]
      constructor
      · omega
      · omega

/-- No more transactions are sealed than were sent. -/
theorem length_run_start_le (w : World Key Sig) (config : ChainConfig)
    (heightFault : Option MessageError) (i : Nat) (turns : List (Turn Key)) :
  ((start w config heightFault).run i turns).2.length ≤ turns.countP Turn.isSend
  := by
  obtain ⟨hlength, hcount⟩ := countP_calls_run (start w config heightFault) i turns
  have hle := ((start w config heightFault).run i turns).1.calls.countP_le_length
    (p := Submission.isSealed)
  have hstart : (start w config heightFault).calls = [] := rfl
  rw [hlength, hcount, hstart] at hle
  simpa using hle

/-- Turns after one turn are turns. -/
theorem run_cons (s : Sequencer Key Sig) (i : Nat) (turn : Turn Key) (turns : List (Turn Key)) :
  s.run i (turn :: turns)
    = (((s.step i turn).1.run i turns).1,
        (s.step i turn).2.toList ++ ((s.step i turn).1.run i turns).2)
  := rfl

/-- Turns after turns are turns. -/
theorem run_append (s : Sequencer Key Sig) (i : Nat) (turns turns' : List (Turn Key)) :
  s.run i (turns ++ turns')
    = (((s.run i turns).1.run i turns').1,
        (s.run i turns).2 ++ ((s.run i turns).1.run i turns').2)
  := by
  induction turns generalizing s with
  | nil => rfl
  | cons turn turns ih =>
      rw [List.cons_append, run_cons, run_cons, ih, List.append_assoc]

/-- One turn after turns. -/
theorem run_concat (s : Sequencer Key Sig) (i : Nat) (turns : List (Turn Key)) (turn : Turn Key) :
  s.run i (turns ++ [turn])
    = (((s.run i turns).1.step i turn).1,
        (s.run i turns).2 ++ ((s.run i turns).1.step i turn).2.toList)
  := by
  rw [run_append, run_cons, run, List.append_nil]

end Sequencer

end Interchain
