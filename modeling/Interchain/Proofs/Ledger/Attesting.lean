import Interchain.Proofs.Ledger.Emission
import Interchain.Proofs.Ledger.Turns
import Interchain.Proofs.Node.Attestor

/-!
# A node attests what its chain did

A node that asks a chain about blocks, and that is handed messages by this chain only,
signs on request exactly the messages that transactions sent after it began to follow the
chain, and the attestations of exactly the blocks that the chain accepted.
`World.Holds` says so at a moment, `Sequencer.Sent` which messages these are, and
`Sequencer.node_attests_run` that it is so after any turns.
-/

namespace Interchain

/-! ### Messages of calls and of blocks -/

/-- The message of a call is none of a block. -/
theorem Message.ne_of_call_of_block {network : UInt32} {chain block : Id} {call : Call}
    {m m' : Message} (hm : make network chain call.bytes = .ok m)
    (hm' : make network chain (Payload.blockHash block).bytes = .ok m') :
  m.bytes ≠ m'.bytes
  := by
  intro hbytes
  have heq : m = m' := by
    apply Except.ok.inj
    rw [← m.parse_bytes, ← m'.parse_bytes, hbytes]
  obtain ⟨-, -, hpayload⟩ := (make_eq_ok_iff ..).mp hm
  obtain ⟨-, -, hpayload'⟩ := (make_eq_ok_iff ..).mp hm'
  obtain ⟨-, -, hcall⟩ := (Wire.write_eq_ok_iff _ _ _).mp call.written
  rw [heq, hpayload', hcall, Payload.bytes, Wire.encoding, List.flatMap_cons, List.flatMap_cons,
    List.append_assoc] at hpayload
  have htag := (List.append_inj (List.append_cancel_left hpayload) rfl).1
  exact absurd htag (by decide)

namespace World

variable {Key Sig : Type} [AggregateScheme Key Sig]

/-- The node at a station asks the chain at a site about blocks, and attests for the chain as
one that holds some messages. -/
def Holds (w : World Key Sig) (i j : Nat) (network : UInt32) (chain : Id) (sign : Bytes → Sig)
    (Held : Id → Prop) : Prop :=
  ∃ a : Attestor Key Sig, w.stations[j]? = some ⟨a, .site i⟩ ∧ a.Attests network chain sign Held

variable {w : World Key Sig} {i j : Nat} {network : UInt32} {chain : Id} {sign : Bytes → Sig}
  {Held : Id → Prop}

/-- What is held may be said in other words. -/
theorem Holds.congr (h : w.Holds i j network chain sign Held) {Held' : Id → Prop}
    (hh : ∀ name, Held' name ↔ Held name) :
  w.Holds i j network chain sign Held'
  := by
  obtain ⟨a, ha, hattests⟩ := h
  exact ⟨a, ha, hattests.congr hh⟩

/-- A node that does something leaves the others as they are. -/
theorem Holds.of_atStation (h : w.Holds i j network chain sign Held) {α : Type} {k : Nat}
    {f : Attestor Key Sig → (Id → Bool) → α × Attestor Key Sig} {b : α} {w' : World Key Sig}
    (hw : w.atStation k f = some (b, w')) {Held' : Id → Prop}
    (hself : k = j → ∀ a accepted, a.Attests network chain sign Held →
      (f a accepted).2.Attests network chain sign Held')
    (hother : k ≠ j → ∀ name, Held' name ↔ Held name) :
  w'.Holds i j network chain sign Held'
  := by
  obtain ⟨a, ha, hattests⟩ := h
  simp only [atStation, Option.bind_eq_bind, Option.bind_eq_some_iff] at hw
  obtain ⟨s, hs, hw⟩ := hw
  cases hw
  have hlt := (List.getElem?_eq_some_iff.mp hs).1
  by_cases hk : k = j
  · subst hk
    rw [ha] at hs
    cases hs
    exact ⟨_, List.getElem?_set_self hlt, hself rfl _ _ hattests⟩
  · refine ⟨a, ?_, hattests.congr (hother hk)⟩
    rw [← ha]
    exact List.getElem?_set_ne hk

/-- A node answers as one that holds the messages, and stays one. -/
theorem Holds.ask (h : w.Holds i j network chain sign Held) {k : Nat} {r : SignatureRequest}
    {b : Except MessageError (FixedBytes 96)} {w' : World Key Sig}
    (hw : w.ask (.station k) r = some (b, w')) :
  w'.Holds i j network chain sign Held
  := by
  rw [ask_station] at hw
  apply h.of_atStation hw
  · intro _ a accepted hattests
    exact hattests.answer accepted r
  · intro _ name
    rfl

/-- A node that is handed a message of its chain holds it; another one is not concerned. -/
theorem Holds.hand (h : w.Holds i j network chain sign Held) {m : Message}
    (hn : m.network = network) (hc : m.chain = chain) (k : Nat) :
  (w.hand m k).Holds i j network chain sign fun name => (k = j ∧ m.id = name) ∨ Held name
  := by
  rw [World.hand]
  split
  · next hw =>
    apply h.of_atStation hw
    · intro hk a _ hattests
      apply (hattests.addMessage hn hc).congr
      intro name
      simp only [hk, true_and]
    · intro hk name
      simp only [hk, false_and, false_or]
  · next hw =>
    apply h.congr
    intro name
    have hk : k ≠ j := by
      rintro rfl
      obtain ⟨a, ha, -⟩ := h
      rw [atStation, ha] at hw
      cases hw
    simp only [hk, false_and, false_or]

/-- All who follow a site are handed a message. -/
theorem Holds.handFollowers (h : w.Holds i j network chain sign Held) {m : Message}
    (hn : m.network = network) (hc : m.chain = chain) (followers : List Nat) :
  World.Holds (followers.foldl (·.hand m ·) w) i j network chain sign
    fun name => (j ∈ followers ∧ m.id = name) ∨ Held name
  := by
  induction followers generalizing w Held with
  | nil =>
      apply h.congr
      intro name
      simp only [List.not_mem_nil, false_and, false_or]
  | cons k followers ih =>
      apply (ih (h.hand hn hc k)).congr
      intro name
      simp only [List.mem_cons, eq_comm (a := j), or_and_right, or_assoc, or_left_comm]

/-- All who follow a site are handed each message that a transaction sent. -/
theorem Holds.handAll (h : w.Holds i j network chain sign Held) {r : Receipt}
    (hr : ∀ m ∈ r.sent, m.network = network ∧ m.chain = chain) (followers : List Nat) :
  (w.handAll r followers).Holds i j network chain sign
    fun name => (j ∈ followers ∧ ∃ m ∈ r.sent, m.id = name) ∨ Held name
  := by
  rw [World.handAll]
  generalize r.sent = messages at hr
  induction messages generalizing w Held with
  | nil =>
      apply h.congr
      intro name
      simp only [List.not_mem_nil, false_and, exists_false, and_false, false_or]
  | cons m messages ih =>
      rw [List.forall_mem_cons] at hr
      apply (ih (h.handFollowers hr.1.1 hr.1.2 followers) hr.2).congr
      intro name
      simp only [List.exists_mem_cons_iff, and_or_left, or_assoc, or_left_comm]

/-- What the chain seals is told to those who follow it. -/
theorem Holds.sealed (h : w.Holds i j network chain sign Held) {site : Site}
    (hsite : w.sites[i]? = some site) {t : Transaction} {x : Execution}
    (hr : ∀ m ∈ (site.chain.receiptFor t x).sent, m.network = network ∧ m.chain = chain) :
  (w.sealed i t x).Holds i j network chain sign fun name =>
    (j ∈ site.followers ∧ ∃ m ∈ (site.chain.receiptFor t x).sent, m.id = name) ∨ Held name
  := by
  rw [World.sealed, hsite]
  apply Holds.handAll _ hr
  exact h

end World

namespace Sequencer

variable {Key Sig : Type} [AggregateScheme Key Sig]

/-- After a node began to follow the chain, a transaction was sealed that sent a message with a
name. -/
def Sent (s : Sequencer Key Sig) (i j : Nat) (config : ChainConfig) (turns : List (Turn Key))
    (name : Id) : Prop :=
  ∃ earlier later, turns = earlier ++ .follow j :: later ∧
    ∃ a ∈ ((s.run i (earlier ++ [.follow j])).1.run i later).2,
      ∃ m, a.Sends config m ∧ m.id = name

/-- What was sent after a node began to follow the chain is sent by a transaction that was
sealed. -/
theorem Sent.exists_sealed {s : Sequencer Key Sig} {i j : Nat} {config : ChainConfig}
    {turns : List (Turn Key)} {name : Id} (h : s.Sent i j config turns name) :
  ∃ a ∈ (s.run i turns).2, ∃ m, a.Sends config m ∧ m.id = name
  := by
  obtain ⟨earlier, later, rfl, a, ha, hsends⟩ := h
  refine ⟨a, ?_, hsends⟩
  rw [List.append_cons, run_append]
  exact List.mem_append_right _ ha

/-- With one more turn, what was sent is what was sent before and what is sent in this turn, if
the node follows the chain. -/
theorem sent_concat (s : Sequencer Key Sig) (i j : Nat) (config : ChainConfig)
    (turns : List (Turn Key)) (turn : Turn Key) (name : Id) :
  s.Sent i j config (turns ++ [turn]) name
    ↔ (.follow j ∈ turns ∧ ∃ a ∈ ((s.run i turns).1.step i turn).2, ∃ m, a.Sends config m ∧
        m.id = name) ∨ s.Sent i j config turns name
  := by
  have hstate (earlier later : List (Turn Key)) :
      ((s.run i (earlier ++ [.follow j])).1.run i later).1
        = (s.run i (earlier ++ .follow j :: later)).1 := by
    rw [List.append_cons earlier (.follow j) later, run_append s i (earlier ++ [Turn.follow j])]
  constructor
  · rintro ⟨earlier, later, heq, a, ha, hsends⟩
    obtain rfl | ⟨later, last, rfl⟩ := List.eq_nil_or_concat' later
    · cases ha
    · rw [← List.cons_append, ← List.append_assoc] at heq
      obtain ⟨rfl, hlast⟩ := List.append_inj' heq rfl
      cases hlast
      rw [run_concat, List.mem_append, hstate, Option.mem_toList] at ha
      obtain ha | ha := ha
      · exact .inr ⟨earlier, later, rfl, a, ha, hsends⟩
      · exact .inl ⟨List.mem_append_right _ List.mem_cons_self, a, ha, hsends⟩
  · rintro (⟨hfollow, a, ha, hsends⟩ | ⟨earlier, later, rfl, a, ha, hsends⟩)
    · obtain ⟨earlier, later, rfl⟩ := List.append_of_mem hfollow
      refine ⟨earlier, later ++ [turn], by rw [List.append_assoc, List.cons_append], a, ?_,
        hsends⟩
      rw [run_concat, hstate]
      exact List.mem_append_right _ (Option.mem_toList.mpr ha)
    · refine ⟨earlier, later ++ [turn], by rw [List.append_assoc, List.cons_append], a, ?_,
        hsends⟩
      rw [run_concat]
      exact List.mem_append_left _ ha

variable {s s' : Sequencer Key Sig} {i j : Nat} {config : ChainConfig} {done : List Sealing}
  {site : Site} {sign : Bytes → Sig} {Held : Id → Prop}

/-- A turn has a node hold what it held and what is sent in the turn, if the node follows the
chain. -/
theorem Took.holds {turn : Turn Key} {sealing : Option Sealing}
    (ht : s.Took i turn s' sealing) (h : s.Ordered i config done site)
    (hholds : s.world.Holds i j config.network config.name sign Held) :
  s'.world.Holds i j config.network config.name sign fun name =>
    (j ∈ site.followers ∧ ∃ a ∈ sealing, ∃ m, a.Sends config m ∧ m.id = name) ∨ Held name
  := by
  have hnothing {w : World Key Sig}
      (hw : w.Holds i j config.network config.name sign Held) :
      w.Holds i j config.network config.name sign fun name =>
        (j ∈ site.followers ∧ ∃ a ∈ (none : Option Sealing), ∃ m, a.Sends config m ∧
          m.id = name) ∨ Held name := by
    apply hw.congr
    intro name
    simp
  cases ht with
  | idle hturn => exact hnothing hholds
  | sent t => exact hnothing hholds
  | refused hserved hcall hsite he => exact hnothing hholds
  | asked hturn hp => exact hnothing hholds
  | @sealed _ _ t _ _ site' x hturn hp hsite hx =>
      obtain rfl : site = site' := Option.some.inj (h.site_eq.symm.trans hsite)
      have hsent (m : Message) := Chain.mem_sent_iff hx (site.chain.withBlock t x).head m
      rw [h.grown.config_eq] at hsent
      apply (hholds.sealed hsite ?_).congr
      · intro name
        simp only [hsent, Option.mem_some_iff, exists_eq_left']
      · intro m hm
        obtain ⟨-, -, payload, call, -, -, hmake⟩ := (hsent m).mp hm
        obtain ⟨hn, hc, -⟩ := (Message.make_eq_ok_iff ..).mp hmake
        exact ⟨hn, hc⟩
  | followed station => exact hnothing hholds
  | requested hask => exact hnothing (hholds.ask hask)

/-- A node begins to follow the chain in its turn only. -/
theorem Took.mem_followers {turn : Turn Key} {sealing : Option Sealing} {site' : Site}
    (ht : s.Took i turn s' sealing) (hsite : s.world.sites[i]? = some site)
    (hsite' : s'.world.sites[i]? = some site') :
  j ∈ site'.followers ↔ .follow j = turn ∨ j ∈ site.followers
  := by
  have hsame {turn : Turn Key} (hturn : turn ≠ .follow j) (hw : s'.world.sites = s.world.sites) :
      j ∈ site'.followers ↔ .follow j = turn ∨ j ∈ site.followers := by
    rw [hw, hsite] at hsite'
    cases hsite'
    simp only [hturn.symm, false_or]
  have hgoesOn {turn : Turn Key} (hturn : turn.goesOn = true) : turn ≠ .follow j := by
    rintro rfl
    cases hturn
  cases ht with
  | idle hturn => exact hsame (hgoesOn hturn) rfl
  | sent t => exact hsame (by simp) rfl
  | refused hserved hcall hsite he => exact hsame (by simp) rfl
  | asked hturn hp => exact hsame (hgoesOn hturn) rfl
  | @sealed _ _ t _ _ site'' x hturn hp hsite'' hx =>
      rw [World.getElem?_sites_sealed hsite] at hsite'
      cases hsite'
      simp only [Site.followers_withBlock, (hgoesOn hturn).symm, false_or]
  | followed station =>
      rw [World.getElem?_sites_addFollower hsite] at hsite'
      cases hsite'
      simp only [List.mem_append, List.mem_singleton, Turn.follow.injEq, or_comm]
  | requested hask => exact hsame (by simp) (World.sites_of_ask hask)

/-! ### Any number of turns -/

/-- After any turns from a start at which a node holds nothing and does not follow the chain,
it follows the chain if it began to, and holds what was sent since. -/
theorem Ordered.holds_run (h : s.Ordered i config [] site) (hfollowers : j ∉ site.followers)
    (hholds : s.world.Holds i j config.network config.name sign fun _ => False)
    (turns : List (Turn Key)) :
  ∃ site', (s.run i turns).1.Ordered i config (s.run i turns).2 site' ∧
    (j ∈ site'.followers ↔ .follow j ∈ turns) ∧
    (s.run i turns).1.world.Holds i j config.network config.name sign (s.Sent i j config turns)
  := by
  induction turns using List.reverseRecOn with
  | nil =>
      refine ⟨site, h, by simp [hfollowers], hholds.congr ?_⟩
      intro name
      simp [Sent]
  | append_singleton turns turn ih =>
      obtain ⟨site', hordered, hfollows, hheld⟩ := ih
      have ht := (s.run i turns).1.took_step i turn
      obtain ⟨site'', hordered'⟩ := hordered.took ht
      rw [run_concat]
      use site'', hordered'
      constructor
      · rw [ht.mem_followers hordered.site_eq hordered'.site_eq, hfollows, List.mem_append,
          List.mem_singleton, or_comm]
      · apply (ht.holds hordered hheld).congr
        intro name
        rw [sent_concat, hfollows]

/-- A node of a new chain, which asks the chain about blocks and is handed messages by it only,
signs a message on request exactly if a transaction sent it after the node began to follow
the chain, and the attestation of a block exactly if the chain accepted it, whatever
happened before and whatever the size of its cache.  So it signs the message of a block by
name only if a transaction sent a different message that has the same hash. -/
theorem node_attests_run (w : World Key Sig) (config : ChainConfig)
    (heightFault : Option MessageError) (key : Key) (sign : Bytes → Sig) (capacity : Nat)
    (turns : List (Turn Key)) :
  let i := w.sites.length
  let j := w.stations.length
  let node : Station Key Sig :=
    ⟨.ofChain config.network config.name key sign capacity, .site i⟩
  let s := start (World.addStation node w).2 config heightFault
  let answer (r : SignatureRequest) := ((s.run i turns).1.world.ask (.station j) r).map (·.1)
  (∀ name signature, answer (.message name) = some (.ok signature)
    ↔ s.Sent i j config turns name ∧ signature = Attestor.signature Key sign name) ∧
  (∀ block signature, answer (.block block) = some (.ok signature)
    ↔ (block = config.genesis.hash ∨ ∃ a ∈ (s.run i turns).2, a.block.hash = block) ∧
      ∃ m, Message.make config.network config.name (Payload.blockHash block).bytes = .ok m ∧
        signature = Attestor.signature Key sign m.id) ∧
  ∀ name signature block m, answer (.message name) = some (.ok signature) →
    Message.make config.network config.name (Payload.blockHash block).bytes = .ok m →
    m.id = name → ∃ a ∈ (s.run i turns).2, ∃ m', a.Sends config m' ∧ m'.bytes ≠ m.bytes ∧
      sha256 m'.bytes = sha256 m.bytes
  := by
  intro i j node s answer
  have hnode : s.world.stations[j]? = some node := List.getElem?_concat_length
  have hstart : s.world.Holds i j config.network config.name sign fun _ => False :=
    ⟨_, hnode, Attestor.attests_ofChain ..⟩
  have hordered : s.Ordered i config [] { chain := { config }, heightFault } :=
    ordered_start _ config heightFault
  obtain ⟨site, hordered, -, a, ha, hattests⟩ := hordered.holds_run (by simp) hstart turns
  have haccepted : (s.run i turns).1.world.isAccepted (.site i) = site.chain.isAccepted := by
    funext block
    rw [World.isAccepted, hordered.site_eq]
    rfl
  have hanswer (r : SignatureRequest) :
      answer r = some (a.answer site.chain.isAccepted r).1 := by
    show ((s.run i turns).1.world.ask (.station j) r).map (·.1) = _
    rw [World.ask_station, World.atStation, ha, ← haccepted]
    rfl
  have hmessage (name : Id) (signature : FixedBytes 96) :
      answer (.message name) = some (.ok signature)
        ↔ s.Sent i j config turns name ∧ signature = Attestor.signature Key sign name := by
    rw [hanswer, Option.some.injEq, hattests.answer_message]
  refine ⟨hmessage, ?_, ?_⟩
  · intro block signature
    rw [hanswer, Option.some.injEq, hattests.answer_block, hordered.grown.isAccepted_iff]
    rfl
  · intro name signature block m hok hm hname
    have hsent := ((hmessage name signature).mp hok).1
    obtain ⟨a, ha, m', hsends, hname'⟩ := hsent.exists_sealed
    refine ⟨a, ha, m', hsends, ?_, congrArg Id.toFixedBytes (hname'.trans hname.symm)⟩
    obtain ⟨-, -, payload, call, -, -, hmake⟩ := hsends
    exact Message.ne_of_call_of_block hmake hm

end Sequencer

end Interchain
