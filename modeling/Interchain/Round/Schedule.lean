import Interchain.Round.FanOut

/-!
# Until the next answer

Until the next answer comes, waiting requests are sent one after another while there is room,
`FanOut.Sends`, and then one of those under way is answered, `FanOut.Comes`, unless none is
answered in time, `FanOut.Silent`.  A `FanOut.Schedule` is a way to proceed so; which of the
answers that have come is the next is up to it.  `FanOut.next_proceeds` says that `FanOut.next`
is such a way.
-/

namespace Interchain.FanOut

variable {σ Key Sig : Type}

section Proceeds

variable (net : Network σ Sig) (set : ValidatorSet Key) (message : Message)

/-- The first of the waiting requests goes under way. -/
def sendFirst (r : Request) (rest : List Request) (f : FanOut σ Sig) : FanOut σ Sig :=
  { (launch net set message r f).2 with
    waiting := rest
    flying := f.flying ++ [(launch net set message r f).1] }

/-- Some of the waiting requests are sent in their order, each while fewer are under way than
may be. -/
inductive Sends (limit : Nat) : FanOut σ Sig → FanOut σ Sig → Prop
  | done (f : FanOut σ Sig) : Sends limit f f
  | first {f g : FanOut σ Sig} {r : Request} {rest : List Request}
      (hwaiting : f.waiting = r :: rest) (hroom : f.flying.length < limit)
      (h : Sends limit (sendFirst net set message r rest f) g) : Sends limit f g

/-- No more requests can be sent: none is waiting, or as many are under way as may be. -/
def IsFull (limit : Nat) (f : FanOut σ Sig) : Prop := f.waiting = [] ∨ limit ≤ f.flying.length

/-- The answer to one of the requests under way comes. -/
inductive Comes (limit : Nat) (deadline : Option Nat) (f : FanOut σ Sig) :
    Flight Sig → FanOut σ Sig → Prop
  /-- It is there by now, perhaps along with others. -/
  | now {flight : Flight Sig} {before after : List (Flight Sig)} {time : Nat} {moment : Moment}
      (hflying : f.flying = before ++ flight :: after) (hdue : flight.due = some time)
      (hready : time ≤ f.now) (hmoment : moment.now = f.now) :
      Comes limit deadline f flight { f with toMoment := moment, flying := before ++ after }
  /-- No more requests can be sent, and no answer comes earlier, and it comes in time. -/
  | later {flight : Flight Sig} {before after : List (Flight Sig)} {time : Nat} {moment : Moment}
      (hflying : f.flying = before ++ flight :: after) (hdue : flight.due = some time)
      (hfull : f.IsFull limit) (hearliest : ∀ g ∈ f.flying, ∀ t, g.due = some t → time ≤ t)
      (hlate : isLate deadline time = false) (hmoment : moment.now = max f.now time) :
      Comes limit deadline f flight { f with toMoment := moment, flying := before ++ after }

/-- No more requests can be sent, and no answer comes in time. -/
structure Silent (limit : Nat) (deadline : Option Nat) (f : FanOut σ Sig) : Prop where
  full : f.IsFull limit
  late : ∀ flight ∈ f.flying, ∀ time, flight.due = some time → isLate deadline time = true

/-- What may happen until the next answer: requests are sent, and then one of those under way
is answered or none is in time. -/
inductive Proceeds (limit : Nat) (deadline : Option Nat) (f : FanOut σ Sig) :
    Option (Flight Sig) × FanOut σ Sig → Prop
  | silent {g : FanOut σ Sig} (hsends : Sends net set message limit f g)
      (hsilent : Silent limit deadline g) : Proceeds limit deadline f (none, g)
  | comes {g f' : FanOut σ Sig} {flight : Flight Sig} (hsends : Sends net set message limit f g)
      (hcomes : Comes limit deadline g flight f') : Proceeds limit deadline f (some flight, f')

/-- A way to proceed to the next answer, again and again. -/
structure Schedule (limit : Nat) (deadline : Option Nat) where
  next : FanOut σ Sig → Option (Flight Sig) × FanOut σ Sig
  proceeds : ∀ f, Proceeds net set message limit deadline f (next f)

end Proceeds

variable (net : Network σ Sig) (set : ValidatorSet Key) (message : Message)

/-! ### The earliest answer -/

/-- A request goes under way as it is, and no other one with it. -/
theorem launch_eq (r : Request) (f : FanOut σ Sig) :
  (launch net set message r f).1.request = r ∧
    (launch net set message r f).2.waiting = f.waiting ∧
    (launch net set message r f).2.flying = f.flying
  := by
  rw [launch]
  split
  · exact ⟨rfl, rfl, rfl⟩
  · exact ⟨rfl, rfl, rfl⟩

/-- What a request is sent with does not depend on the requests that wait. -/
theorem launch_waiting (r : Request) (waiting : List Request) (f : FanOut σ Sig) :
  launch net set message r { f with waiting }
    = ((launch net set message r f).1, { (launch net set message r f).2 with waiting })
  := by
  rw [launch, launch]
  split
  · rfl
  · rfl

/-- Requests are sent until one of them is answered at once or no more can be sent. -/
theorem send_cases (limit : Nat) (waiting : List Request) (f : FanOut σ Sig) :
  ∃ g, Sends net set message limit { f with waiting } g ∧
    ((send net set message limit waiting f = (none, g) ∧ g.IsFull limit) ∨
      ∃ flight before, g.flying = before ++ [flight] ∧ flight.due = some g.now ∧
        send net set message limit waiting f = (some flight, { g with flying := before }))
  := by
  induction waiting generalizing f with
  | nil => exact ⟨{ f with waiting := [] }, .done _, .inl ⟨rfl, .inl rfl⟩⟩
  | cons r rest ih =>
      obtain ⟨hrequest, hwaiting, hflying⟩ := launch_eq net set message r f
      have hfirst : sendFirst net set message r rest { f with waiting := r :: rest }
          = { (launch net set message r f).2 with
              waiting := rest
              flying := f.flying ++ [(launch net set message r f).1] } := by
        rw [sendFirst, launch_waiting]
      rw [send]
      split
      · next hfull => exact ⟨{ f with waiting := r :: rest }, .done _, .inl ⟨rfl, .inr hfull⟩⟩
      · next hroom =>
        rw [Nat.not_le] at hroom
        dsimp only
        split
        · next hdue =>
          refine ⟨sendFirst net set message r rest { f with waiting := r :: rest },
            .first rfl hroom (.done _), .inr ⟨(launch net set message r f).1, f.flying, ?_⟩⟩
          rw [hfirst]
          refine ⟨rfl, hdue, ?_⟩
          rw [← hflying]
        · obtain ⟨g, hsends, hg⟩ := ih { (launch net set message r f).2 with
              flying := (launch net set message r f).2.flying ++ [(launch net set message r f).1] }
          refine ⟨g, ?_, hg⟩
          rw [hflying] at hsends
          apply Sends.first (f := { f with waiting := r :: rest }) rfl hroom
          rw [hfirst]
          apply hsends

/-- The entry that is found stands between those that are left when it is taken out. -/
theorem eraseP_of_find? {α : Type} {p : α → Bool} {l : List α} {a : α} (h : l.find? p = some a) :
  ∃ before after, l = before ++ a :: after ∧ l.eraseP p = before ++ after
  := by
  obtain ⟨hp, before, after, rfl, hbefore⟩ := List.find?_eq_some_iff_append.mp h
  refine ⟨before, after, rfl, ?_⟩
  have hb : ∀ x ∈ before, ¬ p x = true := by
    intro x hx
    have := hbefore x hx
    simp_all
  rw [List.eraseP_append_right _ hb, List.eraseP_cons_of_pos hp]

/-- There is a request under way whose answer comes at the earliest time. -/
theorem find?_earliest {flying : List (Flight Sig)} {time : Nat}
    (h : earliest? flying = some time) :
  ∃ flight, flying.find? (·.due = some time) = some flight
  := by
  obtain ⟨flight, hflight, hdue⟩ := List.mem_filterMap.mp (List.min?_mem h)
  apply Option.isSome_iff_exists.mp
  apply List.find?_isSome.mpr
  refine ⟨flight, hflight, ?_⟩
  simp only [hdue, decide_true]

/-- If the earliest time is late, so is every other. -/
theorem isLate_mono {deadline : Option Nat} {time t : Nat} (h : isLate deadline time = true)
    (hle : time ≤ t) :
  isLate deadline t = true
  := by
  cases deadline with
  | none => cases h
  | some d =>
      simp only [isLate, Option.any_some, decide_eq_true_eq] at h ⊢
      omega

/-- The next answer is the earliest of those to come, after as many requests were sent as may
be. -/
theorem next_proceeds (limit : Nat) (deadline : Option Nat) (f : FanOut σ Sig) :
  Proceeds net set message limit deadline f (next net set message limit deadline f)
  := by
  obtain ⟨g, hsends, ⟨hsend, hfull⟩ | ⟨flight, before, hflying, hdue, hsend⟩⟩ :=
    send_cases net set message limit f.waiting f
  · rw [next, hsend]
    dsimp only
    split
    · next hnone =>
      refine .silent hsends ⟨hfull, ?_⟩
      intro flight hflight time hdue
      have hmem : time ∈ g.flying.filterMap (·.due) :=
        List.mem_filterMap.mpr ⟨flight, hflight, hdue⟩
      rw [List.min?_eq_none_iff.mp hnone] at hmem
      cases hmem
    · next time htime =>
      have hearliest : ∀ flight ∈ g.flying, ∀ t, flight.due = some t → time ≤ t := by
        intro flight hflight t hdue
        apply (List.min?_eq_some_iff.mp htime).2
        apply List.mem_filterMap.mpr ⟨flight, hflight, hdue⟩
      split
      · next hlate =>
        refine .silent hsends ⟨hfull, ?_⟩
        intro flight hflight t hdue
        apply isLate_mono hlate (hearliest flight hflight t hdue)
      · next hlate =>
        obtain ⟨flight, hflight⟩ := find?_earliest htime
        obtain ⟨before, after, hflying, herase⟩ := eraseP_of_find? hflight
        have hdue := List.find?_some hflight
        rw [decide_eq_true_eq] at hdue
        rw [hflight, herase]
        apply Proceeds.comes hsends
        apply Comes.later hflying hdue hfull hearliest (Bool.eq_false_iff.mpr hlate)
        apply g.now_waitUntil
  · have hcomes : Comes limit deadline g flight { g with flying := before ++ [] } :=
      .now hflying hdue (Nat.le_refl _) rfl
    rw [List.append_nil] at hcomes
    rw [next, hsend]
    apply Proceeds.comes hsends hcomes

/-- The schedule in which the earliest answer is the next, and of several the one to the request
that was sent first. -/
def Schedule.earliestFirst (limit : Nat) (deadline : Option Nat) :
    Schedule net set message limit deadline where
  next := FanOut.next net set message limit deadline
  proceeds := next_proceeds net set message limit deadline

/-- A schedule for every pass that may be made in a network. -/
def Schedules (Key : Type) (net : Network σ Sig) : Type :=
  ∀ (set : ValidatorSet Key) (message : Message) (limit : Nat) (deadline : Option Nat),
    Schedule net set message limit deadline

/-- In every pass the earliest answer is the next. -/
def Schedules.earliestFirst (net : Network σ Sig) : Schedules Key net :=
  fun set message => Schedule.earliestFirst net set message

end Interchain.FanOut
