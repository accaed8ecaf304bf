import Interchain.Message.Verification
import Interchain.Round.Schedule

/-!
# Rounds of aggregation

A round collects signatures over a message until the validators that signed carry a
quorum.  It proceeds in passes: each asks all validators that are still pending, turning
to the next node of a validator that was asked before, and those whose answer was a
transient failure stay pending.  A round ends early when not even all pending validators
could complete the quorum.  `Round.pass_measure_lt` says why it ends at all.
-/

namespace Interchain

/-- How a round is conducted. -/
structure RoundConfig where
  quorum : Quorum := .standard
  /-- The number of requests under way at a time, taken to be at least one. -/
  maxConcurrency : Nat := 32
  /-- The pause between passes. -/
  retryDelay : Nat := 100
  /-- The time after which the round ends with what it has. -/
  roundTimeout : Nat := 30000
  /-- The number of requests. -/
  maxAttempts : Nat := 100

/-- The validators that have signed. -/
structure Credit (Sig : Type) where
  signers : Signers := .empty
  weight : Nat := 0
  /-- The sum of their signatures. -/
  aggregate : Option Sig := none

namespace Credit

variable {Key Sig : Type} [AggregateScheme Key Sig]

/-- The credit with a validator's signature, which counts once, unless the weight leaves 64
bits. -/
def add (set : ValidatorSet Key) (c : Credit Sig) (index : Nat) (signature : Sig) :
    Except MessageError (Credit Sig) :=
  if c.signers.contains index then .ok c
  else do
    let weight ← addChecked c.weight (((set.validators[index]?).map (·.weight)).getD 0)
    return {
      signers := c.signers.insert index
      weight
      aggregate := some <|
        match c.aggregate with
        | some sum => AggregateScheme.addSigs Key sum signature
        | none => signature }

/-- Whether the validators that have signed carry the quorum. -/
def isReached (set : ValidatorSet Key) (quorum : Quorum) (c : Credit Sig) : Bool :=
  quorum.isReached c.signers.size c.weight set.total.toNat

end Credit

/-- A message with the signatures of a quorum. -/
structure Attested where
  message : SignedMessage
  /-- The weight of the signers. -/
  signed : Nat
  /-- The weight of the whole set. -/
  total : Nat

/-- A round between two passes. -/
structure Round (σ Sig : Type) extends Moment where
  network : σ
  /-- What has happened, latest first. -/
  trace : List (Event Sig) := []
  credit : Credit Sig := {}
  /-- The validators still to ask, in ascending order. -/
  pending : List Nat
  /-- How often each validator was asked. -/
  tries : List Nat
  /-- The number of requests so far. -/
  attempts : Nat := 0
  /-- Why the last pass broke off, if it did. -/
  failure : Option MessageError := none

namespace Round

variable {σ Key Sig : Type} [AggregateScheme Key Sig]

/-- What a round is about. -/
structure Setting (σ Key Sig : Type) where
  net : Network σ Sig
  set : ValidatorSet Key
  message : Message
  config : RoundConfig
  /-- The number of requests that may be made. -/
  budget : Nat
  /-- The time by which the round ends, if it has to. -/
  deadline : Option Nat
  /-- Whether the round ends as soon as not even all pending validators could complete the
  quorum. -/
  givesUp : Bool := true
  /-- In which order the answers of a pass come. -/
  schedule : FanOut.Schedule net set message (max 1 config.maxConcurrency) deadline :=
    .earliestFirst net set message (max 1 config.maxConcurrency) deadline

/-- The moment at which waiting is given up. -/
def Setting.expire (s : Setting σ Key Sig) (m : Moment) : Moment :=
  s.deadline.elim m m.expire

/-- How a pass ends: with what is left to ask, or as the last one. -/
inductive PassEnd where
  /-- All were answered, and these may be asked again. -/
  | completed (retry : List Nat)
  /-- The quorum was reached, the deadline passed, or a signature could not be credited. -/
  | final (failure : Option MessageError)

/-- The answers to at most `n` requests, credited as they come. -/
def collect (s : Setting σ Key Sig) :
    (n : Nat) → FanOut σ Sig → Credit Sig → (retry : List Nat) →
      PassEnd × FanOut σ Sig × Credit Sig
  | 0, f, credit, retry => (.completed retry, f, credit)
  | n + 1, f, credit, retry =>
    match s.schedule.next f with
    | (none, f) => (.final none, { f with toMoment := s.expire f.toMoment }, credit)
    | (some flight, f) =>
      let f := f.note s.set s.message flight
      match FanOut.judge s.set s.message flight with
      | .signed i sig =>
        match credit.add s.set i sig with
        | .error e => (.final (some e), f, credit)
        | .ok credit =>
          if credit.isReached s.set s.config.quorum then (.final none, f, credit)
          else collect s n f credit retry
      | .transient i _ => collect s n f credit (retry ++ [i])
      | .rejected .. => collect s n f credit retry

/-- The node to ask for a validator, the nodes taking turns. -/
def nodeFor (set : ValidatorSet Key) (tries : List Nat) (i : Nat) : Option Request := do
  let v ← set.validators[i]?
  let node ← v.nodes[tries.getD i 0 % max 1 v.nodes.length]?
  return ⟨i, node⟩

/-- The requests of the next pass. -/
def requests (s : Setting σ Key Sig) (r : Round σ Sig) : List Request :=
  (r.pending.take (s.budget - r.attempts)).filterMap (nodeFor s.set r.tries)

/-- The pending validators that the budget does not reach in the next pass. -/
def deferred (s : Setting σ Key Sig) (r : Round σ Sig) : List Nat :=
  r.pending.drop (s.budget - r.attempts)

/-- Whether the round is over: nobody is pending or no request is left. -/
def isOver (s : Setting σ Key Sig) (r : Round σ Sig) : Bool :=
  r.pending.isEmpty || s.budget ≤ r.attempts

/-- The weight that the round would have if all pending validators signed, as far as it can be
told in 64 bits. -/
def reachable (s : Setting σ Key Sig) (r : Round σ Sig) : Nat :=
  (r.pending.filterMap fun i => (s.set.validators[i]?).map (·.weight)).foldl addWeight
    r.credit.weight

/-- The round with what came of a pass, and the given validators pending. -/
def afterPass (s : Setting σ Key Sig) (r : Round σ Sig) (f : FanOut σ Sig) (credit : Credit Sig)
    (pending : List Nat) : Round σ Sig :=
  { toMoment := f.toMoment
    network := f.network
    trace := f.trace
    credit
    pending
    tries := (r.requests s).foldl (fun t q => t.modify q.index (· + 1)) r.tries
    attempts := r.attempts + (r.requests s).length }

/-- Whether the deadline comes before a pause ends.  A pause that would end at once comes too
late when the deadline has come and the turn is over. -/
def isTimeUp (s : Setting σ Key Sig) (r : Round σ Sig) : Bool :=
  let wake := r.after s.config.retryDelay
  FanOut.isLate s.deadline wake ||
    (wake = r.now && r.leeway = 0 && s.deadline.any (· ≤ r.now))

/-- Whether the round ends because not even all pending validators could complete the
quorum. -/
def isHopeless (s : Setting σ Key Sig) (r : Round σ Sig) : Bool :=
  s.givesUp && !s.config.quorum.isMet (r.reachable s) s.set.total.toNat

/-- Whether there is another pass, and the round after the pause before it. -/
def pause (s : Setting σ Key Sig) (r : Round σ Sig) : Bool × Round σ Sig :=
  if r.isHopeless s || r.isOver s then (false, r)
  else if r.isTimeUp s then (false, { r with toMoment := s.expire r.toMoment })
  else (true, { r with toMoment := r.sleep s.config.retryDelay })

/-- Whether there is another pass, and the round after one pass and the pause behind it. -/
def pass (s : Setting σ Key Sig) (r : Round σ Sig) : Bool × Round σ Sig :=
  let f : FanOut σ Sig :=
    { toMoment := r.toMoment
      network := r.network
      trace := r.trace
      waiting := r.requests s }
  match collect s (r.requests s).length f r.credit [] with
  | (.final failure, f, credit) => (false, { r.afterPass s f credit r.pending with failure })
  | (.completed retry, f, credit) =>
    pause s (r.afterPass s f credit ((r.deferred s ++ retry).mergeSort (· ≤ ·)))

/-! ### The end of a round -/

/-- What decreases with every pass: the requests left and the validators pending. -/
def measure (s : Setting σ Key Sig) (r : Round σ Sig) : Nat :=
  (s.budget - r.attempts) + r.pending.length

/-- No more validators are to be asked again than were asked. -/
theorem length_retry_le (s : Setting σ Key Sig) {n : Nat} {f : FanOut σ Sig}
    {credit : Credit Sig} {retry retry' : List Nat}
    (h : (collect s n f credit retry).1 = .completed retry') :
  retry'.length ≤ retry.length + n
  := by
  induction n generalizing f credit retry with
  | zero => simp_all [collect]
  | succ n ih =>
    rw [collect] at h
    split at h
    · simp at h
    · simp only at h
      split at h
      · split at h
        · simp at h
        · split at h
          · simp at h
          · have := ih h; omega
      · have := ih h
        simp only [List.length_append, List.length_singleton] at this
        omega
      · have := ih h; omega

omit [AggregateScheme Key Sig] in
theorem pause_measure (s : Setting σ Key Sig) (r : Round σ Sig) :
  (pause s r).2.measure s = r.measure s
  := by
  rw [pause]
  split
  · rfl
  · split <;> rfl

/-- A pass that is not the last uses up requests or settles validators. -/
theorem pass_measure_lt (s : Setting σ Key Sig) (r : Round σ Sig) (hr : ¬ r.isOver s)
    (h : (pass s r).1 = true) :
  (pass s r).2.measure s < r.measure s
  := by
  simp only [isOver, Bool.or_eq_true, List.isEmpty_iff, decide_eq_true_eq, not_or] at hr
  have hpos := List.length_pos_iff.2 hr.1
  have hreq : (r.requests s).length ≤ s.budget - r.attempts := by
    apply Nat.le_trans (List.length_filterMap_le ..)
    simp only [List.length_take]
    omega
  simp only [pass] at h ⊢
  split at h
  · simp at h
  · next retry f credit hend =>
    have hend' := congrArg Prod.fst hend
    have hretry := length_retry_le s hend'
    simp only [List.length_nil, Nat.zero_add] at hretry
    rw [pause_measure]
    simp only [measure, afterPass, List.length_mergeSort, List.length_append, deferred,
      List.length_drop]
    omega

/-- The round after its last pass. -/
def complete (s : Setting σ Key Sig) (r : Round σ Sig) : Round σ Sig :=
  if _hr : r.isOver s then r
  else
    match _h : pass s r with
    | (true, r') => complete s r'
    | (false, r') => r'
termination_by r.measure s
decreasing_by
  have := pass_measure_lt s r _hr (by rw [_h])
  rw [_h] at this
  exact this

/-- A round in which nobody has been asked yet. -/
def start (set : ValidatorSet Key) (start : Moment) (network : σ) : Round σ Sig :=
  { toMoment := start
    network
    pending := List.range set.validators.length
    tries := List.replicate set.validators.length 0 }

/-- What a round comes to. -/
def result (s : Setting σ Key Sig) (r : Round σ Sig) : Except MessageError Attested :=
  match r.failure with
  | some e => .error e
  | none => do
    let quorum := s.config.quorum
    let total := s.set.total.toNat
    if !r.credit.isReached s.set quorum then
      throw (.quorumNotReached r.credit.weight total quorum.numerator.toNat
        quorum.denominator.toNat)
    match r.credit.aggregate with
    | none => throw .noSigners
    | some sum =>
      let m ← SignedMessage.make s.message r.credit.signers
        (AggregateScheme.encodeSig Key sum)
      return ⟨m, r.credit.weight, total⟩

end Round

/-- The outcome of a round of at most `budget` requests that starts at a moment, and the round
at its end.  The earliest answer is the next one unless a schedule says otherwise.  The deadline
is a number without a bound, and so there is one for any time-out. -/
def aggregate {σ Key Sig : Type} [AggregateScheme Key Sig] (net : Network σ Sig)
    (set : ValidatorSet Key) (config : RoundConfig) (message : Message) (budget : Nat)
    (start : Moment) (network : σ)
    (schedule : FanOut.Schedule net set message (max 1 config.maxConcurrency)
        (some (start.now + config.roundTimeout)) :=
      .earliestFirst net set message (max 1 config.maxConcurrency)
        (some (start.now + config.roundTimeout))) :
    Except MessageError Attested × Round σ Sig :=
  let deadline := start.now + config.roundTimeout
  let s : Round.Setting σ Key Sig :=
    { net, set, message, config, budget, deadline := some deadline, schedule }
  let r := Round.complete s (Round.start set start.ready network)
  (r.result s, r)

end Interchain
