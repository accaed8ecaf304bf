/-!
# Moments

Time is counted in milliseconds and passes only while everything waits.  Of several
activities one is at work: it goes on until it has to wait, or until so many of its waits
ended at once that the others get their turn.  When a wait is over, it goes on before
whatever else happens at that time.

There is no last moment, so there is a deadline for any time-out.  A clock that ends, and a
program that stops if a deadline would be past its end, are not described.
-/

namespace Interchain

/-- A moment in an activity. -/
structure Moment where
  now : Nat := 0
  /-- The others have done what they had to do before this time. -/
  othersUpTo : Nat := 0
  /-- The number of waits that may end at once before the others get their turn. -/
  leeway : Nat := 128
deriving DecidableEq

namespace Moment

/-- The number of waits that may end at once in a turn. -/
def turnLength : Nat := 128

/-- The longest pause, of thirty years.  No timer is set further ahead: a pause that is to be longer
ends then, whereas a deadline may be at any time. -/
def longestPause : Nat := 30 * 365 * 24 * 60 * 60 * 1000

/-- The time at which a pause ends that begins now. -/
def after (m : Moment) (pause : Nat) : Nat := m.now + min pause longestPause

/-- The moment after the others had their turn, with nothing to wait for. -/
def giveTurn (m : Moment) : Moment :=
  { m with othersUpTo := m.now + 1, leeway := turnLength }

/-- The moment at which a wait may end, where the others have their turn if they must. -/
def ready (m : Moment) : Moment := if m.leeway = 0 then m.giveTurn else m

/-- The moment after a wait that ended at once. -/
def step (m : Moment) : Moment :=
  let m := m.ready
  { m with leeway := m.leeway - 1 }

/-- The moment at which a wait ends that lasted until a time. -/
def wakeAt (time : Nat) : Moment :=
  { now := time, othersUpTo := time, leeway := turnLength - 1 }

/-- The moment after a wait for a time, which may have come. -/
def waitUntil (m : Moment) (time : Nat) : Moment :=
  if time ≤ m.now then m.step else wakeAt time

/-- The moment after a pause. -/
def sleep (m : Moment) (pause : Nat) : Moment := m.waitUntil (m.after pause)

/-- The moment at which waiting is given up at a deadline, which may have come. -/
def expire (m : Moment) (deadline : Nat) : Moment :=
  if deadline ≤ m.now then { m with leeway := m.leeway - 1 } else wakeAt deadline

@[simp]
theorem now_step (m : Moment) :
  m.step.now = m.now
  := by
  rw [step, ready]
  split <;> rfl

theorem now_waitUntil (m : Moment) (time : Nat) :
  (m.waitUntil time).now = max m.now time
  := by
  rw [waitUntil]
  split
  · rw [now_step]
    omega
  · simp only [wakeAt]
    omega

@[simp]
theorem now_ready (m : Moment) :
  m.ready.now = m.now
  := by
  rw [ready]
  split <;> rfl

end Moment

end Interchain
