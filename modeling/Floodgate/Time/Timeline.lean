import Floodgate.Time.Timestamp
/-!
# Floodgate.Time.Timeline

**A clock that moves from timer to timer.** A `Workload` is a system of tasks seen from outside:
`work` carries out one stretch of some task's work that can be done at an instant, between two
moments at which other tasks may run, and `wake` says when its earliest timer fires. A `Timeline`
runs a workload: it *settles* by doing work until none is left at the present instant, and it
*advances* by moving the clock to the next timer that is due, settling there, and so on up to and
including a target.

What the tasks let others see is noted in a journal, with the instant and the task. A workload that
would work for ever within one instant is stopped after `stretchesPerInstant` of them.
-/

namespace Floodgate

/-- A system of tasks that a clock drives. -/
structure Workload (σ ν : Type) where
  /-- One stretch of work that can be done now, with what can be seen of it and of whom. -/
  work : Int → σ → Option (σ × List (String × ν))
  /-- When the earliest timer fires. -/
  wake : σ → Option Int

/-- One thing seen of a task. -/
structure JournalEntry (ν : Type) where
  /-- When it was seen. -/
  time : Int
  /-- The task. -/
  who : String
  /-- What was seen. -/
  what : ν

/-- A workload on a clock. -/
structure Timeline (σ ν : Type) where
  /-- The present instant. -/
  now : Int
  state : σ
  /-- What has been seen since the journal was last read, newest first. -/
  journal : List (JournalEntry ν)

/-- How many stretches of work one instant has room for. -/
def stretchesPerInstant : Nat := 1000000

namespace Timeline

variable {σ ν : Type}

/-- A workload that starts at an instant. -/
def start (now : Int) (state : σ) : Timeline σ ν := ⟨now, state, []⟩

/-- Notes what was seen at the present instant. -/
def note (t : Timeline σ ν) (seen : List (String × ν)) : Timeline σ ν :=
  { t with journal :=
      (seen.map fun (who, what) => JournalEntry.mk t.now who what).reverse ++ t.journal }

/-- Does work at the present instant, at most `room` stretches of it. -/
def settleWithin (p : Workload σ ν) : (room : Nat) → Timeline σ ν → Timeline σ ν
  | 0, t => t
  | room + 1, t =>
    match p.work t.now t.state with
    | none => t
    | some (state, seen) => settleWithin p room ({ t with state }.note seen)

/-- Does all the work that can be done at the present instant. -/
def settle (p : Workload σ ν) (t : Timeline σ ν) : Timeline σ ν :=
  settleWithin p stretchesPerInstant t

@[simp] theorem settleWithin_now (p : Workload σ ν) (room : Nat) (t : Timeline σ ν) :
    (settleWithin p room t).now = t.now := by
  induction room generalizing t with
  | zero => rfl
  | succ room ih =>
    rw [settleWithin]
    split
    · rfl
    · rw [ih]; rfl

/-- Moves the clock to the target, stopping at every timer on the way. -/
def advanceTo (p : Workload σ ν) (target : Int) (t : Timeline σ ν) : Timeline σ ν :=
  match p.wake t.state with
  | none => { t with now := max t.now target }
  | some due =>
    -- a timer that is due already fires as soon as the clock moves
    let next := max due (t.now + 1)
    if _reachable : next ≤ target then
      advanceTo p target (settle p { t with now := next })
    else
      { t with now := max t.now target }
termination_by (target - t.now).toNat
decreasing_by
  simp only [settle, settleWithin_now]
  omega

/-- Moves the clock by some milliseconds and settles there. -/
def advance (p : Workload σ ν) (millis : Nat) (t : Timeline σ ν) : Timeline σ ν :=
  settle p (advanceTo p (t.now + millis) (settle p t))

/-- The journal by time and then by task; what was seen of one task at one instant keeps its
order. -/
def readJournal (t : Timeline σ ν) : List (JournalEntry ν) :=
  t.journal.reverse.mergeSort fun a b => a.time < b.time || (a.time == b.time && a.who ≤ b.who)

/-- Forgets what has been seen. -/
def clearJournal (t : Timeline σ ν) : Timeline σ ν := { t with journal := [] }

end Timeline

def earliestInstant : List Int → Option Int
  | [] => none
  | t :: rest =>
    match earliestInstant rest with
    | none => some t
    | some u => some (min t u)

end Floodgate
