import Floodgate.Gate.Handler
/-!
# Floodgate.Gate.Waiter

**A task that waits at a gate.** A waiter that finds the gate open passes at once. One that finds
it blocked takes up the generation that blocks it, runs its greeting callback once, and then waits
for that generation to be resolved. With a polling callback it runs that callback again and again,
with a pause in between, until it sees the generation resolved, and once more after that.

`Waiter.step` is one stretch of a waiter's work between two moments at which other tasks may run.
-/

namespace Floodgate

/-- What a callback does to the gate at its end. -/
inductive Callback.Act where
  | nothing
  /-- Opens the gate. -/
  | unblock
  /-- Opens the gate and blocks it again with this data. -/
  | reblock (data : Option String)
  deriving DecidableEq, Repr

/-- A callback of a waiter. -/
structure Callback where
  /-- How long it takes, in milliseconds. -/
  millis : Nat
  /-- What it does at its end. -/
  act : Callback.Act
  deriving DecidableEq, Repr

/-- Where a waiter stands. -/
inductive Waiter.Stage where
  /-- It has not looked at the gate yet. -/
  | arriving
  | greeting (generation : Nat) (until_ : Int)
  /-- Its polling callback runs until the instant; the flag says that it is the last time. -/
  | polling (generation : Nat) (until_ : Int) (last : Bool)
  | pausing (generation : Nat) (until_ : Int)
  /-- It waits for the generation to be resolved. -/
  | parked (generation : Nat)
  deriving DecidableEq, Repr

/-- A task that waits at a gate. -/
structure Waiter where
  /-- What to call it. -/
  id : String
  /-- Run once if the gate is blocked. -/
  onBlocked : Option Callback
  /-- Run again and again while the gate is blocked, and once more after that. -/
  whileBlocked : Option Callback
  /-- The pause between two runs of the polling callback, in milliseconds. -/
  pollMillis : Nat
  /-- When to give up waiting. -/
  deadline : Option Int
  /-- Where it stands. -/
  stage : Waiter.Stage
  deriving DecidableEq, Repr

/-- What a waiter lets others see. -/
inductive WaiterNote where
  /-- Its greeting callback starts. -/
  | onBlocked
  /-- Its polling callback starts. -/
  | whileBlocked
  /-- It passes; the flag says whether the gate was blocked when it came. -/
  | passed (wasBlocked : Bool)
  /-- It has given up. -/
  | timedOut
  deriving DecidableEq, Repr

namespace Waiter

/-- The outcome of one stretch of work: the gate, the waiter unless it is done, and what could be
seen. -/
structure Outcome where
  /-- The gate after it. -/
  house : Gatehouse
  waiter : Option Waiter
  /-- What could be seen, in order. -/
  notes : List WaiterNote

/-- What a callback does at its end. -/
def act (house : Gatehouse) : Callback.Act → Gatehouse
  | .nothing => house
  | .unblock => house.unblock.1
  | .reblock data => (house.unblock.1.block data).1

/-- Looks at the generation: starts the polling callback, for the last time if the generation is
resolved, or parks if there is no such callback. -/
def poll (w : Waiter) (now : Int) (house : Gatehouse) (generation : Nat) :
    Waiter × List WaiterNote :=
  match w.whileBlocked with
  | none => ({ w with stage := .parked generation }, [])
  | some callback =>
    let last := house.gate.isResolved generation
    ({ w with stage := .polling generation (now + callback.millis) last }, [.whileBlocked])

/-- The act of a callback that may be missing. -/
def actOf (callback : Option Callback) : Callback.Act :=
  (callback.map (·.act)).getD .nothing

/-- One stretch of a waiter's work, if it can do any at this instant. -/
def step (w : Waiter) (now : Int) (house : Gatehouse) : Option Outcome :=
  match w.stage with
  | .arriving =>
    match house.gate.generation with
    | none => some ⟨house, none, [.passed false]⟩
    | some generation =>
      match w.onBlocked with
      | some callback =>
        let stage := .greeting generation (now + callback.millis)
        some ⟨house, some { w with stage }, [.onBlocked]⟩
      | none =>
        let (w, notes) := w.poll now house generation
        some ⟨house, some w, notes⟩
  | .greeting generation until_ =>
    if until_ ≤ now then
      let house := act house (actOf w.onBlocked)
      let (w, notes) := w.poll now house generation
      some ⟨house, some w, notes⟩
    else
      none
  | .polling generation until_ last =>
    if until_ ≤ now then
      let house := act house (actOf w.whileBlocked)
      let stage := if last then .parked generation else .pausing generation (now + w.pollMillis)
      some ⟨house, some { w with stage }, []⟩
    else
      none
  | .pausing generation until_ =>
    if until_ ≤ now then
      let (w, notes) := w.poll now house generation
      some ⟨house, some w, notes⟩
    else
      none
  | .parked generation =>
    if house.gate.isResolved generation then some ⟨house, none, [.passed true]⟩ else none

/-- Whether a waiter without work at this instant has waited for too long. -/
def hasTimedOut (w : Waiter) (now : Int) : Bool :=
  match w.deadline with
  | some deadline => deadline ≤ now
  | none => false

/-- The instants at which timers of the waiter fire. -/
def timers (w : Waiter) : List Int :=
  let stage := match w.stage with
    | .greeting _ until_ | .polling _ until_ _ | .pausing _ until_ => [until_]
    | .arriving | .parked _ => []
  stage ++ w.deadline.toList

end Waiter

end Floodgate
