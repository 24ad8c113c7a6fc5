import Floodgate.Gate.Waiter
import Floodgate.Text.Decimal
import Floodgate.Time.Timeline
/-!
# Floodgate.Simulation.GateScene

**A gate with the tasks around it, on a simulated clock.** The scene holds a gate, the handler runs
that its flips have started, and the waiters in the order in which they came. Handlers that a flip
has started run before the waiters that it has woken. A waiter that can do no more work at the
instant of its deadline gives up.
-/

namespace Floodgate

/-- What can be seen in the scene of a gate. -/
inductive GateNote where
  | handler (handler : Handler) (note : HandlerNote)
  /-- A waiter did something. -/
  | waiter (note : WaiterNote)

/-- A gate with its waiters. -/
structure GateScene where
  /-- The gate and its handlers. -/
  house : Gatehouse
  /-- The waiters, oldest first. -/
  waiters : List Waiter

/-- How a journal names a handler of a gate. -/
def HandlerRun.label (run : HandlerRun) : String :=
  (match run.flip with | .locked => "locked:" | .unlocked => "unlocked:") ++ Text.natText run.index

namespace GateScene

/-- The scene of a gate that has never been blocked. -/
def fresh (handlers : Handlers) : GateScene := ⟨.fresh handlers, []⟩

/-- Lets the first waiter that can work do so: the waiters before it, what it did, and the waiters
behind it. -/
def firstMove (now : Int) (house : Gatehouse) :
    List Waiter → Option (Gatehouse × List Waiter × List (String × GateNote))
  | [] => none
  | w :: rest =>
    match w.step now house with
    | some out =>
      let notes := out.notes.map fun n => ("wait:" ++ w.id, GateNote.waiter n)
      some (out.house, out.waiter.toList ++ rest, notes)
    | none =>
      (firstMove now house rest).map fun (house, rest, notes) => (house, w :: rest, notes)

/-- Lets the first waiter whose deadline has come give up. -/
def firstTimeout (now : Int) : List Waiter → Option (List Waiter × List (String × GateNote))
  | [] => none
  | w :: rest =>
    if w.hasTimedOut now then some (rest, [("wait:" ++ w.id, .waiter .timedOut)])
    else (firstTimeout now rest).map fun (rest, notes) => (w :: rest, notes)

/-- One stretch of work of some task. -/
def work (now : Int) (s : GateScene) : Option (GateScene × List (String × GateNote)) :=
  match s.house.runNext with
  | some (house, run, notes) =>
    some ({ s with house }, notes.map fun n => (run.label, .handler run.handler n))
  | none =>
    match firstMove now s.house s.waiters with
    | some (house, waiters, notes) => some (⟨house, waiters⟩, notes)
    | none =>
      (firstTimeout now s.waiters).map fun (waiters, notes) => ({ s with waiters }, notes)

/-- The tasks around a gate as a workload. -/
def workload : Workload GateScene GateNote where
  work := work
  wake s := earliestInstant (s.waiters.flatMap Waiter.timers)

def block (s : GateScene) (data : Option String) : Bool × GateScene :=
  let (house, flipped) := s.house.block data
  (flipped, { s with house })

/-- Opens the gate. -/
def unblock (s : GateScene) : Bool × GateScene :=
  let (house, flipped) := s.house.unblock
  (flipped, { s with house })

def arrive (s : GateScene) (w : Waiter) : GateScene := { s with waiters := s.waiters ++ [w] }

end GateScene

end Floodgate
