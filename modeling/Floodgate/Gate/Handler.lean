import Floodgate.Gate.Basic
/-!
# Floodgate.Gate.Handler

**Handlers run beside the gate, never in its way.** Each flip starts every handler of its kind on
a task of its own, with the data that the gate holds right after the flip. Whoever flipped the gate
does not wait for them, and a handler that panics affects neither the gate nor the other handlers.
A handler may itself block or open the gate, which starts further handlers.

A `Gatehouse` is a gate with its handlers and the runs of them that have been started and not yet
been carried out, oldest first.
-/

namespace Floodgate

/-- What a handler does when it runs. -/
inductive Handler where
  /-- Notes that it ran. -/
  | record
  /-- Notes that it ran, then panics. -/
  | panic
  /-- Panics before it has done anything. -/
  | panicOnCall
  /-- Notes that it ran, then opens the gate. -/
  | unblock
  /-- Notes that it ran, then blocks the gate with data of its own. -/
  | block (data : Option String)
  deriving DecidableEq, Repr

/-- The two ways in which a gate flips. -/
inductive Flip where
  /-- From open to blocked. -/
  | locked
  /-- From blocked to open. -/
  | unlocked
  deriving DecidableEq, Repr

/-- The handlers of a gate, in the order of their registration. -/
structure Handlers where
  /-- Run when the gate is blocked. -/
  locked : List Handler := []
  /-- Run when the gate is opened. -/
  unlocked : List Handler := []
  deriving DecidableEq, Repr

/-- A handler started by a flip. -/
structure HandlerRun where
  flip : Flip
  /-- Its place among the handlers of that flip. -/
  index : Nat
  /-- What it does. -/
  handler : Handler
  /-- The data of the gate right after the flip. -/
  data : Option String
  deriving DecidableEq, Repr

/-- What a handler run lets others see. -/
inductive HandlerNote where
  | ran (data : Option String)
  /-- It opened the gate; the flag says whether that flipped it. -/
  | unblocked (flipped : Bool)
  /-- It blocked the gate; the flag says whether that flipped it. -/
  | blocked (flipped : Bool)
  deriving DecidableEq, Repr

def Handlers.of (hs : Handlers) : Flip → List Handler
  | .locked => hs.locked
  | .unlocked => hs.unlocked

def Handlers.runs (hs : Handlers) (flip : Flip) (data : Option String) : List HandlerRun :=
  (hs.of flip).mapIdx fun index handler => ⟨flip, index, handler, data⟩

/-- A gate with its handlers. -/
structure Gatehouse where
  gate : Gate
  handlers : Handlers
  /-- Handler runs started and not yet carried out, oldest first. -/
  started : List HandlerRun
  deriving DecidableEq, Repr

namespace Gatehouse

/-- An open gate with these handlers. -/
def fresh (handlers : Handlers) : Gatehouse := ⟨.fresh, handlers, []⟩

/-- Blocks the gate, and says whether that flipped it. -/
def block (h : Gatehouse) (data : Option String) : Gatehouse × Bool :=
  match h.gate.block data with
  | (gate, true) =>
    ({ h with gate, started := h.started ++ h.handlers.runs .locked data }, true)
  | (_, false) => (h, false)

/-- Opens the gate, and says whether that flipped it. -/
def unblock (h : Gatehouse) : Gatehouse × Bool :=
  match h.gate.unblock with
  | (gate, true) =>
    ({ h with gate, started := h.started ++ h.handlers.runs .unlocked none }, true)
  | (_, false) => (h, false)

/-- Drives the gate by a verdict: open if all are idle, blocked with the merged data if not. -/
def drive (h : Gatehouse) : Verdict → Gatehouse
  | .allIdle => h.unblock.1
  | .busy data _ => (h.block data).1

def carryOut (h : Gatehouse) (run : HandlerRun) : Gatehouse × List HandlerNote :=
  match run.handler with
  | .record | .panic => (h, [.ran run.data])
  | .panicOnCall => (h, [])
  | .unblock =>
    let (h, flipped) := h.unblock
    (h, [.ran run.data, .unblocked flipped])
  | .block data =>
    let (h, flipped) := h.block data
    (h, [.ran run.data, .blocked flipped])

/-- Carries out the oldest handler run, if one has been started. -/
def runNext (h : Gatehouse) : Option (Gatehouse × HandlerRun × List HandlerNote) :=
  match h.started with
  | [] => none
  | run :: rest =>
    let (h, notes) := carryOut { h with started := rest } run
    some (h, run, notes)

end Gatehouse

end Floodgate
