import Floodgate.Gate.Handler
import Mathlib.Data.List.Chain
import Mathlib.Data.List.Perm.Basic
/-!
# Floodgate.Proofs.Gate.Calls

**Calls flip the gate by turns, and a flip starts each of its handlers once.** A gate is blocked and
opened by any number of tasks, handlers among them. What one call can do is said once
(`Gatehouse.call_cases`): it blocks an open gate, opens a blocked one, or changes nothing.

A `Run` puts calls together with the handler runs that they start. A started run may begin at any
later time and in any order, so it does not matter when within its call it was started. What a
handler does once it has begun, in its body or behind it, is calls of some task, or a panic, which
calls nothing; a run therefore has handlers of every kind, also such as flip the gate again before
their siblings have begun (`Run.runNext` for the handlers that a `Gatehouse` carries out itself).

Main statement: `flips_alternate`, on the order of the flips, on what each call has started, and on
the data that the gate holds.
-/

namespace Floodgate

/-- A call that some task makes of a gate. -/
inductive GateCall where
  | block (data : Option String)
  | unblock
  deriving DecidableEq, Repr

namespace GateCall

/-- The flip that the call makes, if it makes one. -/
def flip : GateCall → Flip
  | block _ => .locked
  | unblock => .unlocked

/-- Whether the gate is blocked after the call. -/
def blocks : GateCall → Bool
  | block _ => true
  | unblock => false

/-- The data that comes with the call. -/
def data : GateCall → Option String
  | block data => data
  | unblock => none

@[simp] theorem flip_eq_locked_iff {c : GateCall} : c.flip = .locked ↔ c.blocks = true := by
  cases c <;> simp [flip, blocks]

theorem eq_block_data {c : GateCall} (h : c.blocks = true) : c = .block c.data := by
  cases c with
  | block data => rfl
  | unblock => cases h

theorem flip_ne_flip_iff {c c' : GateCall} : c.flip ≠ c'.flip ↔ c.blocks = !c'.blocks := by
  cases c <;> cases c' <;> simp [flip, blocks]

end GateCall

namespace Gatehouse

/-- Makes a call, and says whether it flipped the gate. -/
def call (h : Gatehouse) : GateCall → Gatehouse × Bool
  | .block data => h.block data
  | .unblock => h.unblock

/-- **What a call can do.** It blocks an open gate, arming a generation of its own, it opens a
blocked gate, or it finds the gate as it would leave it. -/
theorem call_cases (h : Gatehouse) (c : GateCall) :
    (∃ data, c = .block data ∧ h.gate.isBlocked = false ∧
      h.call c = (⟨⟨.blocked h.gate.armed data, h.gate.armed + 1⟩, h.handlers,
        h.started ++ h.handlers.runs .locked data⟩, true)) ∨
    (c = .unblock ∧ h.gate.isBlocked = true ∧
      h.call c = (⟨⟨.opened, h.gate.armed⟩, h.handlers,
        h.started ++ h.handlers.runs .unlocked none⟩, true)) ∨
    (h.gate.isBlocked = c.blocks ∧ h.call c = (h, false)) := by
  obtain ⟨⟨barrier, armed⟩, handlers, started⟩ := h
  cases c with
  | block data =>
    cases barrier with
    | opened => exact .inl ⟨data, rfl, rfl, rfl⟩
    | blocked generation held => exact .inr (.inr ⟨rfl, rfl⟩)
  | unblock =>
    cases barrier with
    | opened => exact .inr (.inr ⟨rfl, rfl⟩)
    | blocked generation held => exact .inr (.inl ⟨rfl, rfl, rfl⟩)

/-- Makes calls one after the other. -/
def callAll (h : Gatehouse) (calls : List GateCall) : Gatehouse :=
  calls.foldl (fun h c => (h.call c).1) h

/-- What a call that flips the gate leaves behind. -/
structure Flipped (h : Gatehouse) (c : GateCall) (h' : Gatehouse) : Prop where
  was : h.gate.isBlocked = !c.blocks
  isBlocked : h'.gate.isBlocked = c.blocks
  lockData : h'.gate.lockData = c.data
  handlers_eq : h'.handlers = h.handlers
  started : h'.started = h.started ++ h.handlers.runs c.flip c.data

theorem flipped_of_call {h : Gatehouse} {c : GateCall} (hflip : (h.call c).2 = true) :
    h.Flipped c (h.call c).1 := by
  rcases h.call_cases c with ⟨data, rfl, hopen, hcall⟩ | ⟨rfl, hblocked, hcall⟩ | ⟨-, hcall⟩
  · rw [hcall]
    exact ⟨hopen, rfl, rfl, rfl, rfl⟩
  · rw [hcall]
    exact ⟨hblocked, rfl, rfl, rfl, rfl⟩
  · rw [hcall] at hflip
    cases hflip

theorem eq_self_of_call {h : Gatehouse} {c : GateCall} (hflip : (h.call c).2 = false) :
    (h.call c).1 = h := by
  rcases h.call_cases c with ⟨_, _, _, hcall⟩ | ⟨_, _, hcall⟩ | ⟨-, hcall⟩
  · rw [hcall] at hflip
    cases hflip
  · rw [hcall] at hflip
    cases hflip
  · rw [hcall]

/-- The gate is already as the call would leave it. -/
theorem isBlocked_of_call {h : Gatehouse} {c : GateCall} (hflip : (h.call c).2 = false) :
    h.gate.isBlocked = c.blocks := by
  rcases h.call_cases c with ⟨_, _, _, hcall⟩ | ⟨_, _, hcall⟩ | ⟨hblocks, -⟩
  · rw [hcall] at hflip
    cases hflip
  · rw [hcall] at hflip
    cases hflip
  · exact hblocks

end Gatehouse

/-- The calls that a handler makes. -/
def Handler.calls : Handler → List GateCall
  | .record | .panic | .panicOnCall => []
  | .unblock => [.unblock]
  | .block data => [.block data]

theorem Gatehouse.carryOut_eq (h : Gatehouse) (run : HandlerRun) :
    (h.carryOut run).1 = h.callAll run.handler.calls := by
  unfold carryOut
  cases run.handler <;> rfl

/-- A gate carries out its oldest handler run, by making the calls of its handler. -/
theorem Gatehouse.of_runNext {h h' : Gatehouse} {run : HandlerRun} {notes : List HandlerNote}
    (hnext : h.runNext = some (h', run, notes)) :
    h.started[0]? = some run ∧
      h' = { h with started := h.started.eraseIdx 0 }.callAll run.handler.calls := by
  unfold runNext at hnext
  split at hnext
  · cases hnext
  · next first rest hstarted =>
    cases hnext
    rw [hstarted]
    exact ⟨rfl, carryOut_eq { h with started := rest } run⟩

/-- A member of what is still to come that has come is among what there has been. -/
theorem perm_eraseIdx_of_getElem? {α : Type} {done pending : List α} {place : Nat} {x : α}
    (hat : pending[place]? = some x) :
    (x :: done ++ pending.eraseIdx place).Perm (done ++ pending) := by
  obtain ⟨hlt, rfl⟩ := List.getElem?_eq_some_iff.mp hat
  exact List.perm_middle.symm.trans ((List.getElem_cons_eraseIdx_perm hlt).append_left done)

/-- A call that has been made, with the gate before and after it. -/
structure AnsweredCall where
  call : GateCall
  before : Gatehouse
  after : Gatehouse
  /-- The answer: whether it flipped the gate. -/
  flipped : Bool

/-- The handler runs that are due to a call that has flipped the gate: one for every handler of its
kind, with the data that the gate holds right after it. -/
def AnsweredCall.due (a : AnsweredCall) (handlers : Handlers) : List HandlerRun :=
  (handlers.of a.call.flip).mapIdx fun index handler =>
    ⟨a.call.flip, index, handler, a.after.gate.lockData⟩

/-- A gate with what has been done to it. -/
structure GateLog where
  house : Gatehouse
  /-- The calls so far, latest first. -/
  calls : List AnsweredCall
  /-- The handler runs that have begun, latest first. -/
  begun : List HandlerRun

namespace GateLog

variable {handlers : Handlers} {l : GateLog}

/-- The calls that have flipped the gate, latest first. -/
def flips (l : GateLog) : List AnsweredCall := l.calls.filter (·.flipped)

/-- Some task makes a call. -/
def call (l : GateLog) (c : GateCall) : GateLog :=
  let (after, flipped) := l.house.call c
  { l with house := after, calls := ⟨c, l.house, after, flipped⟩ :: l.calls }

def callAll (l : GateLog) (calls : List GateCall) : GateLog := calls.foldl call l

/-- A handler run that has been started begins. -/
def begin (l : GateLog) (place : Nat) (run : HandlerRun) : GateLog :=
  { l with
    house := { l.house with started := l.house.started.eraseIdx place }
    begun := run :: l.begun }

/-- The runs of a gate with some handlers. -/
inductive Run (handlers : Handlers) : GateLog → Prop
  | fresh : Run handlers ⟨.fresh handlers, [], []⟩
  | call {l : GateLog} (h : Run handlers l) (c : GateCall) : Run handlers (l.call c)
  | begin {l : GateLog} (h : Run handlers l) (place : Nat) (run : HandlerRun)
      (hat : l.house.started[place]? = some run) : Run handlers (l.begin place run)

/-! ### One call -/

/-- What can be said of a call that has been made. -/
structure Fair (handlers : Handlers) (a : AnsweredCall) : Prop where
  lockData : a.flipped = true → a.after.gate.lockData = a.call.data
  started : a.flipped = true → a.after.started = a.before.started ++ a.due handlers
  unchanged : a.flipped = false → a.after = a.before

theorem fair_call (h : Gatehouse) (c : GateCall) :
    Fair h.handlers ⟨c, h, (h.call c).1, (h.call c).2⟩ where
  lockData hflip := (Gatehouse.flipped_of_call hflip).lockData
  started hflip := by
    have hflipped := Gatehouse.flipped_of_call hflip
    rw [hflipped.started, ← hflipped.lockData]
    rfl
  unchanged hflip := Gatehouse.eq_self_of_call hflip

/-! ### Any number of calls -/

/-- The gate is as the latest flip has left it, the flips have come by turns, and every handler run
that there has been is due to one of them. -/
structure Orderly (handlers : Handlers) (l : GateLog) : Prop where
  handlers_eq : l.house.handlers = handlers
  isBlocked : l.house.gate.isBlocked = l.flips.head?.any (·.call.blocks)
  lockData : ∀ last ∈ l.flips.head?, l.house.gate.lockData = last.call.data
  alternate : (l.flips.map (·.call.flip)).IsChain (· ≠ ·)
  first : ∀ first ∈ l.flips.getLast?, first.call.flip = .locked
  fair : ∀ a ∈ l.calls, Fair handlers a
  runs : (l.begun ++ l.house.started).Perm (l.flips.flatMap (·.due handlers))

namespace Orderly

theorem fresh (handlers : Handlers) : Orderly handlers ⟨.fresh handlers, [], []⟩ :=
  ⟨rfl, rfl, nofun, .nil, nofun, nofun, .nil⟩

/-- A call that does not flip the gate leaves only its answer behind. -/
theorem call_of_not_flipped (h : Orderly handlers l) {c : GateCall}
    (hflip : (l.house.call c).2 = false) : Orderly handlers (l.call c) := by
  have hhouse : (l.call c).house = l.house := Gatehouse.eq_self_of_call hflip
  have hflips : (l.call c).flips = l.flips := by simp [flips, call, hflip]
  refine ⟨?_, ?_, ?_, ?_, ?_, ?_, ?_⟩
  · rw [hhouse, h.handlers_eq]
  · rw [hhouse, hflips, h.isBlocked]
  · rw [hhouse, hflips]
    exact h.lockData
  · rw [hflips]
    exact h.alternate
  · rw [hflips]
    exact h.first
  · exact List.forall_mem_cons.mpr ⟨h.handlers_eq ▸ fair_call l.house c, h.fair⟩
  · rw [hhouse, hflips]
    exact h.runs

/-- A call that flips the gate comes behind a flip of the other kind, and its handlers are the only
runs that are new. -/
theorem call_of_flipped (h : Orderly handlers l) {c : GateCall}
    (hflip : (l.house.call c).2 = true) : Orderly handlers (l.call c) := by
  have hflipped := Gatehouse.flipped_of_call hflip
  have hfair : Fair handlers ⟨c, l.house, (l.house.call c).1, (l.house.call c).2⟩ :=
    h.handlers_eq ▸ fair_call l.house c
  have hflips : (l.call c).flips =
      ⟨c, l.house, (l.house.call c).1, (l.house.call c).2⟩ :: l.flips := by
    simp [flips, call, hflip]
  refine ⟨hflipped.handlers_eq.trans h.handlers_eq, ?_, ?_, ?_, ?_, ?_, ?_⟩
  · rw [hflips]
    exact hflipped.isBlocked
  · rw [hflips]
    rintro _ ⟨⟩
    exact hflipped.lockData
  · rw [hflips, List.map_cons, List.isChain_cons, List.head?_map]
    refine ⟨fun other hother => ?_, h.alternate⟩
    obtain ⟨last, hlast, rfl⟩ := Option.map_eq_some_iff.mp hother
    have hwas := hflipped.was
    rw [h.isBlocked, hlast, Option.any_some] at hwas
    exact GateCall.flip_ne_flip_iff.mpr (by rw [hwas, Bool.not_not])
  · rw [hflips, List.getLast?_cons]
    rintro _ ⟨⟩
    cases hlast : l.flips.getLast? with
    | some first => exact h.first first hlast
    | none =>
      have hwas := hflipped.was
      rw [h.isBlocked, List.getLast?_eq_none_iff.mp hlast] at hwas
      exact GateCall.flip_eq_locked_iff.mpr (by simpa using hwas)
  · exact List.forall_mem_cons.mpr ⟨hfair, h.fair⟩
  · rw [hflips, List.flatMap_cons]
    have hstarted : (l.call c).house.started = l.house.started ++ _ := hfair.started hflip
    rw [hstarted, ← List.append_assoc]
    exact List.perm_append_comm.trans (h.runs.append_left _)

/-- A handler run that begins is no longer to come. -/
theorem begin (h : Orderly handlers l) {place : Nat} {run : HandlerRun}
    (hat : l.house.started[place]? = some run) : Orderly handlers (l.begin place run) where
  handlers_eq := h.handlers_eq
  isBlocked := h.isBlocked
  lockData := h.lockData
  alternate := h.alternate
  first := h.first
  fair := h.fair
  runs := (perm_eraseIdx_of_getElem? hat).trans h.runs

end Orderly

theorem Run.orderly (h : Run handlers l) : Orderly handlers l := by
  induction h with
  | fresh => exact .fresh handlers
  | @call l _ c ih =>
    cases hflip : (l.house.call c).2 with
    | false => exact ih.call_of_not_flipped hflip
    | true => exact ih.call_of_flipped hflip
  | begin _ _ _ hat ih => exact ih.begin hat

/-! ### The handlers that a gate carries out itself -/

theorem Run.callAll (h : Run handlers l) (calls : List GateCall) :
    Run handlers (l.callAll calls) := by
  induction calls generalizing l with
  | nil => exact h
  | cons c rest ih => exact ih (h.call c)

theorem house_callAll (l : GateLog) (calls : List GateCall) :
    (l.callAll calls).house = l.house.callAll calls := by
  induction calls generalizing l with
  | nil => rfl
  | cons c rest ih => exact ih (l.call c)

/-- Carrying out the oldest handler run is part of a run. -/
theorem Run.runNext (h : Run handlers l) {house : Gatehouse} {run : HandlerRun}
    {notes : List HandlerNote} (hnext : l.house.runNext = some (house, run, notes)) :
    Run handlers ((l.begin 0 run).callAll run.handler.calls) ∧
      ((l.begin 0 run).callAll run.handler.calls).house = house := by
  obtain ⟨hat, rfl⟩ := Gatehouse.of_runNext hnext
  exact ⟨(h.begin 0 run hat).callAll _, house_callAll _ _⟩

/-! ### What every run shows -/

/-- **In every run of a gate, whatever its handlers do: the calls that flip it take turns, and the
first one blocks it; each of them starts every handler of its kind once, with the data that the gate
holds right after it, which is the data of a call that blocks and none otherwise, and nothing else
starts a handler; a call that does not flip it changes nothing; and the gate holds no data while it
is open, and the data of the call that blocked it while it is blocked.** -/
theorem flips_alternate (h : Run handlers l) :
    ((l.flips.map (·.call.flip)).IsChain (· ≠ ·) ∧
      ∀ first ∈ l.flips.getLast?, first.call.flip = .locked) ∧
    (∀ a ∈ l.calls, a.flipped = true → a.after.gate.lockData = a.call.data ∧
      a.after.started = a.before.started ++ a.due handlers) ∧
    (l.begun ++ l.house.started).Perm (l.flips.flatMap (·.due handlers)) ∧
    (∀ a ∈ l.calls, a.flipped = false → a.after = a.before) ∧
    (l.house.gate.isBlocked = false → l.house.gate.lockData = none) ∧
    (l.house.gate.isBlocked = true →
      ∃ last, l.flips.head? = some last ∧ last.call = .block l.house.gate.lockData) := by
  have horderly := h.orderly
  refine ⟨⟨horderly.alternate, horderly.first⟩,
    fun a ha hflip => ⟨(horderly.fair a ha).lockData hflip, (horderly.fair a ha).started hflip⟩,
    horderly.runs, fun a ha => (horderly.fair a ha).unchanged, Gate.lockData_of_not_isBlocked,
    fun hblocked => ?_⟩
  rw [horderly.isBlocked] at hblocked
  cases hlast : l.flips.head? with
  | none =>
    rw [hlast] at hblocked
    cases hblocked
  | some last =>
    rw [hlast, Option.any_some] at hblocked
    rw [horderly.lockData last hlast]
    exact ⟨last, rfl, GateCall.eq_block_data hblocked⟩

/-- One handler of the first flip panics, the next one opens the gate before the third has begun,
and a handler of that flip blocks it again. -/
def restlessHandlers : Handlers := ⟨[.panic, .unblock, .record], [.block (some "again")]⟩

/-- A gate with those handlers, blocked once, and then once more without effect. -/
def restlessLog : GateLog :=
  let l : GateLog := ⟨.fresh restlessHandlers, [], []⟩
  let l := l.call (.block (some "job"))
  let l := (l.begin 1 ⟨.locked, 1, .unblock, some "job"⟩).call .unblock
  let l := (l.begin 2 ⟨.unlocked, 0, .block (some "again"), none⟩).call (.block (some "again"))
  l.call (.block (some "late"))

theorem run_restlessLog : Run restlessHandlers restlessLog := by
  have hblocked : Run restlessHandlers _ := Run.fresh.call (.block (some "job"))
  have hopened := (hblocked.begin 1 ⟨.locked, 1, .unblock, some "job"⟩ (by decide)).call .unblock
  have hagain := (hopened.begin 2 ⟨.unlocked, 0, .block (some "again"), none⟩ (by decide)).call
    (.block (some "again"))
  exact hagain.call (.block (some "late"))

/-- The gate flips three times for one call from outside. -/
theorem flips_alternate_of_restless :
    restlessLog.flips.map (·.call) = [.block (some "again"), .unblock, .block (some "job")] ∧
    (restlessLog.flips.map (·.call.flip)).IsChain (· ≠ ·) ∧
    restlessLog.house.started.length = 5 ∧
    (restlessLog.begun ++ restlessLog.house.started).Perm
      (restlessLog.flips.flatMap (·.due restlessHandlers)) ∧
    restlessLog.house.gate.lockData = some "again" := by
  obtain ⟨⟨halternate, -⟩, -, hruns, -⟩ := flips_alternate run_restlessLog
  exact ⟨by decide, halternate, by decide, hruns, by decide⟩

end GateLog

end Floodgate
