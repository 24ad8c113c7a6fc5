import Floodgate.Verdict
/-!
# Floodgate.Gate.Basic

**The busy/idle signal of one lock key within a process.** A gate is open, or it is blocked by one
generation of waiters: whoever arrives while it is blocked waits for that generation, and opening
the gate resolves the whole generation at once. The next blocking arms a generation with a new
number, so a resolved generation stays resolved however often the gate is blocked again.

The first blocker's data stays until the gate is opened: blocking a blocked gate changes nothing.
-/

namespace Floodgate

/-- Whether a gate lets tasks pass. -/
inductive Gate.Barrier where
  /-- Tasks pass. -/
  | opened
  /-- Tasks wait for the generation to be resolved. -/
  | blocked (generation : Nat) (lockData : Option String)
  deriving DecidableEq, Repr

/-- A gate. -/
structure Gate where
  /-- Whether it lets tasks pass. -/
  barrier : Gate.Barrier
  /-- How many generations it has armed; the next one gets this number. -/
  armed : Nat
  deriving DecidableEq, Repr

namespace Gate

/-- A gate that has never been blocked. -/
def fresh : Gate := ⟨.opened, 0⟩

/-- Whether tasks have to wait. -/
def isBlocked (g : Gate) : Bool :=
  match g.barrier with
  | .opened => false
  | .blocked _ _ => true

/-- The data of whoever blocked the gate. -/
def lockData (g : Gate) : Option String :=
  match g.barrier with
  | .opened => none
  | .blocked _ data => data

/-- The lock data as one entry per busy instance. -/
def entries (g : Gate) : List String :=
  match g.lockData with
  | some data => LockData.split data
  | none => []

/-- The entries in order, for when several instances' data may have been merged in any order. -/
def sortedEntries (g : Gate) : List String := g.entries.mergeSort fun a b => a ≤ b

/-- The generation that tasks arriving now have to wait for. -/
def generation (g : Gate) : Option Nat :=
  match g.barrier with
  | .opened => none
  | .blocked n _ => some n

/-- Whether a generation has been resolved: it no longer blocks the gate. -/
def isResolved (g : Gate) (generation : Nat) : Bool := g.generation != some generation

/-- Blocks the gate, and says whether that flipped it. -/
def block (g : Gate) (data : Option String) : Gate × Bool :=
  match g.barrier with
  | .opened => (⟨.blocked g.armed data, g.armed + 1⟩, true)
  | .blocked _ _ => (g, false)

/-- Opens the gate, and says whether that flipped it. -/
def unblock (g : Gate) : Gate × Bool :=
  match g.barrier with
  | .opened => (g, false)
  | .blocked _ _ => (⟨.opened, g.armed⟩, true)

@[simp] theorem isBlocked_fresh : fresh.isBlocked = false := rfl

@[simp] theorem lockData_fresh : fresh.lockData = none := rfl

theorem isBlocked_eq_isSome (g : Gate) : g.isBlocked = g.generation.isSome := by
  rcases g with ⟨_ | _, _⟩ <;> rfl

/-- An open gate holds no data. -/
theorem lockData_of_not_isBlocked {g : Gate} (h : g.isBlocked = false) : g.lockData = none := by
  rcases g with ⟨_ | _, _⟩
  · rfl
  · exact absurd h (by simp [isBlocked])

@[simp] theorem block_snd (g : Gate) (data : Option String) :
    (g.block data).2 = !g.isBlocked := by
  rcases g with ⟨_ | _, _⟩ <;> rfl

@[simp] theorem isBlocked_block (g : Gate) (data : Option String) :
    (g.block data).1.isBlocked = true := by
  rcases g with ⟨_ | _, _⟩ <;> rfl

@[simp] theorem unblock_snd (g : Gate) : g.unblock.2 = g.isBlocked := by
  rcases g with ⟨_ | _, _⟩ <;> rfl

@[simp] theorem isBlocked_unblock (g : Gate) : g.unblock.1.isBlocked = false := by
  rcases g with ⟨_ | _, _⟩ <;> rfl

end Gate

end Floodgate
