import Floodgate.LockData
import Floodgate.Status
/-!
# Floodgate.Verdict

**Are all instances of a lock key idle?** The verdict on a list of statuses is either that all are
idle, or that some are busy; a busy verdict carries their merged lock data, in the order of the
list, and the earliest lease end among them, which is when the verdict may change without any
instance reporting anything new.
-/

namespace Floodgate

/-- The verdict on the statuses of one lock key. -/
inductive Verdict where
  /-- No instance is busy. -/
  | allIdle
  | busy (lockData : Option String) (nextExpiry : Option Timestamp)
  deriving DecidableEq, Repr

namespace Verdict

/-- Whether no instance is busy. -/
def isAllIdle : Verdict → Bool
  | allIdle => true
  | busy _ _ => false

/-- The merged lock data of the busy instances. -/
def lockData : Verdict → Option String
  | allIdle => none
  | busy data _ => data

/-- When the verdict may change on its own. -/
def nextExpiry : Verdict → Option Timestamp
  | allIdle => none
  | busy _ expiry => expiry

/-- The earliest of some lease ends. -/
def earliest : List Timestamp → Option Timestamp
  | [] => none
  | t :: rest =>
    match earliest rest with
    | none => some t
    | some u => some (if t.millis ≤ u.millis then t else u)

/-- The non-empty lock data of some statuses, in their order. -/
def dataEntries (statuses : List Status) : List String :=
  (statuses.filterMap (·.lockData)).filter (· ≠ "")

/-- Merges lock data, none if there is no entry. -/
def merge (entries : List String) : Option String :=
  if entries.isEmpty then none else some (LockData.join entries)

def ofStatuses (statuses : List Status) (now : Int) : Verdict :=
  match statuses.filter (·.isBusyAt now) with
  | [] => allIdle
  | live => busy (merge (dataEntries live)) (earliest (live.filterMap (·.validUntil)))

/-! ### Noticing a lapsed lease -/

/-- How long after a lease end a store looks again, in milliseconds: the wall clock and the timer
clock are not the same clock. -/
def expirySlack : Nat := 5

/-- When a timer set at `now` for a lease end fires. A lease end that has passed already is
noticed after the slack. -/
def expiryTimer (now : Int) (expiry : Option Int) : Option Int :=
  expiry.map fun end_ => max end_ now + expirySlack

end Verdict

end Floodgate
