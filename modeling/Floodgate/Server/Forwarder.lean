import Floodgate.Server.Table
/-!
# Floodgate.Server.Forwarder

**Takes snapshots from a table to one subscriber.** A forwarder sends the snapshot that is current
when it starts, and then a later one whenever its receiver has not seen the latest. It reads only
when what it read before has been sent, so snapshots that follow one another quickly are sent as
one, and the last one is never lost.
-/

namespace Floodgate

/-- Where a forwarder stands. -/
inductive Forwarder.Stage where
  /-- It is about to read the latest snapshot. -/
  | reading
  | sending (snapshot : Notification)
  /-- It waits for a snapshot that it has not seen. -/
  | parked
  deriving DecidableEq, Repr

/-- A forwarder. -/
structure Forwarder where
  receiver : Nat
  /-- Where it stands. -/
  stage : Forwarder.Stage
  deriving DecidableEq, Repr

/-- One section of a forwarder, if it can go on: the table, the forwarder, and the snapshot that it
sends. -/
def Forwarder.step (f : Forwarder) (t : StatusTable) (hasRoom : Bool) :
    Option (StatusTable × Forwarder × Option Notification) :=
  match f.stage with
  | .reading =>
    (t.read f.receiver).map fun (snapshot, t) => (t, { f with stage := .sending snapshot }, none)
  | .sending snapshot =>
    if hasRoom then some (t, { f with stage := .parked }, some snapshot) else none
  | .parked =>
    if t.hasChanged f.receiver then some (t, { f with stage := .reading }, none) else none

end Floodgate
