import Floodgate.Server.Basic
import Floodgate.Time.Timeline
/-!
# Floodgate.Simulation.ServerScene

**A status table with named receivers, and a status server with named subscribers on a simulated
clock.** Subscribers read whatever arrives at once. A subscriber whose stream has ended, or who has
ended its own side, sends no more.
-/

namespace Floodgate

/-! ### A table with named receivers -/

/-- A status table with named receivers. -/
structure TableScene where
  table : StatusTable
  receivers : List (String × Nat)

namespace TableScene

/-- A table without entries. -/
def empty : TableScene := ⟨.empty, []⟩

/-- Drops a receiver. The flag says whether there was one. -/
def unsubscribe (s : TableScene) (id : String) : Bool × TableScene :=
  match s.receivers.lookup id with
  | some receiver =>
    (true, ⟨s.table.unsubscribe receiver, Assoc.erase id s.receivers⟩)
  | none => (false, s)

/-- Attaches a receiver to a lock key. A receiver of the same name is dropped. -/
def subscribe (s : TableScene) (id lockKey : String) : TableScene :=
  let (table, receiver) := s.table.subscribe lockKey
  let s := ({ s with table } : TableScene).unsubscribe id |>.2
  { s with receivers := s.receivers ++ [(id, receiver)] }

/-- What a receiver sees: whether there is something new, and the latest snapshot. -/
def read (s : TableScene) (id : String) : Option ((Bool × Notification) × TableScene) := do
  let receiver ← s.receivers.lookup id
  let (snapshot, table) ← s.table.read receiver
  pure ((s.table.hasChanged receiver, snapshot), { s with table })

end TableScene

/-! ### A server with named subscribers -/

/-- A status server with named subscribers. -/
structure ServerScene where
  server : StatusServer
  /-- The names of the streams by their numbers, the latest first. -/
  names : List (Nat × String)

namespace ServerScene

/-- What is seen by a subscriber. -/
abbrev Seen := List (String × Arrival)

def start (plan : PrunePlan) (now : Int) : ServerScene := ⟨.start plan now, []⟩

/-- The latest stream of a name, if it is still there. -/
def find (s : ServerScene) (id : String) : Option ServerStream := do
  let (number, _) ← s.names.find? (·.2 == id)
  s.server.stream? number

/-- Ends the subscriber's side of a stream. -/
def close (s : ServerScene) (id : String) : ServerScene :=
  match s.find id with
  | some e => { s with server := s.server.close e.number }
  | none => s

/-- Opens a stream. The subscriber's side of an earlier stream of the same name ends. -/
def openStream (s : ServerScene) (id : String) : ServerScene :=
  let s := s.close id
  let (server, number) := s.server.openStream
  ⟨server, (number, id) :: s.names⟩

/-- Sends a report on a stream. The flag says whether the stream could take it. -/
def send (s : ServerScene) (id : String) (r : StatusRequest) : Bool × ServerScene :=
  match s.find id with
  | some e =>
    if e.isClosed then (false, s) else (true, { s with server := s.server.receive e.number r })
  | none => (false, s)

/-- A subscriber goes away. -/
def leave (s : ServerScene) (id : String) : ServerScene :=
  match s.find id with
  | some e => { s with server := s.server.leave e.number }
  | none => s

/-- Reports a status in a single call. -/
def setStatus (s : ServerScene) (r : StatusRequest) : Except RequestError Unit × ServerScene :=
  let (result, server) := s.server.setStatus r
  (result, { s with server })

/-- What arrives next, and whose it is. -/
def read (s : ServerScene) : Option (ServerScene × Seen) :=
  s.server.deliver.map fun (server, number, arrival) =>
    let who := "stream:" ++ (s.names.lookup number).getD ""
    ({ s with server }, [(who, arrival)])

/-- One stretch of work of some task. -/
def work (now : Int) (s : ServerScene) : Option (ServerScene × Seen) :=
  (s.server.work now).map (fun server => ({ s with server }, [])) <|> s.read

def workload : Workload ServerScene Arrival where
  work := work
  wake s := s.server.pruneTick

end ServerScene

end Floodgate
