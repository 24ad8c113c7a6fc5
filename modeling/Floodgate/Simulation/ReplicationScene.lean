import Floodgate.Assoc
import Floodgate.Replication.Basic
import Floodgate.Time.Timeline
/-!
# Floodgate.Simulation.ReplicationScene

**A replicator whose writes follow scripts, on a simulated clock.** A scripted write says for each
of its calls how long it takes and how it ends; the last line of the script repeats, and without a
script every call succeeds at once. The scene notes each start and each end of a call under its
key, and the end of each request to the replicator under the number of that request.

Tasks that have not run yet stand in a queue and run in the order in which they were spawned, each
as far as it gets; only then do those go on that were woken in the meantime.
-/

namespace Floodgate

/-- How one call of a scripted write goes. -/
structure ScriptLine where
  /-- Whether it succeeds. -/
  ok : Bool
  /-- How long it takes in milliseconds; none if it ends where it starts. -/
  millis : Option Nat
  deriving DecidableEq, Repr

/-- A write that follows a script. -/
structure ScriptedWrite where
  /-- Its number among the writes of the scene. -/
  number : Nat
  /-- What to call it. -/
  name : String
  script : List ScriptLine
  deriving DecidableEq, Repr

/-- The line of a script for a call, counted from one. -/
def ScriptedWrite.line (w : ScriptedWrite) (call : Nat) : ScriptLine :=
  (w.script[call - 1]? <|> w.script.getLast?).getD ⟨true, none⟩

/-- A call that takes time. -/
structure ScriptedCall where
  caller : Caller
  key : String
  name : String
  call : Nat
  /-- When it ends. -/
  until_ : Int
  /-- Whether it succeeds. -/
  ok : Bool

/-- What can be seen of a replicator. -/
inductive ReplicationNote where
  | called (name : String) (call : Nat) (lease : Timestamp)
  /-- A call of a write ends. -/
  | returned (name : String) (call : Nat)
  /-- A request has been served. -/
  | done

/-- A task that has not run yet. -/
inductive ReplicationTask where
  | deliver (generation : Nat)
  | execute (request : Nat) (key : String) (write : ScriptedWrite)
  /-- A request to take up what was given up. -/
  | flush (request : Nat)
  | shutDown (request : Nat)

/-- What a request waits for. -/
inductive Awaited where
  /-- Deliveries, all of which have to come to their end. -/
  | deliveries (generations : List Nat)
  | loops

/-- A replicator with the tasks around it. -/
structure ReplicationScene where
  replicator : Replicator ScriptedWrite
  /-- Tasks that have not run yet, oldest first. -/
  queue : List ReplicationTask
  /-- Calls that take time. -/
  calls : List ScriptedCall
  /-- How often each write has been called, by its number. -/
  counts : List (Nat × Nat)
  requests : List (Nat × Awaited)
  /-- The keys that requests have named. -/
  keys : List String

namespace ReplicationScene

/-- What is seen by a task. -/
abbrev Seen := List (String × ReplicationNote)

def start (plan : ReplicationPlan) (now : Int) : ReplicationScene :=
  ⟨.start plan now, [], [], [], [], []⟩

def endCall (s : ReplicationScene) (now : Int) (caller : Caller) (ok : Bool) : ReplicationScene :=
  match s.replicator.step now (.callEnded caller ok) with
  | some (replicator, _) => { s with replicator }
  | none => s

def startCall (s : ReplicationScene) (now : Int) (c : Call ScriptedWrite) :
    ReplicationScene × Seen :=
  let call := (s.counts.lookup c.action.number).getD 0 + 1
  let s := { s with counts := Assoc.put c.action.number call s.counts }
  let seen := [("key:" ++ c.key, ReplicationNote.called c.action.name call c.lease)]
  let line := c.action.line call
  match line.millis with
  | none => (s.endCall now c.caller line.ok, seen)
  | some millis =>
    let running := ⟨c.caller, c.key, c.action.name, call, now + millis, line.ok⟩
    ({ s with calls := s.calls ++ [running] }, seen)

/-- Takes up what a section of the replicator did. -/
def follow (s : ReplicationScene) (now : Int)
    (out : Replicator ScriptedWrite × List (Call ScriptedWrite)) : ReplicationScene × Seen :=
  out.2.foldl
    (fun (s, seen) c =>
      let (s, more) := s.startCall now c
      (s, seen ++ more))
    ({ s with replicator := out.1 }, [])

/-- Ends the first call whose time is over. A call whose caller has been dropped ends unseen. -/
def endDueCall (s : ReplicationScene) (now : Int) : Option (ReplicationScene × Seen) :=
  (s.calls.find? (·.until_ ≤ now)).map fun c =>
    let s' := { s with calls := s.calls.filter fun d => !(d.caller = c.caller) }
    if s.replicator.isCalling c.caller then
      (s'.endCall now c.caller c.ok, [("key:" ++ c.key, .returned c.name c.call)])
    else
      (s', [])

/-- One stretch of the oldest task that has not run yet. -/
def runQueue (s : ReplicationScene) (now : Int) : Option (ReplicationScene × Seen) :=
  match s.queue with
  | [] => none
  | .deliver generation :: rest =>
    match s.replicator.step now (.resume (.delivery generation)) with
    | some out => some (s.follow now out)
    | none => some ({ s with queue := rest }, [])
  | .execute request key write :: rest =>
    let (replicator, generation) := s.replicator.register key write
    some ({ s with
      replicator
      queue := .deliver generation :: rest
      requests := s.requests ++ [(request, Awaited.deliveries [generation])] }, [])
  | .flush request :: rest =>
    let (replicator, generations) := s.replicator.flushPending
    some ({ s with
      replicator
      queue := generations.map .deliver ++ rest
      requests := s.requests ++ [(request, Awaited.deliveries generations)] }, [])
  | .shutDown request :: rest =>
    let s := { s with queue := rest, requests := s.requests ++ [(request, Awaited.loops)] }
    (s.replicator.step now .shutDown).map (s.follow now)

/-- Whether what a request waits for has come about. -/
def isServed (s : ReplicationScene) : Awaited → Bool
  | .deliveries generations => generations.all s.replicator.hasReturned
  | .loops => s.replicator.loopsStopped

/-- Ends the first request that has been served. -/
def endRequest (s : ReplicationScene) : Option (ReplicationScene × Seen) :=
  (s.requests.find? fun (_, awaited) => s.isServed awaited).map fun (request, _) =>
    ({ s with requests := Assoc.erase request s.requests },
      [("step:" ++ Text.natText request, .done)])

/-- One stretch of work of some task. -/
def work (now : Int) (s : ReplicationScene) : Option (ReplicationScene × Seen) :=
  s.endDueCall now <|> s.runQueue now <|> s.endRequest <|>
    (s.replicator.work now).map (s.follow now)

/-- The tasks around a replicator as a workload. -/
def workload : Workload ReplicationScene ReplicationNote where
  work := work
  wake s := earliestInstant (s.calls.map (·.until_) ++ s.replicator.timers)

/-! ### Requests -/

/-- Notes that a request names a key. -/
def name (s : ReplicationScene) (key : String) : ReplicationScene :=
  if key ∈ s.keys then s else { s with keys := s.keys ++ [key] }

/-- Adds a task that has still to run. -/
def spawn (s : ReplicationScene) (task : ReplicationTask) : ReplicationScene :=
  { s with queue := s.queue ++ [task] }

/-- Registers a write on the spot and delivers it on a task of its own. -/
def spawnExecute (s : ReplicationScene) (request : Nat) (key : String) (write : ScriptedWrite) :
    ReplicationScene :=
  let (replicator, generation) := s.replicator.register key write
  let requests := s.requests ++ [(request, Awaited.deliveries [generation])]
  { s with replicator, requests }.spawn (.deliver generation)

def forget (s : ReplicationScene) (key : String) : ReplicationScene :=
  { s with replicator := s.replicator.forget key }

/-- The keys named so far that have a write still to be delivered, in order. -/
def pendingKeys (s : ReplicationScene) : List String :=
  (s.keys.filter s.replicator.isPending).mergeSort fun a b => a ≤ b

end ReplicationScene

end Floodgate
