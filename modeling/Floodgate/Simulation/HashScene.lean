import Floodgate.HashStore.Basic
import Floodgate.Simulation.GateScene
/-!
# Floodgate.Simulation.HashScene

**Stores around one server of hashes, on a simulated clock.** A call of a store's replicator writes
a field and announces it to every store that listens on the channel, all within one section. The
scene can make the server unavailable, refuse new subscriptions, and end all streams. A store that
has been dropped is shut down and takes no more requests, but its gate can still be seen.
-/

namespace Floodgate

/-- A store in a scene. -/
structure HashSceneStore where
  /-- What to call it. -/
  name : String
  store : HashStore
  isDropped : Bool

/-- Stores around one server. -/
structure HashScene where
  server : HashServer
  /-- Whether new subscriptions are refused. -/
  refuses : Bool
  /-- How often a store has tried to subscribe. -/
  subscriptions : Nat
  /-- The stores, in the order in which they were started. -/
  stores : List HashSceneStore
  lockKeys : List String

namespace HashScene

/-- What is seen by a task. -/
abbrev Seen := List (String × GateNote)

/-- A server without stores. -/
def empty : HashScene := ⟨.empty, false, 0, [], []⟩

/-- Whether subscribing succeeds now. -/
def accepts (s : HashScene) : Bool := !s.refuses && s.server.isAvailable

def countSubscription (s : HashScene) : HashScene :=
  { s with subscriptions := s.subscriptions + 1 }

def announce (s : HashScene) (channel : String) : HashScene :=
  { s with stores := s.stores.map fun e => { e with store := e.store.hear channel } }

def set (s : HashScene) (place : Nat) (store : HashStore) : HashScene :=
  { s with stores := s.stores.modify place fun e => { e with store } }

/-- Writes a field, announced on a channel. The flag says whether that succeeded. -/
def write (s : HashScene) (lockKey field value channel : String) : HashScene × Bool :=
  match s.server.write (HashStore.hashKey lockKey) field value with
  | some server =>
    let lockKeys := if lockKey ∈ s.lockKeys then s.lockKeys else s.lockKeys ++ [lockKey]
    ({ s with server, lockKeys }.announce channel, true)
  | none => (s, false)

/-- Carries out a call of the replicator of the store at a place. -/
def carryOut (now : Int) (place : Nat) (s : HashScene) (c : Call FieldWrite) : HashScene :=
  match s.stores[place]? with
  | none => s
  | some e =>
    let key := e.store.lockKey
    let (s, ok) := s.write key c.action.field (c.action.value c.lease) (HashStore.channelName key)
    match s.stores[place]? with
    | none => s
    | some e =>
      match e.store.replicator.step now (.callEnded c.caller ok) with
      | some (replicator, _) => s.set place { e.store with replicator }
      | none => s

/-- One section of a replicator: of the first store whose replicator can go on. -/
def deliver (now : Int) (s : HashScene) : Option HashScene :=
  (s.stores.zipIdx.findSome? fun (e, place) =>
    (e.store.replicator.work now).map fun out => (e.store, place, out)).map
  fun (store, place, replicator, calls) =>
    calls.foldl (carryOut now place) (s.set place { store with replicator })

/-- One section of a subscriber: of the first store whose subscriber can go on. -/
def listen (now : Int) (s : HashScene) : Option HashScene :=
  (s.stores.zipIdx.findSome? fun (e, place) =>
    (e.store.wake? now).map fun wake => (e.store, place, wake)).map
  fun (store, place, wake) =>
    let reading := s.server.readAll (HashStore.hashKey store.lockKey)
    let store := store.onWake now s.accepts reading wake
    let s := if wake = .subscribe then s.countSubscription else s
    s.set place store

/-- One handler run: of the first store whose gate has started one. -/
def handle (s : HashScene) : Option (HashScene × Seen) :=
  (s.stores.zipIdx.findSome? fun (e, place) =>
    (e.store.house.runNext).map fun out => (e, place, out)).map
  fun (e, place, house, run, notes) =>
    (s.set place { e.store with house },
      notes.map fun n => (e.name ++ "/" ++ run.label, .handler run.handler n))

/-- One stretch of work of some task. -/
def work (now : Int) (s : HashScene) : Option (HashScene × Seen) :=
  (s.deliver now).map (·, []) <|> (s.listen now).map (·, []) <|> s.handle

/-- The tasks of the stores as a workload. -/
def workload : Workload HashScene GateNote where
  work := work
  wake s := earliestInstant (s.stores.flatMap fun e => e.store.timers)

/-! ### Requests -/

/-- Starts a store. A store of the same name is dropped. -/
def start (s : HashScene) (now : Int) (name lockKey : String) (options : ReplicatorOptions)
    (handlers : Handlers) : Except HashStoreError Unit × HashScene :=
  let reading := s.server.readAll (HashStore.hashKey lockKey)
  let started := HashStore.start lockKey options (.fresh handlers) now s.accepts reading
  let s := match started with
    | .ok _ | .error .redis => s.countSubscription
    | .error _ => s
  match started with
  | .ok store =>
    (.ok (), { s with stores := s.stores.filter (·.name ≠ name) ++ [⟨name, store, false⟩] })
  | .error e => (.error e, s)

/-- The place of a store that has not been dropped. -/
def find (s : HashScene) (name : String) : Option (Nat × HashStore) :=
  s.stores.zipIdx.findSome? fun (e, place) =>
    if e.name = name && !e.isDropped then some (place, e.store) else none

/-- Sets a status through a store. -/
def setStatus (s : HashScene) (name instanceName : String) (isBusy : Bool)
    (lockData : Option String) : Option (Except StoreError Unit × HashScene) :=
  (s.find name).map fun (place, store) =>
    let (result, store) := store.setStatus instanceName isBusy lockData
    (result, s.set place store)

def shutDown (s : HashScene) (now : Int) (name : String) : HashScene :=
  match s.find name with
  | some (place, store) => s.set place (store.shutDown now)
  | none => s

/-- Drops a store. -/
def drop (s : HashScene) (now : Int) (name : String) : HashScene :=
  let s := s.shutDown now name
  { s with stores := s.stores.map fun e =>
      if e.name = name then { e with isDropped := true } else e }

/-- Writes a field directly a number of times, announced on the channel of the lock key or not
at all. The flag says whether every time succeeded. -/
def writeTimes (s : HashScene) (lockKey field value : String) (isAnnounced : Bool) :
    Nat → HashScene × Bool
  | 0 => (s, true)
  | times + 1 =>
    let channel := if isAnnounced then HashStore.channelName lockKey else ""
    let (s, ok) := s.write lockKey field value channel
    let (s, rest) := s.writeTimes lockKey field value isAnnounced times
    (s, ok && rest)

/-- Ends all streams. -/
def breakStreams (s : HashScene) : HashScene :=
  { s with stores := s.stores.map fun e => { e with store := e.store.breakStream } }

/-- All fields with their lock keys and values, in order. -/
def rows (s : HashScene) : List (String × String × String) :=
  let all := s.lockKeys.flatMap fun key =>
    (s.server.fields (HashStore.hashKey key)).map fun (field, value) => (key, field, value)
  all.mergeSort fun a b => a.1 < b.1 || (a.1 == b.1 && a.2.1 ≤ b.2.1)

end HashScene

end Floodgate
