import Floodgate.Cluster
import Floodgate.Simulation.Address
import Floodgate.Time.Timeline
/-!
# Floodgate.Simulation.ClusterScene

**A cluster with names, on a simulated clock.** Servers and stores are called by names. Every name
of a server stands for an address of its own, whether a server is listening there or not. A store
that has been dropped is shut down and takes no more requests, but its gate can still be seen.
-/

namespace Floodgate

/-- A store of a scene. -/
structure ClusterSceneStore where
  /-- What to call it. -/
  name : String
  place : Nat
  isDropped : Bool

/-- A cluster with names. -/
structure ClusterScene where
  cluster : Cluster
  serverNames : List String
  /-- The stores, in the order in which they were started. -/
  stores : List ClusterSceneStore

namespace ClusterScene

/-- A scene without stores and running servers. -/
def start (network : Network) (serverNames : List String) : ClusterScene :=
  ⟨.empty network, serverNames, []⟩

def address (s : ClusterScene) (name : String) : String :=
  "http://server-" ++ Text.natText (s.serverNames.idxOf name)

def serverName (s : ClusterScene) (address : String) : String :=
  (s.serverNames.find? (s.address · == address)).getD ""

/-- One stretch of work of some task. The stores have no handlers, so nothing is seen of it. -/
def work (now : Int) (s : ClusterScene) : Option (ClusterScene × List (String × Unit)) :=
  (s.cluster.work now).map fun cluster => ({ s with cluster }, [])

def workload : Workload ClusterScene Unit where
  work := work
  wake s := earliestInstant s.cluster.timers

/-! ### Requests -/

/-- Starts a server. An address that is taken keeps the server that listens there. -/
def startServer (s : ClusterScene) (now : Int) (name : String) (plan : PrunePlan) : ClusterScene :=
  match s.cluster.listener? (s.address name) with
  | some _ => s
  | none => { s with cluster := s.cluster.addServer (s.address name) plan now }

/-- Stops a server. The answer says whether no stream was open, if the server was running. -/
def stopServer (s : ClusterScene) (name : String) : Option Bool × ClusterScene :=
  match s.cluster.stop (s.address name) with
  | some (isIdle, cluster) => (some isIdle, { s with cluster })
  | none => (none, s)

/-- The place of a store that has not been dropped. -/
def find (s : ClusterScene) (name : String) : Option Nat :=
  s.stores.findSome? fun e => if e.name = name && !e.isDropped then some e.place else none

def shutDown (s : ClusterScene) (now : Int) (name : String) : ClusterScene :=
  match s.find name with
  | some place => { s with cluster := s.cluster.shutDown now place }
  | none => s

/-- Drops a store. -/
def drop (s : ClusterScene) (now : Int) (name : String) : ClusterScene :=
  let s := s.shutDown now name
  { s with stores := s.stores.map fun e =>
      if e.name = name then { e with isDropped := true } else e }

/-- Starts a store. A store of the same name is dropped. -/
def startStore (s : ClusterScene) (now : Int) (name instanceName lockKey : String)
    (servers : List String) (options : ReplicatorOptions) (reconnectMillis : Nat) :
    Except PeerStoreError Unit × ClusterScene :=
  match PeerStore.start instanceName lockKey (servers.map s.address) options reconnectMillis
      (.fresh {}) now with
  | .error e => (.error e, s)
  | .ok store =>
    let s := s.drop now name
    let (cluster, place) := s.cluster.addStore store
    let stores := s.stores.filter (·.name ≠ name) ++ [⟨name, place, false⟩]
    (.ok (), { s with cluster, stores })

/-- Sets a status through a store. -/
def setStatus (s : ClusterScene) (name : String) (status : ReportedStatus) :
    Option (Except StoreError Unit × ClusterScene) := do
  let place ← s.find name
  let (result, cluster) ← s.cluster.setStatus place status
  pure (result, { s with cluster })

/-- Removes a server from a store. The flag says whether the store had it. -/
def removePeer (s : ClusterScene) (now : Int) (name server : String) :
    Option (Bool × ClusterScene) := do
  let place ← s.find name
  let (known, cluster) ← s.cluster.removePeer now place (s.address server)
  pure (known, { s with cluster })

/-! ### Looking -/

/-- The running servers with their tables. -/
def tables (s : ClusterScene) : List (String × StatusTable) :=
  (s.cluster.servers.filter (·.isListening)).map fun e => (s.serverName e.address, e.server.table)

def storesByName (s : ClusterScene) : List (String × PeerStore × Bool) :=
  s.stores.filterMap fun e =>
    (s.cluster.stores[e.place]?).map fun store => (e.name, store, e.isDropped)

def peerNames (s : ClusterScene) (store : PeerStore) : List String :=
  (store.peerUrls.map s.serverName).mergeSort fun a b => a ≤ b

end ClusterScene

end Floodgate
