import Floodgate.Simulation.Address
import Floodgate.Time.Timeline
/-!
# Floodgate.Simulation.PeerScene

**A store whose servers cannot be reached, on a simulated clock.** Every attempt to connect fails at
once, so whatever the store reports stays pending. The snapshots that no server sends are handed to
the store as requests.
-/

namespace Floodgate

/-- A store whose servers cannot be reached. -/
structure PeerScene where
  store : PeerStore
  /-- The instances that requests have named, in that order. -/
  instances : List String

namespace PeerScene

def start (store : PeerStore) : PeerScene := ⟨store, []⟩

/-- The first link that tries to connect fails. -/
def refuse (now : Int) (s : PeerStore) : Option PeerStore :=
  (s.links.find? (·.stage == .connecting)).map fun l => s.failLink now l.index

/-- One stretch of work of some task. The store has no handlers, so nothing is seen of it. -/
def work (now : Int) (s : PeerScene) : Option (PeerScene × List (String × Unit)) :=
  (s.store.work now <|> refuse now s.store).map fun store => ({ s with store }, [])

/-- The tasks of the store as a workload. -/
def workload : Workload PeerScene Unit where
  work := work
  wake s := earliestInstant s.store.timers

/-! ### Requests -/

def setStatus (s : PeerScene) (status : ReportedStatus) : Except StoreError Unit × PeerScene :=
  let (result, store) := s.store.setStatus status
  let name := status.instanceName
  let instances := if name ∈ s.instances then s.instances else s.instances ++ [name]
  (result, ⟨store, instances⟩)

/-- The replication keys of the instances named so far that have a report still to be delivered, in
order. -/
def pendingKeys (s : PeerScene) : List String :=
  let keys := s.store.links.flatMap fun l => s.instances.map (PeerStore.replicationKey l.index)
  (keys.filter s.store.replicator.isPending).mergeSort fun a b => a ≤ b

end PeerScene

end Floodgate
