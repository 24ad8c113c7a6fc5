import Floodgate.Registry
import Floodgate.Simulation.GateScene
/-!
# Floodgate.Simulation.RegistryScene

**A registry with the handler runs of its gates, on a simulated clock.** Each flip of a registered
gate starts handlers; they are carried out lock by lock, and a journal names them by the key under
which their lock was made.
-/

namespace Floodgate

/-- A registry with the keys under which its locks were made, by the places of the locks. -/
structure RegistryScene where
  registry : Registry
  /-- The key of each lock's making. -/
  makers : List String

namespace RegistryScene

/-- The scene of a registry without locks. -/
def empty : RegistryScene := ⟨.empty, []⟩

/-- Makes a lock. -/
def registerLocal (s : RegistryScene) (key instanceName : String) (threshold : UInt64)
    (handlers : Handlers) : Except RegistryError RegistryScene :=
  (s.registry.registerLocal key instanceName threshold handlers).map fun registry =>
    ⟨registry, s.makers ++ [key]⟩

/-- Names the lock of another key. -/
def registerAlias (s : RegistryScene) (key of : String) : Except RegistryError RegistryScene :=
  (s.registry.registerAlias key of).map fun registry => { s with registry }

/-- Changes the lock of a key, with an answer. -/
def modify {α : Type} (s : RegistryScene) (key : String) (f : LocalLock → α × LocalLock) :
    Except RegistryError (α × RegistryScene) :=
  (s.registry.modify key f).map fun (answer, registry) => (answer, { s with registry })

/-- Carries out the oldest handler run of the first lock that has one. -/
def firstRun : List (LocalLock × String) →
    Option (List LocalLock × List (String × GateNote))
  | [] => none
  | (lock, maker) :: rest =>
    match lock.house.runNext with
    | some (house, run, notes) =>
      let seen := notes.map fun n => (maker ++ "/" ++ run.label, GateNote.handler run.handler n)
      some ({ lock with house } :: rest.map (·.1), seen)
    | none => (firstRun rest).map fun (locks, seen) => (lock :: locks, seen)

/-- The handler runs of all gates as a workload. -/
def workload : Workload RegistryScene GateNote where
  work _ s :=
    (firstRun (s.registry.locks.zip s.makers)).map fun (locks, seen) =>
      ({ s with registry := { s.registry with locks } }, seen)
  wake _ := none

def locksByKey (s : RegistryScene) : List (String × LocalLock) :=
  let named := s.registry.names.filterMap fun (key, place) =>
    (s.registry.locks[place]?).map fun lock => (key, lock)
  named.mergeSort fun a b => a.1 ≤ b.1

end RegistryScene

end Floodgate
