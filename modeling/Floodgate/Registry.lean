import Floodgate.Counter
/-!
# Floodgate.Registry

**Lock keys, each with its gate and its counter.** A key is registered once and keeps its lock for
ever; registering it again is refused and changes nothing. A key may be registered as an alias with
the lock of another key, and then the two share one gate and one counter: names point into a list
of locks, which only grows.
-/

namespace Floodgate

/-- Why a registry refused. -/
inductive RegistryError where
  | alreadyRegistered (lockKey : String)
  | notFound (lockKey : String)
  /-- The counter of the lock could not be made. -/
  | controller (cause : CounterError)
  deriving DecidableEq, Repr

namespace RegistryError

/-- The wording of the error. -/
def message : RegistryError → String
  | alreadyRegistered key => "lock '" ++ key ++ "' is already registered"
  | notFound key => "lock '" ++ key ++ "' is not registered"
  | controller _ => "cannot create controller"

/-- The error behind this one. -/
def cause : RegistryError → Option CounterError
  | controller cause => some cause
  | _ => none

end RegistryError

/-- A gate with its counter. -/
structure LocalLock where
  /-- The gate and its handlers. -/
  house : Gatehouse
  counter : UsageCounter
  deriving DecidableEq, Repr

/-- A registry of locks. -/
structure Registry where
  /-- The locks, in the order in which they were made. -/
  locks : List LocalLock
  /-- The keys, each with the place of its lock in the list. -/
  names : List (String × Nat)
  deriving DecidableEq, Repr

namespace Registry

/-- A registry without locks. -/
def empty : Registry := ⟨[], []⟩

/-- The place of a key's lock. -/
def find (r : Registry) (key : String) : Except RegistryError Nat :=
  match r.names.lookup key with
  | some place => .ok place
  | none => .error (.notFound key)

def lock (r : Registry) (key : String) : Except RegistryError LocalLock := do
  let place ← r.find key
  match r.locks[place]? with
  | some lock => .ok lock
  | none => .error (.notFound key)

/-- Names the lock at a place. -/
def register (r : Registry) (key : String) (place : Nat) : Except RegistryError Registry :=
  if (r.names.lookup key).isSome then .error (.alreadyRegistered key)
  else .ok { r with names := r.names ++ [(key, place)] }

/-- Makes a lock that lives in this process only, and names it. A counter that cannot be made is
reported before a key that is taken. -/
def registerLocal (r : Registry) (key instanceName : String) (threshold : UInt64)
    (handlers : Handlers) : Except RegistryError Registry := do
  let counter ← (UsageCounter.create instanceName threshold).mapError .controller
  let lock := ⟨.fresh handlers, counter⟩
  register { r with locks := r.locks ++ [lock] } key r.locks.length

/-- Names the lock of another key. -/
def registerAlias (r : Registry) (key of : String) : Except RegistryError Registry := do
  let place ← r.find of
  r.register key place

/-- Changes the lock of a key, with an answer. -/
def modify {α : Type} (r : Registry) (key : String) (f : LocalLock → α × LocalLock) :
    Except RegistryError (α × Registry) := do
  let place ← r.find key
  match r.locks[place]? with
  | none => .error (.notFound key)
  | some lock =>
    let (answer, lock) := f lock
    .ok (answer, { r with locks := r.locks.set place lock })

end Registry

namespace LocalLock

/-- Counts one more unit of work. -/
def increment (l : LocalLock) (data : Option String) : Except StoreError Unit × LocalLock :=
  let (result, counter, house) := l.counter.increment localStore l.house data
  (result, ⟨house, counter⟩)

/-- Counts some units of work less. -/
def decrement (l : LocalLock) (amount : UInt64) : Except StoreError Unit × LocalLock :=
  let (result, counter, house) := l.counter.decrement localStore l.house amount
  (result, ⟨house, counter⟩)

/-- Blocks the gate directly. -/
def block (l : LocalLock) (data : Option String) : Bool × LocalLock :=
  let (house, flipped) := l.house.block data
  (flipped, { l with house })

/-- Opens the gate directly. -/
def unblock (l : LocalLock) : Bool × LocalLock :=
  let (house, flipped) := l.house.unblock
  (flipped, { l with house })

end LocalLock

end Floodgate
