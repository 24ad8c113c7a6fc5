import Floodgate.StoreError
import Floodgate.Gate.Handler
import Floodgate.Text.Blank
import Floodgate.Text.Decimal
/-!
# Floodgate.Counter

**Many producers, one busy/idle edge.** A usage counter counts the units of work in progress on one
instance. Only two of its changes are edges that a store hears of: the one that lifts the count to
the busy threshold, and the one that brings it back to zero. In between nothing is reported, which
gives the lock its hysteresis.

Counting and reporting are two steps (`raise` and `lower` give the edge, `report` takes it to the
store), because concurrent callers may interleave between them.
-/

namespace Floodgate

/-- Why a usage counter could not be made. -/
inductive CounterError where
  | invalidBusyThreshold (threshold : UInt64)
  | emptyInstanceName
  deriving DecidableEq, Repr

/-- The wording of the error. -/
def CounterError.message : CounterError → String
  | invalidBusyThreshold threshold =>
    "busy threshold must be at least 1, got " ++ Text.natText threshold.toNat
  | emptyInstanceName => "instance name must not be empty"

/-- A change of status that a store hears of. -/
inductive StatusEdge where
  | busy (lockData : Option String)
  /-- The instance has become idle. -/
  | idle
  deriving DecidableEq, Repr

/-- Whether the edge reports the instance busy. -/
def StatusEdge.isBusy : StatusEdge → Bool
  | busy _ => true
  | idle => false

def StatusEdge.lockData : StatusEdge → Option String
  | busy data => data
  | idle => none

/-- Where a counter reports to: `setStatus` takes an instance name and an edge to a store in some
state. -/
structure StatusStore (σ : Type) where
  /-- Reports an edge of an instance. -/
  setStatus : σ → (instanceName : String) → StatusEdge → Except StoreError Unit × σ

/-- A usage counter. -/
structure UsageCounter where
  /-- The instance it counts for. -/
  instanceName : String
  /-- The count at which the instance becomes busy. -/
  threshold : UInt64
  /-- The units of work in progress. -/
  count : UInt64
  deriving DecidableEq, Repr

namespace UsageCounter

/-- A counter at zero. A zero threshold is refused before a blank name. -/
def create (instanceName : String) (threshold : UInt64) : Except CounterError UsageCounter :=
  if threshold < 1 then .error (.invalidBusyThreshold threshold)
  else if Text.isBlankName instanceName then .error .emptyInstanceName
  else .ok ⟨instanceName, threshold, 0⟩

/-- Counts one more unit. It is an edge if the count is now at the threshold. -/
def raise (c : UsageCounter) (data : Option String) : UsageCounter × Option StatusEdge :=
  let count := c.count + 1
  ({ c with count }, if count = c.threshold then some (.busy data) else none)

/-- Counts some units less, stopping at zero. It is an edge if the count was above zero and is
now zero. -/
def lower (c : UsageCounter) (amount : UInt64) : UsageCounter × Option StatusEdge :=
  let count := if amount ≤ c.count then c.count - amount else 0
  ({ c with count }, if 0 < c.count ∧ count = 0 then some .idle else none)

/-- Takes an edge, if there is one, to a store. -/
def report {σ : Type} (store : StatusStore σ) (instanceName : String) (s : σ) :
    Option StatusEdge → Except StoreError Unit × σ
  | some edge => store.setStatus s instanceName edge
  | none => (.ok (), s)

/-- Counts one more unit and reports the edge. A failing store leaves the count as it is. -/
def increment {σ : Type} (store : StatusStore σ) (c : UsageCounter) (s : σ)
    (data : Option String) : Except StoreError Unit × UsageCounter × σ :=
  let (raised, edge) := c.raise data
  let (result, s) := report store c.instanceName s edge
  (result, raised, s)

/-- Counts some units less and reports the edge. A failing store leaves the count as it is. -/
def decrement {σ : Type} (store : StatusStore σ) (c : UsageCounter) (s : σ)
    (amount : UInt64) : Except StoreError Unit × UsageCounter × σ :=
  let (lowered, edge) := c.lower amount
  let (result, s) := report store c.instanceName s edge
  (result, lowered, s)

end UsageCounter

/-- The store of a lock that lives in one process only: an edge flips the gate directly and never
fails. -/
def localStore : StatusStore Gatehouse where
  setStatus house _ edge :=
    match edge with
    | .busy data => (.ok (), (house.block data).1)
    | .idle => (.ok (), house.unblock.1)

end Floodgate
