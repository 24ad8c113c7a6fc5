import Floodgate.LockData
import Floodgate.Status
/-!
# Floodgate.Wire

**Statuses as they travel between stores and status servers.** A message has no missing fields:
empty lock data stands for none, and a lease end of zero for no lease. A `Notification` is a
server's snapshot of one lock key, with one status for each instance.
-/

namespace Floodgate

/-- A status without its instance, as it travels. -/
structure WireStatus where
  isBusy : Bool
  lockData : String
  /-- The end of its lease in milliseconds, zero for no lease. -/
  validUntilMillis : Int
  deriving DecidableEq, Repr

/-- A report of one instance to a server. -/
structure StatusRequest where
  lockKey : String
  instanceId : String
  /-- What it reports. -/
  status : WireStatus
  deriving DecidableEq, Repr

/-- A snapshot of one lock key: the statuses by instance, each instance once. -/
structure Notification where
  lockKey : String
  instances : List (String × WireStatus)
  deriving DecidableEq, Repr

/-- Lock data as it is read off the wire: empty data is none. -/
def lockDataOfWire (data : String) : Option String := if data = "" then none else some data

/-- The status that a message says of an instance. -/
def WireStatus.toStatus (instanceId : String) (w : WireStatus) : Status where
  instanceId
  isBusy := w.isBusy
  lockData := lockDataOfWire w.lockData
  validUntil := Timestamp.ofWire w.validUntilMillis

/-- A status as it travels. -/
def Status.toWire (s : Status) : WireStatus where
  isBusy := s.isBusy
  lockData := s.lockData.getD ""
  validUntilMillis := Timestamp.toWire s.validUntil

/-- The statuses that a snapshot says. -/
def Notification.statuses (n : Notification) : List Status :=
  n.instances.map fun (id, status) => status.toStatus id

/-! ### What a server accepts -/

/-- Why a server refuses a report. -/
inductive RequestError where
  | emptyLockKey
  /-- The report names no instance. -/
  | emptyInstanceId
  /-- The lock data holds the separator of merged data. -/
  | separatorInLockData
  /-- The report names another lock key than the first one of its stream. -/
  | lockKeyDiffers
  deriving DecidableEq, Repr

/-- The wording of the error. -/
def RequestError.message : RequestError → String
  | emptyLockKey => "LockKey must not be empty"
  | emptyInstanceId => "InstanceId must not be empty"
  | separatorInLockData => "LockData contains the lock data separator"
  | lockKeyDiffers => "LockKey differs from the registered one"

/-- Checks a report: its lock key, its instance, and its lock data, in this order. -/
def StatusRequest.validate (r : StatusRequest) : Except RequestError Unit :=
  if r.lockKey = "" then .error .emptyLockKey
  else if r.instanceId = "" then .error .emptyInstanceId
  else if LockData.contains r.status.lockData LockData.separator then .error .separatorInLockData
  else .ok ()

end Floodgate
