import Floodgate.Time.Timestamp
/-!
# Floodgate.Status

**What one instance reports of itself.** A busy status may carry a lease: once the lease has
ended, the status no longer counts as busy, so an instance that crashed while busy cannot hold
its peers back for ever.
-/

namespace Floodgate

/-- The status of one instance of a lock key. -/
structure Status where
  /-- The instance that reports. -/
  instanceId : String
  /-- Whether it reports itself busy. -/
  isBusy : Bool
  /-- Why it is busy. -/
  lockData : Option String
  /-- The end of its lease; without one the status holds for ever. -/
  validUntil : Option Timestamp
  deriving DecidableEq, Repr

namespace Status

/-- Whether the lease is still running: it ends at its last millisecond. -/
def leaseRunsAt (s : Status) (now : Int) : Bool :=
  match s.validUntil with
  | none => true
  | some t => now < t.millis

def isBusyAt (s : Status) (now : Int) : Bool := s.isBusy && s.leaseRunsAt now

end Status

end Floodgate
