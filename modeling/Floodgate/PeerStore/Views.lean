import Floodgate.Assoc
import Floodgate.Wire
/-!
# Floodgate.PeerStore.Views

**What the peers say, merged.** A view is the latest snapshot of one server: one status for each
instance. When servers disagree about an instance, the status with the latest lease wins, and a
status without a lease is later than every lease.
-/

namespace Floodgate

/-- The statuses that one server reports, by instance, each instance once. -/
abbrev View := List (String × Status)

/-- A view of some statuses; of two statuses of one instance the later in the list counts. -/
def View.ofStatuses (statuses : List Status) : View :=
  Assoc.ofList (statuses.map fun s => (s.instanceId, s))

/-- How late a lease ends: a status without one ranks above every timestamp. -/
def Status.leaseRank (s : Status) : Int :=
  match s.validUntil with
  | some t => t.millis
  | none => 9223372036854775807

/-- Takes a status into merged statuses: it replaces the one of its instance if its lease ends
later. -/
def mergeStatus (merged : View) (s : Status) : View :=
  match merged.lookup s.instanceId with
  | some existing =>
    if s.leaseRank ≤ existing.leaseRank then merged else Assoc.put s.instanceId s merged
  | none => Assoc.put s.instanceId s merged

def mergeViews (views : List View) : List Status :=
  ((views.flatten.map (·.2)).foldl mergeStatus []).map (·.2)

/-- Statuses in the order of their instances. -/
def byInstance (statuses : List Status) : List Status :=
  statuses.mergeSort fun a b => a.instanceId ≤ b.instanceId

end Floodgate
