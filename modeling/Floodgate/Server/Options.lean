import Floodgate.Replication.Options
/-!
# Floodgate.Server.Options

**How often a status server prunes, and what.** Every prune period the server drops the statuses
whose lease ended longer ago than the retention.
-/

namespace Floodgate

/-- The options of a server; what is left out takes its default. -/
structure ServerOptions where
  /-- How often expired statuses are pruned; ten seconds by default. -/
  prunePeriod : Option Duration := none
  /-- How long a status is kept after the end of its lease; one minute by default. -/
  expiredRetention : Option Duration := none
  deriving DecidableEq, Repr

/-- Why options were refused. -/
inductive ServerOptionsError where
  | zeroPrunePeriod
  /-- The retention is longer than 64 signed bits of milliseconds. -/
  | retentionOutOfRange
  deriving DecidableEq, Repr

/-- The wording of the error. -/
def ServerOptionsError.message : ServerOptionsError → String
  | zeroPrunePeriod => "Prune period must be greater than zero"
  | retentionOutOfRange => "Expired retention is out of range"

/-- Options that have passed the checks. -/
structure PrunePlan where
  /-- How often expired statuses are pruned. -/
  period : Duration
  /-- How long a status is kept after the end of its lease. -/
  retention : Duration
  /-- Pruning happens from time to time, not all the time. -/
  period_pos : 0 < period.nanos
  /-- The retention is not too long to be counted. -/
  retention_le : retention.nanos ≤ Duration.maxSpan.nanos

/-- Checks options: the prune period first, then the retention. -/
def ServerOptions.validate (o : ServerOptions) : Except ServerOptionsError PrunePlan :=
  let period := o.prunePeriod.getD (.ofSecs 10)
  let retention := o.expiredRetention.getD (.ofSecs 60)
  if hperiod : 0 < period.nanos then
    if hspan : retention.nanos ≤ Duration.maxSpan.nanos then
      .ok ⟨period, retention, hperiod, hspan⟩
    else
      .error .retentionOutOfRange
  else
    .error .zeroPrunePeriod

/-- The lease end before which statuses are dropped when pruning now: the retention ago. It is
missing when it lies before the calendar. -/
def PrunePlan.cutoff (plan : PrunePlan) (now : Int) : Option Timestamp :=
  -- leases end on whole milliseconds, so a part of one in the retention makes no difference
  Timestamp.ofMillis? (now - plan.retention.wholeMillis)

end Floodgate
