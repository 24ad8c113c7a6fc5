import Floodgate.Replication.Retry
import Floodgate.Time.Timestamp
/-!
# Floodgate.Replication.Options

**The periods of a replicator, checked before it starts.** A lease runs for the expiration period
and is renewed every renewal period, which must be the shorter one; writes that ran out of retries
are taken up again every recovery period. A `ReplicationPlan` is what has passed the checks, with
the proof that it has.

A lease deadline is the end of the expiration period, in whole milliseconds rounded down. It is
missing when it lies beyond the calendar, which a very long expiration period can bring about.
-/

namespace Floodgate

/-- The options of a replicator; what is left out takes its default. -/
structure ReplicatorOptions where
  /-- How often leases are renewed; five seconds by default. -/
  renewalPeriod : Option Duration := none
  /-- How long a lease runs; ten seconds by default. -/
  expirationPeriod : Option Duration := none
  /-- How often undelivered writes are taken up again; fifteen seconds by default. -/
  recoverPeriod : Option Duration := none
  /-- When failed attempts are repeated; every second for ever by default. -/
  retryPolicy : Option RetryPolicy := none

/-- Why options were refused. -/
inductive ReplicatorOptionsError where
  /-- A period is zero; the text says which. -/
  | zeroPeriod (period : String)
  /-- The renewal period is not shorter than the expiration period. -/
  | renewalNotBeforeExpiration (renewal expiration : Duration)
  /-- The expiration period is longer than 64 signed bits of milliseconds. -/
  | expirationOutOfRange (expiration : Duration)
  deriving DecidableEq, Repr

/-- The wording of the error. -/
def ReplicatorOptionsError.message : ReplicatorOptionsError → String
  | zeroPeriod period => period ++ " period must be greater than zero"
  | renewalNotBeforeExpiration renewal expiration =>
    "renewal period " ++ renewal.render ++ " must be less than expiration period " ++
      expiration.render
  | expirationOutOfRange expiration =>
    "expiration period " ++ expiration.render ++ " is out of range"

/-- The longest expiration period: 64 signed bits of milliseconds. -/
def Duration.maxSpan : Duration := .ofMillis 9223372036854775807

/-- Options that have passed the checks. -/
structure ReplicationPlan where
  /-- How often leases are renewed. -/
  renewal : Duration
  /-- How long a lease runs. -/
  expiration : Duration
  /-- How often undelivered writes are taken up again. -/
  recovery : Duration
  /-- When failed attempts are repeated. -/
  retry : RetryPolicy
  /-- Renewal happens from time to time, not all the time. -/
  renewal_pos : 0 < renewal.nanos
  /-- Recovery happens from time to time, not all the time. -/
  recovery_pos : 0 < recovery.nanos
  /-- A lease is renewed before it ends. -/
  renewal_lt : renewal.nanos < expiration.nanos
  /-- The expiration period is not too long to be counted. -/
  expiration_le : expiration.nanos ≤ Duration.maxSpan.nanos

namespace ReplicatorOptions

/-- Checks options: first that the expiration period can be counted, then that the renewal and the
recovery period are not zero, and last that a lease is renewed before it ends. -/
def validate (o : ReplicatorOptions) : Except ReplicatorOptionsError ReplicationPlan :=
  let renewal := o.renewalPeriod.getD (.ofSecs 5)
  let expiration := o.expirationPeriod.getD (.ofSecs 10)
  let recovery := o.recoverPeriod.getD (.ofSecs 15)
  if hspan : expiration.nanos ≤ Duration.maxSpan.nanos then
    if hrenewal : 0 < renewal.nanos then
      if hrecovery : 0 < recovery.nanos then
        if hlt : renewal.nanos < expiration.nanos then
          .ok ⟨renewal, expiration, recovery, o.retryPolicy.getD .standard,
            hrenewal, hrecovery, hlt, hspan⟩
        else
          .error (.renewalNotBeforeExpiration renewal expiration)
      else
        .error (.zeroPeriod "recover")
    else
      .error (.zeroPeriod "renewal")
  else
    .error (.expirationOutOfRange expiration)

end ReplicatorOptions

namespace ReplicationPlan

/-- The end of a lease that starts now, in whole milliseconds, if the calendar reaches it. -/
def leaseDeadline (plan : ReplicationPlan) (now : Int) : Option Timestamp :=
  Timestamp.ofMillis? (now + plan.expiration.wholeMillis)

/-- A lease deadline lies the whole milliseconds of the expiration period ahead. -/
theorem millis_of_leaseDeadline {plan : ReplicationPlan} {now : Int} {t : Timestamp}
    (h : plan.leaseDeadline now = some t) : t.millis = now + plan.expiration.wholeMillis :=
  Timestamp.ofMillis?_eq_some_iff.mp h

end ReplicationPlan

end Floodgate
