import Floodgate.Proofs.StatusForms
import Floodgate.Proofs.Verdict
import Floodgate.Replication.Options
/-!
# Floodgate.Proofs.Replication.Deadline

**Which accepted plans give leases that can be used.** The wall clock is read in nanoseconds. A
lease deadline is the reading and the expiration period added up, and it is written in whole
milliseconds, rounded down (`deadlineAt`). Two things can go wrong with it. The calendar ends, and
beyond its end there is no deadline. And a lease of less than a millisecond may be written as the
millisecond that is running already, so that it has ended when it is written.

The checks of the options refuse neither. They hold the expiration period against what a count of
milliseconds can hold, which is far more than the calendar, and against the renewal period, which
may be as short as a nanosecond. So a plan gives usable leases at every reading up to the end of the
year 9999 exactly if its expiration period is at least a millisecond and leaves the calendar room
(`leases_usable_iff`).
-/

namespace Floodgate.ReplicationPlan

variable {plan : ReplicationPlan} {reading : Int}

/-- The first nanosecond that the calendar cannot name. -/
def calendarEnd : Int := 8210266876800000000000

/-- The last nanosecond of the year 9999. -/
def lastReading : Int := 253402300799999999999

/-- The end of a lease that starts at a reading of the clock in nanoseconds: in whole milliseconds,
if the calendar reaches it. -/
def deadlineAt (plan : ReplicationPlan) (reading : Int) : Option Timestamp :=
  Timestamp.ofMillis? ((reading + plan.expiration.nanos) / 1000000)

/-- On a clock that shows whole milliseconds it is the deadline that a delivery writes. -/
theorem deadlineAt_wholeMillis (plan : ReplicationPlan) (now : Int) :
    plan.deadlineAt (now * 1000000) = plan.leaseDeadline now := by
  have hmillis : (now * 1000000 + plan.expiration.nanos) / 1000000 =
      now + plan.expiration.wholeMillis := by
    unfold Duration.wholeMillis
    omega
  rw [deadlineAt, hmillis, leaseDeadline]

/-! ### The end of the calendar -/

/-- From the epoch on, there is no deadline exactly if the lease runs to the end of the calendar. -/
theorem deadlineAt_eq_none_iff (hepoch : 0 ≤ reading) :
    plan.deadlineAt reading = none ↔ calendarEnd ≤ reading + plan.expiration.nanos := by
  rw [deadlineAt, Timestamp.ofMillis?_eq_none_iff, calendarEnd]
  omega

theorem exists_deadlineAt_iff (hepoch : 0 ≤ reading) :
    (∃ deadline, plan.deadlineAt reading = some deadline) ↔
      reading + plan.expiration.nanos < calendarEnd := by
  rw [← Option.ne_none_iff_exists', ne_eq, deadlineAt_eq_none_iff hepoch, Int.not_le]

/-! ### The millisecond that is running -/

/-- A deadline as it is written is later than the reading exactly if the lease reaches the next
whole millisecond. -/
theorem lt_deadlineAt_iff {deadline : Timestamp} (h : plan.deadlineAt reading = some deadline) :
    reading < deadline.millis * 1000000 ↔
      1000000 ≤ reading % 1000000 + plan.expiration.nanos := by
  rw [Timestamp.ofMillis?_eq_some_iff.mp h]
  omega

/-- A lease that starts at the reading can be used: it has a deadline, which is later than the
reading as it is written. -/
def UsableAt (plan : ReplicationPlan) (reading : Int) : Prop :=
  ∃ deadline, plan.deadlineAt reading = some deadline ∧ reading < deadline.millis * 1000000

theorem usableAt_iff (hepoch : 0 ≤ reading) :
    plan.UsableAt reading ↔
      1000000 ≤ reading % 1000000 + plan.expiration.nanos ∧
      reading + plan.expiration.nanos < calendarEnd := by
  rw [← exists_deadlineAt_iff hepoch]
  constructor
  · rintro ⟨deadline, hdeadline, hlt⟩
    exact ⟨(lt_deadlineAt_iff hdeadline).mp hlt, deadline, hdeadline⟩
  · rintro ⟨hlong, deadline, hdeadline⟩
    exact ⟨deadline, hdeadline, (lt_deadlineAt_iff hdeadline).mpr hlong⟩

/-- The readings that ask most of a plan are the epoch, where the millisecond has only begun, and
the last reading, which is nearest to the end of the calendar. -/
theorem usableAt_all_iff :
    (∀ reading, 0 ≤ reading → reading ≤ lastReading → plan.UsableAt reading) ↔
      1000000 ≤ (plan.expiration.nanos : Int) ∧
      lastReading + plan.expiration.nanos < calendarEnd := by
  constructor
  · intro h
    have hfirst := (usableAt_iff (Int.le_refl 0)).mp (h 0 (Int.le_refl 0) (by decide))
    have hlast := (usableAt_iff (by decide)).mp (h lastReading (by decide) (Int.le_refl _))
    exact ⟨by omega, hlast.2⟩
  · rintro ⟨hlong, hroom⟩ reading hepoch hle
    exact (usableAt_iff hepoch).mpr ⟨by omega, by omega⟩

/-! ### The status that carries the lease -/

/-- A deadline is later than a reading exactly if a busy status with that lease counts as busy in
the millisecond of the reading. -/
theorem isBusyAt_iff_lt_deadline {status : Status} {deadline : Timestamp}
    (hbusy : status.isBusy = true) (hlease : status.validUntil = some deadline) :
    status.isBusyAt (reading / 1000000) = true ↔ reading < deadline.millis * 1000000 := by
  have hmillis : reading / 1000000 < deadline.millis ↔ reading < deadline.millis * 1000000 := by
    omega
  rw [Status.isBusyAt_iff, hlease, ← hmillis]
  exact ⟨fun h => h.2 deadline rfl, fun h => ⟨hbusy, fun _ hend => Option.some.inj hend ▸ h⟩⟩

/-- A hash field that says busy until the deadline counts as busy at the reading exactly if the
deadline is later. -/
theorem isBusyAt_decode_iff {deadline : Timestamp} (instanceId : String) {lockData : Option String}
    (hfree : ∀ text ∈ lockData, HashStore.delimiter ∉ text.toList) :
    (HashStore.decode instanceId
      (HashStore.encode true lockData (some deadline))).isBusyAt (reading / 1000000) = true ↔
        reading < deadline.millis * 1000000 := by
  rw [HashStore.decode_encode instanceId true (some deadline) hfree]
  exact isBusyAt_iff_lt_deadline rfl rfl

/-! ### Accepted options -/

/-- The expiration period of a plan is the one of the options, or ten seconds. -/
theorem expiration_of_validate {o : ReplicatorOptions} (h : o.validate = .ok plan) :
    plan.expiration = o.expirationPeriod.getD (.ofSecs 10) := by
  dsimp only [ReplicatorOptions.validate] at h
  split at h
  · split at h
    · split at h
      · split at h
        · cases h
          rfl
        · cases h
      · cases h
    · cases h
  · cases h

/-- **Accepted options give usable leases at every reading of the clock from the epoch to the end of
the year 9999 exactly if the expiration period is at least a millisecond and the calendar still
reaches the lease that starts at the last of these readings. At each single reading the deadline is
missing exactly if the lease runs to the end of the calendar. A deadline that is there is later than
the reading exactly if the lease reaches the next whole millisecond, and so does a busy status that
is written with it count as busy at the reading.** -/
theorem leases_usable_iff {o : ReplicatorOptions} (h : o.validate = .ok plan) :
    let nanos : Int := (o.expirationPeriod.getD (.ofSecs 10)).nanos
    ((∀ reading, 0 ≤ reading → reading ≤ lastReading → plan.UsableAt reading) ↔
      1000000 ≤ nanos ∧ lastReading + nanos < calendarEnd) ∧
    (∀ now, plan.deadlineAt (now * 1000000) = plan.leaseDeadline now) ∧
    ∀ reading, 0 ≤ reading →
      (plan.deadlineAt reading = none ↔ calendarEnd ≤ reading + nanos) ∧
      ∀ deadline, plan.deadlineAt reading = some deadline →
        (reading < deadline.millis * 1000000 ↔ 1000000 ≤ reading % 1000000 + nanos) ∧
        ∀ instanceId lockData, (∀ text ∈ lockData, HashStore.delimiter ∉ text.toList) →
          ((HashStore.decode instanceId
            (HashStore.encode true lockData (some deadline))).isBusyAt (reading / 1000000) = true ↔
              1000000 ≤ reading % 1000000 + nanos) := by
  intro nanos
  have hnanos : (plan.expiration.nanos : Int) = nanos := by
    rw [expiration_of_validate h]
  rw [← hnanos]
  refine ⟨usableAt_all_iff, deadlineAt_wholeMillis plan, fun reading hepoch =>
    ⟨deadlineAt_eq_none_iff hepoch, ?_⟩⟩
  intro deadline hdeadline
  refine ⟨lt_deadlineAt_iff hdeadline, fun instanceId lockData hfree => ?_⟩
  rw [isBusyAt_decode_iff instanceId hfree]
  exact lt_deadlineAt_iff hdeadline

/-- The options that nobody has set give usable leases at every reading. -/
theorem leases_usable_iff_of_defaults :
    ∃ plan, ReplicatorOptions.validate {} = .ok plan ∧
      (∀ reading, 0 ≤ reading → reading ≤ lastReading → plan.UsableAt reading) ∧
      ∀ text ∈ some "maintenance", HashStore.delimiter ∉ text.toList := by
  have haccepted : ReplicatorOptions.validate {} = .ok _ := rfl
  exact ⟨_, haccepted, (leases_usable_iff haccepted).1.mpr ⟨by decide, by decide⟩, by decide⟩

/-- Options with an expiration period beyond the calendar. -/
def endless : ReplicatorOptions where
  expirationPeriod := some (.ofMillis 10000000000000000)

/-- Options with an expiration period of half a millisecond. -/
def fleeting : ReplicatorOptions where
  renewalPeriod := some ⟨1000⟩
  expirationPeriod := some ⟨500000⟩

/-- Both are accepted. The first has no deadline for a lease, and the second one that is the very
millisecond in which it is written, so that the status with it is idle at once. -/
theorem unusable_leases_accepted :
    (∃ plan, endless.validate = .ok plan ∧ plan.deadlineAt 1700000000000000000 = none) ∧
    ∃ plan, fleeting.validate = .ok plan ∧
      ∃ deadline, plan.deadlineAt 1700000000000000000 = some deadline ∧
        deadline.millis * 1000000 = 1700000000000000000 ∧
        (HashStore.decode "a"
          (HashStore.encode true none (some deadline))).isBusyAt 1700000000000 = false := by
  have hidle : (HashStore.decode "a" (HashStore.encode true none
      (some ⟨1700000000000, by decide, by decide⟩))).isBusyAt (1700000000000000000 / 1000000) =
        false := by
    rw [← Bool.not_eq_true, isBusyAt_decode_iff "a" (by simp)]
    decide
  exact ⟨⟨_, rfl, by decide⟩, _, rfl, _, by decide, by decide, hidle⟩

end Floodgate.ReplicationPlan
