import Mathlib.Logic.Function.Iterate
import Floodgate.Proofs.Verdict
/-!
# Floodgate.Proofs.Expiry

**A verdict holds until it expires.** Of the statuses that are busy at an instant those with a lease
drop out one after the other, and nothing else changes a verdict on a fixed list. So the verdict is
the same at every instant before the earliest of these leases ends (`ofStatuses_eq_of_outlasts`),
which is its expiry, and at that instant at least one status is no longer busy. A store may
therefore sleep from one expiry to the next; each look finds fewer leased statuses than the one
before it (`leased_lt_of_nextExpiry`), so there are no more looks than there are leases.
-/

namespace Floodgate.Verdict

variable {statuses : List Status} {now later : Int} {expiry : Timestamp}

/-! ### Until the first lease ends -/

/-- Every lease of a status that is busy at an instant is still running at a later one. -/
def Outlasts (statuses : List Status) (now later : Int) : Prop :=
  ∀ x ∈ statuses, x.isBusyAt now = true → ∀ end_, x.validUntil = some end_ → later < end_.millis

/-- As long as no lease of a busy status ends, the same statuses are busy. -/
theorem live_eq_of_outlasts (hle : now ≤ later) (h : Outlasts statuses now later) :
    statuses.filter (·.isBusyAt later) = statuses.filter (·.isBusyAt now) := by
  refine List.filter_congr fun x hx => Bool.eq_iff_iff.mpr ⟨?_, ?_⟩
  · intro hlater
    exact Status.isBusyAt_of_le hlater hle
  · intro hnow
    exact Status.isBusyAt_iff.mpr ⟨(Status.isBusyAt_iff.mp hnow).1, h x hx hnow⟩

/-- So the verdict is the same: whether all are idle, the merged lock data and the expiry. -/
theorem ofStatuses_eq_of_outlasts (hle : now ≤ later) (h : Outlasts statuses now later) :
    ofStatuses statuses later = ofStatuses statuses now := by
  unfold ofStatuses
  rw [live_eq_of_outlasts hle h]

/-- A verdict that does not expire has no leased status to wait for. -/
theorem outlasts_of_nextExpiry_none (h : (ofStatuses statuses now).nextExpiry = none)
    (later : Int) : Outlasts statuses now later := by
  intro x hx hbusy end_ hend
  obtain ⟨expiry, hexpiry, -⟩ := nextExpiry_le hx hbusy hend
  rw [h] at hexpiry
  cases hexpiry

/-- Before a verdict expires no lease of a busy status has ended. -/
theorem outlasts_of_lt_nextExpiry (h : (ofStatuses statuses now).nextExpiry = some expiry)
    (hlt : later < expiry.millis) : Outlasts statuses now later := by
  intro x hx hbusy end_ hend
  obtain ⟨first, hfirst, hle⟩ := nextExpiry_le hx hbusy hend
  obtain rfl : expiry = first := Option.some.inj (h.symm.trans hfirst)
  exact Int.lt_of_lt_of_le hlt hle

/-! ### When the first lease ends -/

/-- The statuses that are busy at an instant and have a lease. -/
def leased (statuses : List Status) (now : Int) : List Status :=
  statuses.filter fun x => x.isBusyAt now && x.validUntil.isSome

/-- A verdict expires with the lease of a status that is busy. -/
theorem exists_leased_of_nextExpiry (h : (ofStatuses statuses now).nextExpiry = some expiry) :
    ∃ x ∈ leased statuses now, x.validUntil = some expiry := by
  unfold ofStatuses at h
  split at h
  · cases h
  · obtain ⟨x, hx, hvalid⟩ := List.mem_filterMap.mp (earliest_mem h)
    obtain ⟨hmem, hbusy⟩ := List.mem_filter.mp hx
    refine ⟨x, List.mem_filter.mpr ⟨hmem, ?_⟩, hvalid⟩
    rw [hbusy, hvalid]
    rfl

/-- A lease that ends at an instant has ended then. -/
theorem not_isBusyAt_end {x : Status} (hend : x.validUntil = some expiry) :
    x.isBusyAt expiry.millis = false := by
  refine Bool.eq_false_iff.mpr fun hbusy => ?_
  exact Int.lt_irrefl _ ((Status.isBusyAt_iff.mp hbusy).2 expiry hend)

/-- Those that are leased later are among those that are leased now. -/
theorem leased_of_le (hle : now ≤ later) :
    leased statuses later = (leased statuses now).filter (·.isBusyAt later) := by
  unfold leased
  rw [List.filter_filter]
  refine List.filter_congr fun x _ => ?_
  cases hlater : x.isBusyAt later with
  | false => rfl
  | true => rw [Status.isBusyAt_of_le hlater hle, Bool.true_and, Bool.true_and]

/-- When a verdict expires there is at least one leased status less. -/
theorem leased_lt_of_nextExpiry (h : (ofStatuses statuses now).nextExpiry = some expiry) :
    (leased statuses expiry.millis).length < (leased statuses now).length := by
  obtain ⟨x, hx, hend⟩ := exists_leased_of_nextExpiry h
  rw [leased_of_le (Int.le_of_lt (lt_nextExpiry h))]
  refine List.length_filter_lt_length_iff_exists.mpr ⟨x, hx, ?_⟩
  rw [not_isBusyAt_end hend]
  exact Bool.false_ne_true

/-! ### Looking again whenever a verdict expires -/

/-- When whoever has judged the statuses at an instant looks again: when the verdict expires. A
verdict that does not expire is not looked at again. -/
def nextLook (statuses : List Status) (now : Int) : Int :=
  match (ofStatuses statuses now).nextExpiry with
  | some expiry => expiry.millis
  | none => now

theorem nextLook_of_nextExpiry (h : (ofStatuses statuses now).nextExpiry = some expiry) :
    nextLook statuses now = expiry.millis := by
  rw [nextLook, h]

/-- There are no more looks than leased statuses. -/
theorem exists_looks (statuses : List Status) (now : Int) :
    ∃ looks ≤ (leased statuses now).length,
      (ofStatuses statuses ((nextLook statuses)^[looks] now)).nextExpiry = none := by
  -- by induction on the number of leased statuses, which every look lowers
  induction hcount : (leased statuses now).length using Nat.strongRecOn generalizing now with
  | _ count ih =>
    cases hexpiry : (ofStatuses statuses now).nextExpiry with
    | none => exact ⟨0, Nat.zero_le _, hexpiry⟩
    | some expiry =>
      have hlt := leased_lt_of_nextExpiry hexpiry
      obtain ⟨looks, hle, hlast⟩ := ih _ (hcount ▸ hlt) expiry.millis rfl
      refine ⟨looks + 1, by omega, ?_⟩
      rw [Function.iterate_succ_apply, nextLook_of_nextExpiry hexpiry]
      exact hlast

/-- Once all are idle they stay so. -/
theorem isAllIdle_of_le (hle : now ≤ later) (h : (ofStatuses statuses now).isAllIdle = true) :
    (ofStatuses statuses later).isAllIdle = true := by
  refine Bool.not_eq_false _ ▸ fun hbusy => ?_
  obtain ⟨x, hx, hlater⟩ := isAllIdle_ofStatuses.mp hbusy
  have hnow := isAllIdle_ofStatuses.mpr ⟨x, hx, Status.isBusyAt_of_le hlater hle⟩
  rw [h] at hnow
  cases hnow

/-- **The expiry of a verdict is exactly when it may change.** A verdict that does not expire holds
for ever. One that does expires after its instant and holds, in all it says, at every instant before
its expiry; at its expiry a status that was busy is no longer. So once all are idle they stay so,
and whoever looks again at each expiry has come to a verdict that does not expire after no more
looks than there were leased statuses. -/
theorem holds_until_expiry (statuses : List Status) (now : Int) :
    ((ofStatuses statuses now).nextExpiry = none →
      ∀ later, now ≤ later → ofStatuses statuses later = ofStatuses statuses now) ∧
    (∀ expiry, (ofStatuses statuses now).nextExpiry = some expiry →
      now < expiry.millis ∧
      (∀ later, now ≤ later → later < expiry.millis →
        ofStatuses statuses later = ofStatuses statuses now) ∧
      ∃ x ∈ statuses, x.isBusyAt now = true ∧ x.isBusyAt expiry.millis = false) ∧
    (∀ earlier later, earlier ≤ later → (ofStatuses statuses earlier).isAllIdle = true →
      (ofStatuses statuses later).isAllIdle = true) ∧
    ∃ looks ≤ (leased statuses now).length,
      (ofStatuses statuses ((nextLook statuses)^[looks] now)).nextExpiry = none := by
  refine ⟨fun hnone later hle => ?_, fun expiry hexpiry => ⟨lt_nextExpiry hexpiry, ?_, ?_⟩,
    fun _ _ => isAllIdle_of_le, exists_looks statuses now⟩
  · exact ofStatuses_eq_of_outlasts hle (outlasts_of_nextExpiry_none hnone later)
  · intro later hle hlt
    exact ofStatuses_eq_of_outlasts hle (outlasts_of_lt_nextExpiry hexpiry hlt)
  · obtain ⟨x, hx, hend⟩ := exists_leased_of_nextExpiry hexpiry
    obtain ⟨hmem, hleased⟩ := List.mem_filter.mp hx
    exact ⟨x, hmem, (Bool.and_eq_true_iff.mp hleased).1, not_isBusyAt_end hend⟩

/-- Two leases that end at 10 and at 20, one that has ended, and an instance that is idle. -/
def twoLeases : List Status :=
  [⟨"late", true, some "a", Timestamp.ofMillis? 20⟩, ⟨"idle", false, some "b", none⟩,
    ⟨"soon", true, some "c", Timestamp.ofMillis? 10⟩, ⟨"past", true, none, Timestamp.ofMillis? 3⟩]

/-- Their verdict at 3 still holds at 9, and all are idle after two looks. -/
theorem holds_until_expiry_of_two_leases :
    ∃ expiry, (ofStatuses twoLeases 3).nextExpiry = some expiry ∧ expiry.millis = 10 ∧
      ofStatuses twoLeases 9 = ofStatuses twoLeases 3 ∧
      (ofStatuses twoLeases ((nextLook twoLeases)^[2] 3)).isAllIdle = true ∧
      ∃ looks ≤ 2, (ofStatuses twoLeases ((nextLook twoLeases)^[looks] 3)).nextExpiry = none := by
  obtain ⟨-, hexpires, -, hlooks⟩ := holds_until_expiry twoLeases 3
  have hexpiry : (ofStatuses twoLeases 3).nextExpiry = some ⟨10, by decide, by decide⟩ := by decide
  exact ⟨_, hexpiry, rfl, (hexpires _ hexpiry).2.1 9 (by decide) (by decide), by decide, hlooks⟩

end Floodgate.Verdict
