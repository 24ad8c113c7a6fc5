import Floodgate.PeerStore.Basic
import Floodgate.Proofs.HashStore.Field
/-!
# Floodgate.Proofs.StatusForms

**A status has two written forms, and both are read as the same status.** One is the value of a hash
field, the other is the report that a store sends to the status servers. They say in different ways
that something is missing: an empty part of the field, and an empty text or a zero in the report.
Both readers take empty lock data for none.

The one status they disagree about is a status whose lease ends at the epoch: its field says `0`,
which is a moment long past, and its report says zero, which is no lease at all. So the hash reads
it as expired, and the servers as one that holds for ever (`read_alike_iff`).
-/

namespace Floodgate

/-! ### Lease ends on the wire -/

theorem Timestamp.ofMillis?_eq_none_iff {m : Int} :
    ofMillis? m = none ↔ ¬ (-8334601228800000 ≤ m ∧ m ≤ 8210266876799999) := by
  unfold ofMillis?
  split
  · next hrange => simp [hrange]
  · next hrange => simp [hrange]

/-- A count of milliseconds that is read off the wire and written again is unchanged if the calendar
reaches it, and is zero otherwise. -/
theorem Timestamp.toWire_ofWire (m : Int) :
    toWire (ofWire m) =
      if -8334601228800000 ≤ m ∧ m ≤ 8210266876799999 then m else 0 := by
  by_cases hzero : m = 0
  · subst hzero
    rfl
  rw [ofWire, if_neg hzero]
  cases hread : ofMillis? m with
  | none => rw [if_neg (ofMillis?_eq_none_iff.mp hread), toWire_none]
  | some t =>
    obtain rfl := ofMillis?_eq_some_iff.mp hread
    rw [if_pos ⟨t.min_le, t.le_max⟩, toWire_some]

/-- A lease end that is written on the wire is read back, but for the epoch, which is none. -/
theorem Timestamp.ofWire_toWire_eq_filter (validUntil : Option Timestamp) :
    ofWire (toWire validUntil) = validUntil.filter (·.millis ≠ 0) := by
  cases validUntil with
  | none => rfl
  | some t =>
    rw [toWire_some, Option.filter_some]
    by_cases hzero : t.millis = 0
    · simp [ofWire, hzero]
    · simp [ofWire, hzero]

/-! ### Reports -/

theorem lockDataOfWire_getD (lockData : Option String) :
    lockDataOfWire (lockData.getD "") = lockData.filter (· ≠ "") := by
  cases lockData with
  | none => rfl
  | some text =>
    rw [Option.filter_some]
    by_cases htext : text = "" <;> simp [lockDataOfWire, htext]

/-- A status that has travelled is read with empty data as none and a lease that ends at the epoch
as none. -/
theorem Status.toStatus_toWire (status : Status) :
    status.toWire.toStatus status.instanceId =
      { status with
        lockData := status.lockData.filter (· ≠ "")
        validUntil := status.validUntil.filter (·.millis ≠ 0) } := by
  rw [WireStatus.toStatus, toWire, lockDataOfWire_getD, Timestamp.ofWire_toWire_eq_filter]

/-- What a server and its subscribers read from a report. -/
def StatusRequest.toStatus (r : StatusRequest) : Status := r.status.toStatus r.instanceId

theorem PeerStore.toStatus_request (s : PeerStore) (instanceId : String) (isBusy : Bool)
    (lockData : Option String) (validUntil : Option Timestamp) :
    (s.request ⟨instanceId, isBusy, lockData⟩ validUntil).toStatus =
      ⟨instanceId, isBusy, lockData.filter (· ≠ ""), validUntil.filter (·.millis ≠ 0)⟩ :=
  Status.toStatus_toWire ⟨instanceId, isBusy, lockData, validUntil⟩

/-! ### Both forms -/

theorem filter_epoch_eq_self_iff {validUntil : Option Timestamp} :
    validUntil = validUntil.filter (·.millis ≠ 0) ↔ validUntil.map (·.millis) ≠ some 0 := by
  cases validUntil with
  | none => simp
  | some t =>
    rw [Option.filter_some]
    by_cases hzero : t.millis = 0 <;> simp [hzero]

/-- **A status whose lock data does not hold the delimiter of hash fields is read alike from its
field and from its report exactly if its lease does not end at the epoch. If it does, then the
reading of the field has expired from the epoch on, and the reading of the report, which differs in
nothing but the lease, never expires. Lease ends that are read off the wire are written as they were
read if the calendar reaches them, and as no lease otherwise.** -/
theorem read_alike_iff (s : PeerStore) (instanceId : String) (isBusy : Bool)
    (lockData : Option String) (validUntil : Option Timestamp)
    (hfree : ∀ text ∈ lockData, HashStore.delimiter ∉ text.toList) :
    let ofField := HashStore.decode instanceId (HashStore.encode isBusy lockData validUntil)
    let ofReport := (s.request ⟨instanceId, isBusy, lockData⟩ validUntil).toStatus
    (ofField = ofReport ↔ validUntil.map (·.millis) ≠ some 0) ∧
    (validUntil.map (·.millis) = some 0 →
      (∀ now, ofField.leaseRunsAt now = decide (now < 0)) ∧
      (∀ now, ofReport.leaseRunsAt now = true) ∧
      ofReport = { ofField with validUntil := none }) ∧
    ∀ m : Int, Timestamp.toWire (Timestamp.ofWire m) =
      if -8334601228800000 ≤ m ∧ m ≤ 8210266876799999 then m else 0 := by
  intro ofField ofReport
  have hfield : ofField = ⟨instanceId, isBusy, lockData.filter (· ≠ ""), validUntil⟩ :=
    HashStore.decode_encode instanceId isBusy validUntil hfree
  have hreport : ofReport =
      ⟨instanceId, isBusy, lockData.filter (· ≠ ""), validUntil.filter (·.millis ≠ 0)⟩ :=
    s.toStatus_request instanceId isBusy lockData validUntil
  refine ⟨?_, fun hepoch => ?_, Timestamp.toWire_ofWire⟩
  · rw [hfield, hreport, Status.mk.injEq]
    simp only [true_and]
    exact filter_epoch_eq_self_iff
  · obtain ⟨t, rfl, hzero⟩ := Option.map_eq_some_iff.mp hepoch
    have hnone : (some t).filter (·.millis ≠ 0) = none := by simp [hzero]
    rw [hnone] at hreport
    rw [hfield, hreport]
    exact ⟨fun now => by simp [Status.leaseRunsAt, hzero], fun _ => rfl, rfl⟩

/-- A busy status whose lease ends at the epoch is long idle to whoever reads its field, and busy
for ever to whoever reads its report. -/
theorem read_alike_iff_at_epoch :
    ∃ s, PeerStore.startWith (fun _ => true) "a" "lock" ["peer:1"] {} 1000 (.fresh {}) 0 = .ok s ∧
      (∀ text ∈ some "load: 9", HashStore.delimiter ∉ text.toList) ∧
      (Timestamp.ofMillis? 0).map (·.millis) = some 0 ∧
      let ofField :=
        HashStore.decode "b" (HashStore.encode true (some "load: 9") (Timestamp.ofMillis? 0))
      let ofReport := (s.request ⟨"b", true, some "load: 9"⟩ (Timestamp.ofMillis? 0)).toStatus
      ofField ≠ ofReport ∧ ofField.isBusyAt 0 = false ∧ ofReport.isBusyAt 0 = true := by
  have hfree : ∀ text ∈ some "load: 9", HashStore.delimiter ∉ text.toList := by decide
  have hepoch : (Timestamp.ofMillis? 0).map (·.millis) = some 0 := rfl
  refine ⟨_, rfl, hfree, hepoch, ?_⟩
  obtain ⟨halike, hapart, -⟩ := read_alike_iff _ "b" true _ _ hfree
  obtain ⟨hexpired, hheld, -⟩ := hapart hepoch
  refine ⟨fun hsame => halike.mp hsame hepoch, ?_, ?_⟩
  · rw [Status.isBusyAt, hexpired, Bool.and_eq_false_iff]
    exact .inr (decide_eq_false (Int.lt_irrefl 0))
  · rw [Status.isBusyAt, hheld, PeerStore.toStatus_request]
    rfl

end Floodgate
