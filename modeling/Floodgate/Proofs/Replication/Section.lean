import Floodgate.Proofs.Replication.Parts
/-!
# Floodgate.Proofs.Replication.Section

**Everything one section can do.** `Section r now event r' calls` lists the ways in which a
replicator `r` can go on to `r'` at an instant, each with the condition under which it is taken and
the calls that it starts. `section_of_step` inverts `step` into this list once; every invariant is
then a case analysis on it.

Only two of the ways start a call: a delivery that holds its lane and has not been cancelled
(`called`), and a renewal that holds its lane and finds an entry of its key (`renewed`).
-/

namespace Floodgate.Replicator

variable {α : Type}

/-- A delivery in another stage. -/
def inStage (stage : Delivery.Stage) (d : Delivery α) : Delivery α := { d with stage }

/-- A delivery that tries again after another failure. -/
def inBackoff (failures : Nat) (until_ : Int) (d : Delivery α) : Delivery α :=
  { d with failures, stage := .backoff until_ }

/-- A replicator after the call of a delivery has ended: the lane is free again. -/
def attemptOver (r : Replicator α) (g : Nat) : Replicator α :=
  { r.release (.delivery g) with inFlight := r.inFlight - 1 }

/-- A renewal whose call is in progress. -/
def renewing (n : Renewal) : Renewal := { n with calling := true }

/-- The ways in which one section can go. -/
inductive Section (r : Replicator α) (now : Int) :
    Event α → Replicator α → List (Call α) → Prop where
  /-- A write is registered. -/
  | registered (key : String) (action : α) :
      Section r now (.register key action) (r.register key action).1 []
  /-- A key is forgotten. -/
  | forgotten (key : String) : Section r now (.forget key) (r.forget key) []
  /-- What was given up is registered again. -/
  | flushed : Section r now .flush r.flushPending.1 []
  /-- A delivery notices that it has been cancelled. -/
  | ended {d : Delivery α} (hd : r.delivery? d.generation = some d)
      (hstage : d.stage ≠ .calling) (hcancelled : d.cancelled = true) :
      Section r now (.resume (.delivery d.generation)) (r.finish d.generation) []
  /-- A delivery gets in line for its lane. -/
  | queued {d : Delivery α} (hd : r.delivery? d.generation = some d) (hstage : d.stage = .ready)
      (hcancelled : d.cancelled = false) :
      Section r now (.resume (.delivery d.generation))
        ((r.updateDelivery d.generation (inStage .queued)).claim d.lane (.delivery d.generation)) []
  /-- The lease of a delivery would end beyond the calendar. -/
  | died {d : Delivery α} (hd : r.delivery? d.generation = some d) (hstage : d.stage = .queued)
      (hholds : r.holds d.lane (.delivery d.generation) = true) (hcancelled : d.cancelled = false)
      (hlease : r.leaseDeadline now = none) :
      Section r now (.resume (.delivery d.generation)) (r.perish d.generation) []
  /-- A delivery calls. -/
  | called {d : Delivery α} {lease : Timestamp} (hd : r.delivery? d.generation = some d)
      (hstage : d.stage = .queued) (hholds : r.holds d.lane (.delivery d.generation) = true)
      (hcancelled : d.cancelled = false) (hlease : r.leaseDeadline now = some lease) :
      Section r now (.resume (.delivery d.generation))
        { r.updateDelivery d.generation (inStage .calling) with inFlight := r.inFlight + 1 }
        [⟨.delivery d.generation, d.key, d.action, lease⟩]
  /-- A delivery has waited long enough, or has been cancelled while it waited. -/
  | woken {d : Delivery α} {until_ : Int} (hd : r.delivery? d.generation = some d)
      (hstage : d.stage = .backoff until_) (hdue : d.cancelled = true ∨ until_ ≤ now) :
      Section r now (.resume (.delivery d.generation))
        (r.updateDelivery d.generation (inStage .ready)) []
  /-- A renewal finds that its key has been forgotten. -/
  | renewalGone {n : Renewal} (hn : r.renewal? n.number = some n) (hcalling : n.calling = false)
      (hentry : r.entryFor? n.key = none) :
      Section r now (.resume (.renewal n.number)) (r.finishRenewal n.number) []
  /-- The lease of a renewal would end beyond the calendar. -/
  | renewalDied {n : Renewal} (hn : r.renewal? n.number = some n) (hcalling : n.calling = false)
      (hlease : r.leaseDeadline now = none) :
      Section r now (.resume (.renewal n.number)) r.stopRenewals []
  /-- A renewal calls the write that is the latest one of its key. -/
  | renewed {n : Renewal} {e : ReplicationEntry α} {lease : Timestamp}
      (hn : r.renewal? n.number = some n) (hcalling : n.calling = false)
      (hholds : r.holds n.lane (.renewal n.number) = true) (hentry : r.entryFor? n.key = some e)
      (hlease : r.leaseDeadline now = some lease) :
      Section r now (.resume (.renewal n.number))
        { r with renewals := r.renewals.map fun m =>
            if m.number = n.number then renewing m else m }
        [⟨.renewal n.number, n.key, e.current, lease⟩]
  /-- The call of a delivery succeeds. -/
  | delivered {d : Delivery α} (hd : r.delivery? d.generation = some d)
      (hstage : d.stage = .calling) :
      Section r now (.callEnded (.delivery d.generation) true)
        (((r.attemptOver d.generation).markDelivered d.key d.generation).finish d.generation) []
  /-- The call of a delivery fails, and it is to be tried again. -/
  | retried {d : Delivery α} {delay : Duration} (hd : r.delivery? d.generation = some d)
      (hstage : d.stage = .calling)
      (hdelay : r.plan.retry.delayAfter (d.failures + 1) = some delay) :
      Section r now (.callEnded (.delivery d.generation) false)
        ((r.attemptOver d.generation).updateDelivery d.generation
          (inBackoff (d.failures + 1) (now + delay.timerMillis))) []
  /-- The call of a delivery fails, and the retry policy gives up. -/
  | abandoned {d : Delivery α} (hd : r.delivery? d.generation = some d)
      (hstage : d.stage = .calling)
      (hdelay : r.plan.retry.delayAfter (d.failures + 1) = none) :
      Section r now (.callEnded (.delivery d.generation) false)
        (((r.attemptOver d.generation).markAbandoned d.key d.generation).finish d.generation) []
  /-- The call of a renewal ends. -/
  | renewalOver {n : Renewal} {ok : Bool} (hn : r.renewal? n.number = some n)
      (hcalling : n.calling = true) :
      Section r now (.callEnded (.renewal n.number) ok) (r.finishRenewal n.number) []
  /-- The renewal loop ticks. -/
  | renewalTicked {due : Int} (htick : r.renewalTick = some due) (hdue : due ≤ now)
      (hidle : r.isRenewing = false) :
      Section r now .renewalTick
        (renewAll { r with renewalTick := some (due + r.plan.renewal.timerMillis) }) []
  /-- The recovery loop ticks. -/
  | recoveryTicked {due : Int} (htick : r.recoveryTick = some due) (hdue : due ≤ now)
      (hidle : r.isRecovering = false) :
      Section r now .recoveryTick
        (recover { r with recoveryTick := some (due + r.plan.recovery.timerMillis) }) []
  /-- The replicator is shut down. -/
  | shutDown : Section r now .shutDown { r with
      isShutDown := true
      deliveries := r.deliveries.map fun d => { d with cancelled := true } } []
  /-- The renewal loop notices the shut-down. -/
  | renewalsStopped (hdown : r.isShutDown = true) :
      Section r now .stopRenewals r.stopRenewals []
  /-- The recovery loop notices the shut-down. -/
  | recoveryStopped (hdown : r.isShutDown = true) :
      Section r now .stopRecovery r.stopRecovery []

variable {r r' : Replicator α} {now : Int} {calls : List (Call α)}

theorem section_of_resumeDelivery {d : Delivery α} (hd : r.delivery? d.generation = some d)
    (h : r.resumeDelivery now d = some (r', calls)) :
    Section r now (.resume (.delivery d.generation)) r' calls := by
  unfold resumeDelivery at h
  cases hstage : d.stage with
  | ready =>
    simp only [hstage] at h
    cases hcancelled : d.cancelled with
    | true =>
      rw [hcancelled, if_pos rfl] at h
      cases h
      exact .ended hd (by simp [hstage]) hcancelled
    | false =>
      rw [hcancelled, if_neg (by simp)] at h
      cases h
      exact .queued hd hstage hcancelled
  | queued =>
    simp only [hstage] at h
    by_cases hholds : r.holds d.lane (.delivery d.generation) = true
    · rw [if_pos hholds] at h
      cases hcancelled : d.cancelled with
      | true =>
        rw [hcancelled, if_pos rfl] at h
        cases h
        exact .ended hd (by simp [hstage]) hcancelled
      | false =>
        rw [hcancelled, if_neg (by simp)] at h
        cases hlease : r.leaseDeadline now with
        | none =>
          simp only [hlease] at h
          cases h
          exact .died hd hstage hholds hcancelled hlease
        | some lease =>
          simp only [hlease] at h
          cases h
          exact .called hd hstage hholds hcancelled hlease
    · rw [if_neg hholds] at h
      cases h
  | calling =>
    simp only [hstage] at h
    cases h
  | backoff until_ =>
    simp only [hstage] at h
    split at h
    · rename_i hdue
      cases h
      exact .woken hd hstage (by simpa using hdue)
    · cases h

theorem section_of_resumeRenewal {n : Renewal} (hn : r.renewal? n.number = some n)
    (h : r.resumeRenewal now n = some (r', calls)) :
    Section r now (.resume (.renewal n.number)) r' calls := by
  unfold resumeRenewal at h
  cases hcalling : n.calling with
  | true =>
    rw [hcalling, if_pos rfl] at h
    cases h
  | false =>
    rw [hcalling, if_neg (by simp)] at h
    by_cases hholds : r.holds n.lane (.renewal n.number) = true
    · rw [if_pos hholds] at h
      cases hentry : r.entryFor? n.key with
      | none =>
        simp only [hentry] at h
        cases h
        exact .renewalGone hn hcalling hentry
      | some e =>
        simp only [hentry] at h
        cases hlease : r.leaseDeadline now with
        | none =>
          simp only [hlease] at h
          cases h
          exact .renewalDied hn hcalling hlease
        | some lease =>
          simp only [hlease] at h
          cases h
          exact .renewed hn hcalling hholds hentry hlease
    · rw [if_neg hholds] at h
      cases h

/-- The end of an attempt that has succeeded. -/
theorem endAttempt_true (d : Delivery α) : r.endAttempt now d true =
    ((r.attemptOver d.generation).markDelivered d.key d.generation).finish d.generation := rfl

/-- The end of an attempt that has failed and is to be repeated. -/
theorem endAttempt_retried {d : Delivery α} {delay : Duration}
    (hdelay : r.plan.retry.delayAfter (d.failures + 1) = some delay) :
    r.endAttempt now d false = (r.attemptOver d.generation).updateDelivery d.generation
      (inBackoff (d.failures + 1) (now + delay.timerMillis)) := by
  have h : (r.release (.delivery d.generation)).plan.retry.delayAfter (d.failures + 1) =
    some delay := hdelay
  simp only [endAttempt, Bool.false_eq_true, if_false, h]
  rfl

/-- The end of an attempt that has failed and with which the policy gives up. -/
theorem endAttempt_abandoned {d : Delivery α}
    (hdelay : r.plan.retry.delayAfter (d.failures + 1) = none) :
    r.endAttempt now d false =
      ((r.attemptOver d.generation).markAbandoned d.key d.generation).finish d.generation := by
  have h : (r.release (.delivery d.generation)).plan.retry.delayAfter (d.failures + 1) =
    none := hdelay
  simp only [endAttempt, Bool.false_eq_true, if_false, h]
  rfl

theorem section_of_endAttempt {d : Delivery α} {ok : Bool}
    (hd : r.delivery? d.generation = some d) (hstage : d.stage = .calling) :
    Section r now (.callEnded (.delivery d.generation) ok) (r.endAttempt now d ok) [] := by
  cases ok with
  | true =>
    rw [endAttempt_true]
    exact .delivered hd hstage
  | false =>
    cases hdelay : r.plan.retry.delayAfter (d.failures + 1) with
    | some delay =>
      rw [endAttempt_retried hdelay]
      exact .retried hd hstage hdelay
    | none =>
      rw [endAttempt_abandoned hdelay]
      exact .abandoned hd hstage hdelay

/-- Every step is one of the listed sections. -/
theorem section_of_step {event : Event α} (h : r.step now event = some (r', calls)) :
    Section r now event r' calls := by
  cases event with
  | register key action => cases h; exact .registered key action
  | forget key => cases h; exact .forgotten key
  | flush => cases h; exact .flushed
  | resume caller =>
    cases caller with
    | delivery g =>
      obtain ⟨d, hd, hresume⟩ := Option.bind_eq_some_iff.mp h
      obtain rfl := delivery?_generation hd
      exact section_of_resumeDelivery hd hresume
    | renewal i =>
      obtain ⟨n, hn, hresume⟩ := Option.bind_eq_some_iff.mp h
      obtain rfl := renewal?_number hn
      exact section_of_resumeRenewal hn hresume
  | callEnded caller ok =>
    cases caller with
    | delivery g =>
      cases hd : r.delivery? g with
      | none => simp [step, hd] at h
      | some d =>
        obtain rfl := delivery?_generation hd
        simp only [step, hd] at h
        split at h
        · rename_i hstage
          cases h
          exact section_of_endAttempt hd hstage
        · cases h
    | renewal i =>
      cases hn : r.renewal? i with
      | none => simp [step, hn] at h
      | some n =>
        obtain rfl := renewal?_number hn
        simp only [step, hn] at h
        split at h
        · rename_i hcalling
          cases h
          exact .renewalOver hn hcalling
        · cases h
  | renewalTick =>
    cases htick : r.renewalTick with
    | none => simp [step, htick] at h
    | some due =>
      simp only [step, htick] at h
      split at h
      · rename_i hdue
        simp only [Bool.and_eq_true, decide_eq_true_eq, Bool.not_eq_true'] at hdue
        cases h
        exact .renewalTicked htick hdue.1 hdue.2
      · cases h
  | recoveryTick =>
    cases htick : r.recoveryTick with
    | none => simp [step, htick] at h
    | some due =>
      simp only [step, htick] at h
      split at h
      · rename_i hdue
        simp only [Bool.and_eq_true, decide_eq_true_eq, Bool.not_eq_true'] at hdue
        cases h
        exact .recoveryTicked htick hdue.1 hdue.2
      · cases h
  | shutDown => cases h; exact .shutDown
  | stopRenewals =>
    simp only [step] at h
    split at h
    · rename_i hdown
      cases h
      exact .renewalsStopped (Bool.and_eq_true_iff.mp hdown).1
    · cases h
  | stopRecovery =>
    simp only [step] at h
    split at h
    · rename_i hdown
      cases h
      exact .recoveryStopped (Bool.and_eq_true_iff.mp hdown).1
    · cases h

/-! ### Ends of calls -/

/-- The end of the call of a delivery finds it calling. -/
theorem endAttempt_of_step {g : Nat} {ok : Bool}
    (h : r.step now (.callEnded (.delivery g) ok) = some (r', calls)) :
    ∃ d, r.delivery? g = some d ∧ d.stage = .calling ∧ r' = r.endAttempt now d ok := by
  cases hd : r.delivery? g with
  | none => simp [step, hd] at h
  | some d =>
    simp only [step, hd] at h
    split at h
    · rename_i hcalling
      cases h
      exact ⟨d, rfl, hcalling, rfl⟩
    · cases h

theorem finishRenewal_of_step {i : Nat} {ok : Bool}
    (h : r.step now (.callEnded (.renewal i) ok) = some (r', calls)) :
    ∃ n, r.renewal? i = some n ∧ n.calling = true ∧ r' = r.finishRenewal i := by
  cases hn : r.renewal? i with
  | none => simp [step, hn] at h
  | some n =>
    simp only [step, hn] at h
    split at h
    · rename_i hcalling
      cases h
      exact ⟨n, rfl, hcalling, rfl⟩
    · cases h

/-! ### Sections that are possible -/

theorem step_queued {d : Delivery α} (hd : r.delivery? d.generation = some d)
    (hready : d.stage = .ready) (hlive : d.cancelled = false) :
    r.step now (.resume (.delivery d.generation)) =
      some ((r.updateDelivery d.generation (inStage .queued)).claim d.lane
        (.delivery d.generation), []) := by
  simp only [step, hd, Option.bind_some, resumeDelivery, hready, hlive, Bool.false_eq_true,
    if_false]
  rfl

theorem step_called {d : Delivery α} {lease : Timestamp}
    (hd : r.delivery? d.generation = some d) (hqueued : d.stage = .queued)
    (hholds : r.holds d.lane (.delivery d.generation) = true) (hlive : d.cancelled = false)
    (hlease : r.leaseDeadline now = some lease) :
    r.step now (.resume (.delivery d.generation)) =
      some ({ r.updateDelivery d.generation (inStage .calling) with inFlight := r.inFlight + 1 },
        [⟨.delivery d.generation, d.key, d.action, lease⟩]) := by
  simp only [step, hd, Option.bind_some, resumeDelivery, hqueued, hholds, if_true, hlive,
    Bool.false_eq_true, if_false, hlease]
  rfl

theorem step_gone {d : Delivery α} (hd : r.delivery? d.generation = some d)
    (hready : d.stage = .ready) (hcancelled : d.cancelled = true) :
    r.step now (.resume (.delivery d.generation)) = some (r.finish d.generation, []) := by
  simp only [step, hd, Option.bind_some, resumeDelivery, hready, hcancelled, if_true]

theorem step_woken {d : Delivery α} {until_ : Int} (hd : r.delivery? d.generation = some d)
    (hstage : d.stage = .backoff until_) (hdue : d.cancelled = true ∨ until_ ≤ now) :
    r.step now (.resume (.delivery d.generation)) =
      some (r.updateDelivery d.generation (inStage .ready), []) := by
  have hguard : (d.cancelled || decide (until_ ≤ now)) = true := by simpa using hdue
  simp only [step, hd, Option.bind_some, resumeDelivery, hstage, hguard, if_true]
  rfl

theorem step_ended {d : Delivery α} (hd : r.delivery? d.generation = some d)
    (hqueued : d.stage = .queued) (hholds : r.holds d.lane (.delivery d.generation) = true)
    (hcancelled : d.cancelled = true) :
    r.step now (.resume (.delivery d.generation)) = some (r.finish d.generation, []) := by
  simp only [step, hd, Option.bind_some, resumeDelivery, hqueued, hholds, hcancelled, if_true]

theorem step_renewed {n : Renewal} {e : ReplicationEntry α} {lease : Timestamp}
    (hn : r.renewal? n.number = some n) (hidle : n.calling = false)
    (hholds : r.holds n.lane (.renewal n.number) = true) (hentry : r.entryFor? n.key = some e)
    (hlease : r.leaseDeadline now = some lease) :
    r.step now (.resume (.renewal n.number)) =
      some ({ r with renewals := r.renewals.map fun m =>
          if m.number = n.number then renewing m else m },
        [⟨.renewal n.number, n.key, e.current, lease⟩]) := by
  simp only [step, hn, Option.bind_some, resumeRenewal, hidle, Bool.false_eq_true, if_false,
    hholds, if_true, hentry, hlease]
  rfl

end Floodgate.Replicator
