import Floodgate.Proofs.Replication.Clock
/-!
# Floodgate.Proofs.Replication.Asking

**What the retry policy is asked.** The policy is a function, and no step of a replicator can be
seen to call it. What can be seen is on which of its answers a run depends: a section depends on the
policy only if it ends an attempt that has failed, and then on one answer only, the one for the
number of failures of the delivery (`step_withRetry`). So these numbers are what a deed asks
(`asks`), and a run under one policy is a run under every other one that answers alike what was
asked in it (`Run.withRetry`).
-/

namespace Floodgate.Replicator

variable {α : Type} {r r' : Replicator α} {now : Int} {event : Event α} {calls : List (Call α)}

/-- The same with another retry policy. -/
def withRetry (r : Replicator α) (retry : RetryPolicy) : Replicator α :=
  { r with plan := { r.plan with retry } }

/-- The same for what a step may give. -/
def stepWithRetry (retry : RetryPolicy) (x : Replicator α × List (Call α)) :
    Replicator α × List (Call α) :=
  (x.1.withRetry retry, x.2)

section

variable (retry : RetryPolicy)

/-! ### Sections under another policy -/

@[simp] theorem withRetry_entryFor? (key : String) :
    (r.withRetry retry).entryFor? key = r.entryFor? key := rfl

@[simp] theorem withRetry_delivery? (g : Nat) :
    (r.withRetry retry).delivery? g = r.delivery? g := rfl

@[simp] theorem withRetry_renewal? (i : Nat) :
    (r.withRetry retry).renewal? i = r.renewal? i := rfl

@[simp] theorem withRetry_holds (lane : Nat) (caller : Caller) :
    (r.withRetry retry).holds lane caller = r.holds lane caller := rfl

@[simp] theorem withRetry_leaseDeadline :
    (r.withRetry retry).leaseDeadline now = r.leaseDeadline now := rfl

@[simp] theorem withRetry_inFlight : (r.withRetry retry).inFlight = r.inFlight := rfl

@[simp] theorem withRetry_renewalTick : (r.withRetry retry).renewalTick = r.renewalTick := rfl

@[simp] theorem withRetry_recoveryTick : (r.withRetry retry).recoveryTick = r.recoveryTick := rfl

@[simp] theorem withRetry_isRenewing : (r.withRetry retry).isRenewing = r.isRenewing := rfl

@[simp] theorem withRetry_isRecovering :
    (r.withRetry retry).isRecovering = r.isRecovering := rfl

theorem register_withRetry (key : String) (action : α) :
    (r.withRetry retry).register key action =
      ((r.register key action).1.withRetry retry, (r.register key action).2) := by
  unfold register withEntry
  rw [withRetry_entryFor?]
  cases r.entryFor? key with
  | none => rfl
  | some entry =>
    obtain ⟨_, _, _, pending⟩ := entry
    cases pending <;> rfl

theorem forget_withRetry (key : String) :
    (r.withRetry retry).forget key = (r.forget key).withRetry retry := by
  unfold forget
  rw [withRetry_entryFor?]
  cases r.entryFor? key with
  | none => rfl
  | some entry =>
    obtain ⟨_, _, _, pending⟩ := entry
    cases pending <;> rfl

theorem reregisterAll_withRetry (given : List (String × Nat)) :
    (r.withRetry retry).reregisterAll given =
      ((r.reregisterAll given).1.withRetry retry, (r.reregisterAll given).2) := by
  induction given generalizing r with
  | nil => rfl
  | cons x rest ih =>
    obtain ⟨key, g⟩ := x
    have hwrite : (r.withRetry retry).abandonedWrite? key g = r.abandonedWrite? key g := rfl
    unfold reregisterAll reregister
    rw [hwrite]
    cases r.abandonedWrite? key g with
    | none => simp only [ih]
    | some action => simp only [register_withRetry, ih]

theorem flush_withRetry :
    (r.withRetry retry).flush = (r.flush.1.withRetry retry, r.flush.2) :=
  reregisterAll_withRetry retry r.abandoned

theorem renewAll_withRetry : (r.withRetry retry).renewAll = r.renewAll.withRetry retry := by
  have hentries : ∀ (entries : List (ReplicationEntry α)) (r : Replicator α),
      entries.foldl renew (r.withRetry retry) = (entries.foldl renew r).withRetry retry := by
    intro entries
    induction entries with
    | nil => intro r; rfl
    | cons entry rest ih => intro r; exact ih (r.renew entry)
  unfold renewAll
  rw [withRetry_inFlight]
  split
  · exact hentries r.entries r
  · rfl

theorem recover_withRetry : (r.withRetry retry).recover = r.recover.withRetry retry := by
  unfold recover
  rw [withRetry_inFlight]
  split
  · rw [flush_withRetry]
    rfl
  · rfl

theorem perish_withRetry (g : Nat) :
    (r.withRetry retry).perish g = (r.perish g).withRetry retry := by
  unfold perish
  rw [show (r.withRetry retry).recovering = r.recovering from rfl]
  split <;> rfl

theorem resumeDelivery_withRetry (d : Delivery α) :
    (r.withRetry retry).resumeDelivery now d =
      (r.resumeDelivery now d).map (stepWithRetry retry) := by
  unfold resumeDelivery
  cases d.stage with
  | ready => cases d.cancelled <;> rfl
  | queued =>
    rw [withRetry_holds, withRetry_leaseDeadline, perish_withRetry]
    cases r.holds d.lane (.delivery d.generation) <;> cases d.cancelled <;>
      cases r.leaseDeadline now <;> rfl
  | calling => rfl
  | backoff until_ =>
    dsimp only
    by_cases hdue : (d.cancelled || until_ ≤ now) = true
    · rw [if_pos hdue, if_pos hdue]
      rfl
    · rw [if_neg hdue, if_neg hdue]
      rfl

theorem resumeRenewal_withRetry (n : Renewal) :
    (r.withRetry retry).resumeRenewal now n =
      (r.resumeRenewal now n).map (stepWithRetry retry) := by
  unfold resumeRenewal
  rw [withRetry_holds, withRetry_leaseDeadline, withRetry_entryFor?]
  cases n.calling <;> cases r.holds n.lane (.renewal n.number) <;> cases r.entryFor? n.key <;>
    cases r.leaseDeadline now <;> rfl

variable {retry}

/-- The end of an attempt that has failed goes by one answer of the policy. -/
theorem endAttempt_withRetry {d : Delivery α} {ok : Bool}
    (hagree : ok = false →
      retry.delayAfter (d.failures + 1) = r.plan.retry.delayAfter (d.failures + 1)) :
    (r.withRetry retry).endAttempt now d ok = (r.endAttempt now d ok).withRetry retry := by
  cases ok with
  | true => rfl
  | false =>
    cases hdelay : r.plan.retry.delayAfter (d.failures + 1) with
    | some delay =>
      rw [endAttempt_retried hdelay, endAttempt_retried ((hagree rfl).trans hdelay)]
      rfl
    | none =>
      rw [endAttempt_abandoned hdelay, endAttempt_abandoned ((hagree rfl).trans hdelay)]
      rfl

/-- A section goes by one answer of the policy if it is the end of an attempt that has failed, and
does not depend on the policy otherwise. -/
theorem step_withRetry
    (hagree : ∀ g d, event = .callEnded (.delivery g) false → r.delivery? g = some d →
      retry.delayAfter (d.failures + 1) = r.plan.retry.delayAfter (d.failures + 1)) :
    (r.withRetry retry).step now event = (r.step now event).map (stepWithRetry retry) := by
  cases event with
  | register key action =>
    simp only [step, register_withRetry]
    rfl
  | forget key =>
    simp only [step, forget_withRetry]
    rfl
  | flush =>
    simp only [step, flushPending, flush_withRetry]
    rfl
  | resume caller =>
    cases caller with
    | delivery g =>
      simp only [step, withRetry_delivery?]
      cases r.delivery? g with
      | none => rfl
      | some d => exact resumeDelivery_withRetry retry d
    | renewal i =>
      simp only [step, withRetry_renewal?]
      cases r.renewal? i with
      | none => rfl
      | some n => exact resumeRenewal_withRetry retry n
  | callEnded caller ok =>
    cases caller with
    | delivery g =>
      simp only [step, withRetry_delivery?]
      cases hd : r.delivery? g with
      | none => rfl
      | some d =>
        have hend : (r.withRetry retry).endAttempt now d ok =
            (r.endAttempt now d ok).withRetry retry :=
          endAttempt_withRetry fun hok => hagree g d (by rw [hok]) hd
        simp only [hend]
        split <;> rfl
    | renewal i =>
      simp only [step, withRetry_renewal?]
      cases r.renewal? i with
      | none => rfl
      | some n => cases hcalling : n.calling <;> simp only [hcalling] <;> rfl
  | renewalTick =>
    simp only [step, withRetry_renewalTick, withRetry_isRenewing]
    cases r.renewalTick with
    | none => rfl
    | some due =>
      have hall := renewAll_withRetry retry
        (r := { r with renewalTick := some (due + r.plan.renewal.timerMillis) })
      cases hdue : due ≤ now && !r.isRenewing with
      | true =>
        simp only [hdue, if_true]
        exact congrArg (fun r' => some (r', [])) hall
      | false =>
        simp only [hdue, Bool.false_eq_true, if_false]
        rfl
  | recoveryTick =>
    simp only [step, withRetry_recoveryTick, withRetry_isRecovering]
    cases r.recoveryTick with
    | none => rfl
    | some due =>
      have hall := recover_withRetry retry
        (r := { r with recoveryTick := some (due + r.plan.recovery.timerMillis) })
      cases hdue : due ≤ now && !r.isRecovering with
      | true =>
        simp only [hdue, if_true]
        exact congrArg (fun r' => some (r', [])) hall
      | false =>
        simp only [hdue, Bool.false_eq_true, if_false]
        rfl
  | shutDown => rfl
  | stopRenewals =>
    simp only [step]
    rw [apply_ite (Option.map (stepWithRetry retry))]
    rfl
  | stopRecovery =>
    simp only [step]
    rw [apply_ite (Option.map (stepWithRetry retry))]
    rfl

/-- What goes on by itself does not depend on the policy. -/
theorem work_withRetry : (r.withRetry retry).work now = (r.work now).map (stepWithRetry retry) := by
  have hsteps : ∀ events : List (Event α), (∀ event ∈ events, ∀ caller ok,
      event ≠ .callEnded caller ok) →
      events.findSome? ((r.withRetry retry).step now) =
        (events.findSome? (r.step now)).map (stepWithRetry retry) := by
    intro events hevents
    induction events with
    | nil => rfl
    | cons event rest ih =>
      obtain ⟨hevent, hrest⟩ := List.forall_mem_cons.mp hevents
      have hstep : (r.withRetry retry).step now event =
          (r.step now event).map (stepWithRetry retry) :=
        step_withRetry fun g d hend => absurd hend (hevent _ _)
      rw [List.findSome?_cons, List.findSome?_cons, hstep, ih hrest]
      cases r.step now event <;> rfl
  refine hsteps r.candidates fun event hevent caller ok hend => ?_
  rw [hend] at hevent
  simp [candidates] at hevent

end

namespace Clocked

variable {plan : ReplicationPlan} {since : Int} {conduct : Conduct α}
  {past : List (Clocked α × Deed α)} {s s' : Clocked α} {deed : Deed α}

/-! ### Questions -/

/-- The end of a call in a deed: where it ends, whose call it is, and how it ends. -/
def ending (conduct : Conduct α) (s : Clocked α) : Deed α → Option (Replicator α × Caller × Bool)
  | .wait _ => none
  | .go event =>
    match s.replicator.step s.now event with
    | some (r', c :: _) =>
      match s.manner conduct c with
      | .atOnce ok => some (r', c.caller, ok)
      | .lasting _ _ | .hanging => none
    | _ => none
  | .finish caller =>
    (s.notes.find? fun n => n.caller = caller && n.isDue s.now).bind fun n =>
      n.record.ends.map fun (_, ok) => (s.replicator, caller, ok)

/-- The number of failures with which a deed asks the retry policy on behalf of a delivery. It asks
if an attempt of the delivery fails. -/
def asks (conduct : Conduct α) (g : Nat) (x : Clocked α × Deed α) : Option Nat :=
  match x.1.ending conduct x.2 with
  | some (r, caller, ok) =>
    if caller = .delivery g ∧ ok = false then (r.delivery? g).map (·.failures + 1) else none
  | none => none

/-- What the retry policy has been asked on behalf of a delivery, in turn. -/
def asked (conduct : Conduct α) (g : Nat) (past : List (Clocked α × Deed α)) : List Nat :=
  past.reverse.filterMap (asks conduct g)

theorem asked_cons (conduct : Conduct α) (g : Nat) (x : Clocked α × Deed α) :
    asked conduct g (x :: past) = asked conduct g past ++ (asks conduct g x).toList := by
  rw [asked, List.reverse_cons, List.filterMap_append, asked]
  cases hasks : asks conduct g x <;> simp [hasks]

theorem asks_of_ne {caller : Caller} {ok : Bool} {g : Nat} (hother : caller ≠ .delivery g)
    (hending : s.ending conduct deed = some (r, caller, ok)) :
    asks conduct g (s, deed) = none := by
  simp [asks, hending, hother]

/-- The same with another retry policy. -/
def withRetry (s : Clocked α) (retry : RetryPolicy) : Clocked α :=
  { s with replicator := s.replicator.withRetry retry }

variable {retry : RetryPolicy}

/-- Policies that answer alike what a deed asks let the call that ends in it end alike. -/
theorem callEnded_withRetry (now : Int) {caller : Caller} {ok : Bool}
    (hending : s.ending conduct deed = some (r, caller, ok))
    (hplan : r.plan = s.replicator.plan)
    (hagree : ∀ g, ∀ n ∈ asks conduct g (s, deed),
      retry.delayAfter n = s.replicator.plan.retry.delayAfter n) :
    (r.withRetry retry).step now (.callEnded caller ok) =
      (r.step now (.callEnded caller ok)).map (stepWithRetry retry) := by
  refine step_withRetry fun g d hend hd => ?_
  cases hend
  rw [hplan]
  exact hagree g _ (by simp [asks, hending, hd])

/-- A deed goes by the answers of the policy to what it asks. -/
theorem act_withRetry (hagree : ∀ g, ∀ n ∈ asks conduct g (s, deed),
      retry.delayAfter n = s.replicator.plan.retry.delayAfter n) :
    (s.withRetry retry).act conduct deed = (s.act conduct deed).map (·.withRetry retry) := by
  cases deed with
  | wait later =>
    have hmay : (s.withRetry retry).mayWait later = s.mayWait later := by
      have hwork : (s.replicator.withRetry retry).work s.now =
          (s.replicator.work s.now).map (stepWithRetry retry) := work_withRetry
      have hsettled : (s.withRetry retry).isSettled = s.isSettled := by
        show (((s.replicator.withRetry retry).work s.now).isNone && _) = _
        rw [hwork, Option.isNone_map]
        rfl
      show ((s.withRetry retry).isSettled && _ && _) = _
      rw [hsettled]
      rfl
    simp only [act, hmay]
    split <;> rfl
  | go event =>
    simp only [act]
    split
    · rfl
    · rename_i hend
      have hstep : (s.withRetry retry).replicator.step s.now event =
          (s.replicator.step s.now event).map (stepWithRetry retry) :=
        step_withRetry fun g d heq => absurd (by rw [heq]; rfl) hend
      rw [show (s.withRetry retry).now = s.now from rfl, hstep]
      cases hgo : s.replicator.step s.now event with
      | none => rfl
      | some x =>
        obtain ⟨r', calls⟩ := x
        cases calls with
        | nil => rfl
        | cons c rest =>
          show (s.withRetry retry).take conduct (r'.withRetry retry) (c :: rest) =
            (s.take conduct r' (c :: rest)).map (·.withRetry retry)
          simp only [take, show (s.withRetry retry).manner conduct c = s.manner conduct c from rfl]
          cases hmanner : s.manner conduct c with
          | atOnce ok =>
            have hending : s.ending conduct (.go event) = some (r', c.caller, ok) := by
              simp [ending, hgo, hmanner]
            have hover := callEnded_withRetry s.now hending
              (frame_of_section (section_of_step hgo)).1 hagree
            simp only [show (s.withRetry retry).now = s.now from rfl, hover, Option.map_map]
            rfl
          | lasting _ _ => rfl
          | hanging => rfl
  | finish caller =>
    simp only [act, show (s.withRetry retry).notes = s.notes from rfl,
      show (s.withRetry retry).now = s.now from rfl]
    cases hfind : s.notes.find? fun n => n.caller = caller && n.isDue s.now with
    | none => rfl
    | some n =>
      cases hends : n.record.ends with
      | none => simp [hends]
      | some how =>
        have hending : s.ending conduct (.finish caller) =
            some (s.replicator, caller, how.2) := by
          simp [ending, hfind, hends]
        have hover := callEnded_withRetry s.now hending rfl hagree
        simp only [hends, Option.bind_some, withRetry, hover, Option.map_map]
        rfl

/-- **A run depends on no other answers of the retry policy than those to what was asked in it.**
Under another policy that answers these alike, the same is done with the same outcome. -/
theorem Run.withRetry (h : Run plan since conduct past s)
    (hagree : ∀ x ∈ past, ∀ g, ∀ n ∈ asks conduct g x,
      retry.delayAfter n = plan.retry.delayAfter n) :
    Run { plan with retry } since conduct (past.map fun x => (x.1.withRetry retry, x.2))
      (s.withRetry retry) := by
  induction h with
  | start => exact .start
  | @next past s s' deed hpast hact ih =>
    obtain ⟨hdeed, hrest⟩ := List.forall_mem_cons.mp hagree
    have hplan : s.replicator.plan = plan := by
      obtain ⟨_, hrun, -⟩ := hpast.history
      exact hrun.plan_eq
    refine .next (ih hrest) ?_
    rw [act_withRetry (hplan ▸ hdeed), hact]
    rfl

end Clocked

end Floodgate.Replicator
