import Floodgate.Proofs.Replication.Asking
import Floodgate.Proofs.Replication.Leases
import Floodgate.Proofs.Replication.Withdrawal
/-!
# Floodgate.Proofs.Replication.Pursuit

**A write that nobody withdraws is called until it succeeds or the retry policy gives up.** After
some attempts its delivery stands where they have led it (`Stands`): it may call and waits for its
lane, it is to call later, its call is in progress, or it has finished. Its own sections take it
from one to the next, the sections of others leave it where it is, and time goes on only at rest,
when it waits for a timer or is held up. So in every run each attempt is made since the policy wants
it, at the instant from which it may be made unless the delivery is held up, and the policy is asked
with one failure more each time (`Run.pursuit`). A write that is withdrawn is not called any more
(`Run.withdrawn`).

The calendar has to reach the leases. Otherwise the delivery dies before it calls, and whoever waits
for the execution waits for ever (`no_attempt_beyond_calendar`).
-/

namespace Floodgate.Replicator

variable {α : Type} {r r' : Replicator α} {now : Int} {event : Event α} {calls : List (Call α)}

/-- The delivery of a write, which has not been withdrawn. -/
structure Pursues (r : Replicator α) (w : Execution α) (d : Delivery α) : Prop where
  mem : d ∈ r.deliveries
  generation : d.generation = w.generation
  key : d.key = w.key
  action : d.action = w.action
  live : d.cancelled = false

theorem Pursues.eq {w : Execution α} {d d₀ : Delivery α} (h : Pursues r w d) (hsound : Sound r)
    (hd₀ : r.delivery? w.generation = some d₀) : d₀ = d :=
  hsound.eq_of_generation (mem_of_delivery? hd₀) h.mem
    ((delivery?_generation hd₀).trans h.generation.symm)

/-- It may move to another stage. -/
theorem Pursues.update {w : Execution α} {d : Delivery α} (h : Pursues r w d)
    {f : Delivery α → Delivery α}
    (hf : ∀ d, f d = { d with failures := (f d).failures, stage := (f d).stage })
    (hmoved : r'.deliveries = (r.updateDelivery d.generation f).deliveries) :
    Pursues r' w (f d) where
  mem := by
    rw [hmoved]
    exact mem_updateDelivery.mpr ⟨d, h.mem, (if_pos rfl).symm⟩
  generation := by rw [hf]; exact h.generation
  key := by rw [hf]; exact h.key
  action := by rw [hf]; exact h.action
  live := by rw [hf]; exact h.live

/-- The mark that the last attempt at a write leaves at its key. -/
def Execution.lastMark (w : Execution α) (ok : Bool) : Option Pending :=
  if ok then none else some ⟨w.generation, false⟩

namespace Clocked

variable {plan : ReplicationPlan} {since : Int} {conduct : Conduct α}
  {past past' : List (Clocked α × Deed α)} {s s' : Clocked α} {deed : Deed α} {w : Execution α}
  {l : List (CallNote α)}

/-- A write that was given up has been taken up again. -/
def TakenUp (plan : ReplicationPlan) (past : List (Clocked α × Deed α)) (w : Execution α) : Prop :=
  ∃ x ∈ past, (∃ event, x.2 = .go event ∧ event.takesUp = true) ∧
    x.1.outlook plan.retry w = .finished false

/-- Where the delivery of a write stands that nobody withdraws, after some attempts. -/
inductive Stands (plan : ReplicationPlan) (past : List (Clocked α × Deed α)) (w : Execution α)
    (r : Replicator α) (now : Int) (l : List (CallNote α)) : Prop where
  /-- It may call, and waits for its lane. -/
  | waiting {d : Delivery α} {from_ : Int} (hd : Pursues r w d)
      (hstage : d.stage = .ready ∨ d.stage = .queued) (hfailures : d.failures = l.length)
      (hnext : plan.retry.outlook w.since (l.map (·.returned)) = .next from_)
      (hturn : InTurn past w from_ now)
  /-- It is to call later. -/
  | backoff {d : Delivery α} {until_ : Int} (hd : Pursues r w d)
      (hstage : d.stage = .backoff until_) (hfailures : d.failures = l.length)
      (hnext : plan.retry.outlook w.since (l.map (·.returned)) = .next until_)
      (hle : now ≤ until_)
  /-- An attempt is in progress, which is not late. -/
  | calling {d : Delivery α} {n : CallNote α} {earlier : List (CallNote α)} (hd : Pursues r w d)
      (hstage : d.stage = .calling) (hl : l = n :: earlier)
      (hfailures : d.failures = earlier.length)
      (hopen : n.returned = none) (hends : ∀ due ok, n.record.ends = some (due, ok) → now ≤ due)
  /-- The last attempt has ended, and what has come of it is noted at the key. -/
  | finished {ok : Bool} (hgone : ∀ d ∈ r.deliveries, d.generation ≠ w.generation)
      (hover : plan.retry.outlook w.since (l.map (·.returned)) = .finished ok)
      (hmark : r.pendingOf w.key = w.lastMark ok ∨ ok = false ∧ TakenUp plan past w)

theorem Stands.mono (h : Stands plan past w r now l) (hsub : past ⊆ past') :
    Stands plan past' w r now l := by
  cases h with
  | waiting hd hstage hfailures hnext hturn =>
    exact .waiting hd hstage hfailures hnext (hturn.mono hsub)
  | backoff hd hstage hfailures hnext hle => exact .backoff hd hstage hfailures hnext hle
  | calling hd hstage hl hfailures hopen hends => exact .calling hd hstage hl hfailures hopen hends
  | finished hgone hover hmark =>
    refine .finished hgone hover (hmark.imp_right fun htaken => ?_)
    obtain ⟨hok, x, hx, htaken⟩ := htaken
    exact ⟨hok, x, hsub hx, htaken⟩

/-! ### Steps -/

/-- Sections of others. -/
theorem Stands.others (h : Stands plan past w r now l) (hup : Upright plan now r)
    (hold : w.generation < r.nextGeneration) (hs : Section r now event r' calls)
    (hkept : event.withdraws w.key = false) (hother : event.isOf w.generation = false)
    (htaken : event.takesUp = true →
      plan.retry.outlook w.since (l.map (·.returned)) = .finished false → TakenUp plan past w) :
    Stands plan past w r' now l := by
  have hpursues : ∀ {d : Delivery α}, Pursues r w d → Pursues r' w d := fun hd =>
    ⟨hup.delivery_kept hs hd.mem hd.live (hd.key ▸ hkept) (hd.generation ▸ hother),
      hd.generation, hd.key, hd.action, hd.live⟩
  cases h with
  | waiting hd hstage hfailures hnext hturn =>
    exact .waiting (hpursues hd) hstage hfailures hnext hturn
  | backoff hd hstage hfailures hnext hle => exact .backoff (hpursues hd) hstage hfailures hnext hle
  | calling hd hstage hl hfailures hopen hends =>
    exact .calling (hpursues hd) hstage hl hfailures hopen hends
  | @finished ok hgone hover hmark =>
    refine .finished (fun d' hd' hg => ?_) hover ?_
    · obtain ⟨d, hd, hfollows⟩ := follows_of_section hup.sound hs hd' (hg ▸ hold)
      exact hgone d hd (hfollows.generation.symm.trans hg)
    · rcases hmark with hmark | hagain
      · have hnames : ∀ p, w.lastMark ok = some p → event.isOf p.generation = false := by
          intro p hp
          cases ok with
          | true => cases hp
          | false =>
            cases hp
            exact hother
        rcases mark_of_section hs hmark hkept hnames with hsame | ⟨htakes, g, hgiven⟩
        · exact .inl hsame
        · cases ok with
          | true => cases hgiven
          | false => exact .inr ⟨rfl, htaken htakes hover⟩
      · exact .inr hagain

/-- The delivery goes on without calling. -/
theorem Stands.goesOn (h : Stands plan past w r now l) (hup : Upright plan now r)
    (hs : Section r now event r' []) (hend : event.endsCall = false)
    (hof : event.isOf w.generation = true) : Stands plan past w r' now l := by
  -- whose section it is
  have hsame : ∀ {d d₀ : Delivery α}, Pursues r w d → r.delivery? d₀.generation = some d₀ →
      decide (d₀.generation = w.generation) = true → d₀ = d := fun hd hd₀ hg =>
    hd.eq hup.sound (of_decide_eq_true hg ▸ hd₀)
  cases h with
  | @waiting d from_ hd hstage hfailures hnext hturn =>
    cases hs with
    | ended hd₀ _ hcancelled =>
      obtain rfl := hsame hd hd₀ hof
      rw [hd.live] at hcancelled
      cases hcancelled
    | @queued d₀ hd₀ =>
      obtain rfl := hsame hd hd₀ hof
      exact .waiting (hd.update (f := inStage .queued) (fun _ => rfl) rfl) (.inr rfl) hfailures
        hnext hturn
    | died _ _ _ _ hnone =>
      exact absurd hnone (Option.ne_none_iff_exists'.mpr hup.leaseDeadline)
    | woken hd₀ hbackoff =>
      obtain rfl := hsame hd hd₀ hof
      rw [hbackoff] at hstage
      simp at hstage
    | _ => first | cases hof | cases hend
  | @backoff d until_ hd hstage hfailures hnext hle =>
    cases hs with
    | ended hd₀ _ hcancelled =>
      obtain rfl := hsame hd hd₀ hof
      rw [hd.live] at hcancelled
      cases hcancelled
    | queued hd₀ hready =>
      obtain rfl := hsame hd hd₀ hof
      rw [hready] at hstage
      cases hstage
    | died _ _ _ _ hnone =>
      exact absurd hnone (Option.ne_none_iff_exists'.mpr hup.leaseDeadline)
    | woken hd₀ hbackoff hdue =>
      obtain rfl := hsame hd hd₀ hof
      rw [hstage] at hbackoff
      cases hbackoff
      -- it has waited to the very instant
      have hnow : now = until_ := by
        rcases hdue with hcancelled | hdue
        · rw [hd.live] at hcancelled
          cases hcancelled
        · exact Int.le_antisymm hle hdue
      exact .waiting (hd.update (f := inStage .ready) (fun _ => rfl) rfl) (.inl rfl) hfailures
        hnext ⟨Int.le_of_eq hnow.symm, .inl hnow⟩
    | _ => first | cases hof | cases hend
  | calling hd hstage =>
    have hother := isOf_of_calling hs hup.sound hend hd.mem hstage
    rw [hd.generation, hof] at hother
    cases hother
  | finished hgone =>
    obtain ⟨d, hd, hg⟩ := exists_of_isOf hs hof
    exact absurd hg (hgone d hd)

/-- The delivery calls. -/
theorem Stands.began (h : Stands plan past w r now l) (hup : Upright plan now r) {c : Call α}
    (hs : Section r now event r' [c]) (hc : c.caller = .delivery w.generation) {n : CallNote α}
    (hopen : n.returned = none)
    (hends : ∀ due ok, n.record.ends = some (due, ok) → now ≤ due) :
    Stands plan past w r' now (n :: l) ∧ c.key = w.key ∧ c.action = w.action ∧
      ∃ from_, plan.retry.outlook w.since (l.map (·.returned)) = .next from_ ∧
        InTurn past w from_ now := by
  cases hs with
  | renewed => cases hc
  | @called d₀ lease hd₀ hqueued =>
    have hg : d₀.generation = w.generation := Caller.delivery.inj hc
    cases h with
    | waiting hd hstage hfailures hnext hturn =>
      obtain rfl := hd.eq hup.sound (hg ▸ hd₀)
      exact ⟨.calling (hd.update (f := inStage .calling) (fun _ => rfl) rfl) rfl rfl hfailures
        hopen hends, hd.key, hd.action, _, hnext, hturn⟩
    | backoff hd hstage =>
      obtain rfl := hd.eq hup.sound (hg ▸ hd₀)
      rw [hqueued] at hstage
      cases hstage
    | calling hd hstage =>
      obtain rfl := hd.eq hup.sound (hg ▸ hd₀)
      rw [hqueued] at hstage
      cases hstage
    | finished hgone => exact absurd hg (hgone d₀ (mem_of_delivery? hd₀))

/-- If a call of the delivery ends, it is the newest attempt, which is not late. -/
theorem Stands.of_callEnded {n : CallNote α} (h : Stands plan past w r now (n :: l))
    (hup : Upright plan now r) {ok : Bool}
    (hstep : r.step now (.callEnded (.delivery w.generation) ok) = some (r', calls)) :
    ∃ d, Pursues r w d ∧ r' = r.endAttempt now d ok ∧ d.failures = l.length ∧
      n.returned = none ∧ ∀ due ok, n.record.ends = some (due, ok) → now ≤ due := by
  obtain ⟨d₀, hd₀, hcalling, rfl⟩ := endAttempt_of_step hstep
  cases h with
  | waiting hd hstage =>
    obtain rfl := hd.eq hup.sound hd₀
    rw [hcalling] at hstage
    simp at hstage
  | backoff hd hstage =>
    obtain rfl := hd.eq hup.sound hd₀
    rw [hcalling] at hstage
    cases hstage
  | calling hd hstage hl hfailures hopen hends =>
    obtain rfl := hd.eq hup.sound hd₀
    cases hl
    exact ⟨_, hd, rfl, hfailures, hopen, hends⟩
  | finished hgone => exact absurd (delivery?_generation hd₀) (hgone d₀ (mem_of_delivery? hd₀))

/-- What the end of an attempt makes of its delivery. -/
theorem Stands.ended (hup : Upright plan now r) {d : Delivery α} {n : CallNote α}
    (hd : Pursues r w d) (hfailures : d.failures = l.length) (ok : Bool) :
    Stands plan past w (r.endAttempt now d ok) now
      ({ n with returned := some (now, ok) } :: l) := by
  have hmark := hup.sound.pendingOf_of_live hd.mem hd.live
  -- what is noted at the key, whose mark is that of the delivery
  have hsettled : ∀ p : Option Pending, (((r.attemptOver d.generation).updateEntry d.key
      (settled d.generation p)).finish d.generation).pendingOf w.key = p := by
    intro p
    have h := (r.attemptOver d.generation).pendingOf_settled d.key d.generation p d.key
    rw [if_pos ⟨rfl, by rw [show (r.attemptOver d.generation).pendingOf d.key = _ from hmark]; rfl⟩]
      at h
    rw [← hd.key]
    exact h
  have hgone : ∀ r₁ : Replicator α, ∀ d' ∈ (r₁.finish d.generation).deliveries,
      d'.generation ≠ w.generation := fun r₁ d' hd' => hd.generation ▸ (mem_finish.mp hd').2
  cases ok with
  | true =>
    rw [endAttempt_true, markDelivered_eq]
    exact .finished (hgone _) rfl (.inl (hsettled none))
  | false =>
    cases hdelay : r.plan.retry.delayAfter (d.failures + 1) with
    | some delay =>
      rw [endAttempt_retried hdelay]
      rw [hup.plan_eq, hfailures] at hdelay
      refine .backoff (hd.update
        (f := inBackoff (d.failures + 1) (now + delay.timerMillis)) (fun _ => rfl) rfl)
        rfl (congrArg (· + 1) hfailures) ?_ (by omega)
      exact RetryPolicy.outlook_eq_next_iff.mpr
        (.inr ⟨now, _, delay, rfl, by simpa using hdelay, rfl⟩)
    | none =>
      rw [endAttempt_abandoned hdelay, markAbandoned_eq]
      rw [hup.plan_eq, hfailures] at hdelay
      have hover : plan.retry.outlook w.since
          (some (now, false) :: l.map (·.returned)) = .finished false :=
        RetryPolicy.outlook_eq_finished_iff.mpr ⟨now, _, rfl, fun _ => by simpa using hdelay⟩
      refine .finished (hgone _) hover (.inl ?_)
      rw [Execution.lastMark, ← hd.generation]
      exact hsettled _

/-- A retry delay is waited for. -/
theorem mem_timers_of_backoff {d : Delivery α} {until_ : Int} (hd : d ∈ s.replicator.deliveries)
    (hlive : d.cancelled = false) (hstage : d.stage = .backoff until_) : until_ ∈ s.timers := by
  refine List.mem_append_left _ (List.mem_append_left _ (List.mem_append_left _ ?_))
  exact List.mem_filterMap.mpr ⟨d, hd, by simp [hstage, hlive]⟩

/-- The end of a call in progress is waited for. -/
theorem mem_timers_of_calling {d : Delivery α} {n : CallNote α} {due : Int} {ok : Bool}
    (hd : d ∈ s.replicator.deliveries) (hcalling : d.stage = .calling)
    (hn : n ∈ s.attempts d.generation) (hopen : n.returned = none)
    (hends : n.record.ends = some (due, ok)) : due ∈ s.timers := by
  obtain ⟨hn, hcaller⟩ := mem_attempts.mp hn
  have hprogress : n ∈ s.inProgress := by
    refine List.mem_filter.mpr ⟨hn, ?_⟩
    simp only [hopen, Option.isNone_none, Bool.true_and, hcaller, isCalling, List.any_eq_true,
      Bool.and_eq_true, beq_iff_eq]
    exact ⟨d, hd, rfl, hcalling⟩
  exact List.mem_append_right _ (List.mem_filterMap.mpr ⟨n, hprogress, by rw [hends]; rfl⟩)

/-- At rest the next attempt is still to come, or it is held up. -/
theorem Stands.at_rest (h : Stands plan past w s.replicator s.now l)
    (hrun : Run plan since conduct past' s) (hup : Upright plan s.now s.replicator)
    (hsettled : s.isSettled = true) {from_ : Int}
    (hnext : plan.retry.outlook w.since (l.map (·.returned)) = .next from_) :
    s.now < from_ ∧ from_ ∈ s.timers ∨ from_ ≤ s.now ∧ HeldUp w s.replicator := by
  cases h with
  | @waiting d from₀ hd hstage _ hnext₀ hturn =>
    obtain rfl : from₀ = from_ := Outlook.next.inj (hnext₀.symm.trans hnext)
    have hnone := resume_of_isSettled hsettled hd.mem
    have hfound := hup.sound.delivery?_of_mem hd.mem
    rcases hstage with hready | hqueued
    · rw [step_queued hfound hready hd.live] at hnone
      cases hnone
    · exact .inr
        ⟨hturn.1, heldUp_of_isSettled hrun hsettled hd.mem hd.generation hd.key hqueued⟩
  | @backoff d until_ hd hstage _ hnext₀ hle =>
    obtain rfl : until_ = from_ := Outlook.next.inj (hnext₀.symm.trans hnext)
    have hnone := resume_of_isSettled hsettled hd.mem
    have hfound := hup.sound.delivery?_of_mem hd.mem
    refine .inl ⟨Int.lt_of_not_ge fun hdue => ?_, mem_timers_of_backoff hd.mem hd.live hstage⟩
    rw [step_woken hfound hstage (.inr hdue)] at hnone
    cases hnone
  | calling _ _ hl _ hopen =>
    rw [hl, List.map_cons, hopen] at hnext
    cases hnext
  | finished _ hover =>
    rw [hover] at hnext
    cases hnext

/-- Time passes. -/
theorem Stands.wait (h : Stands plan past w s.replicator s.now (s.attempts w.generation))
    (hrun : Run plan since conduct past s) (hup : Upright plan s.now s.replicator) {later : Int}
    (hsettled : s.isSettled = true) (hle : s.now ≤ later) (htimers : ∀ t ∈ s.timers, later ≤ t) :
    Stands plan ((s, .wait later) :: past) w s.replicator later (s.attempts w.generation) := by
  have hsub : past ⊆ (s, .wait later) :: past := List.subset_cons_self _ _
  cases h with
  | @waiting d from_ hd hstage hfailures hnext hturn =>
    have hwaiting : Stands plan past w s.replicator s.now (s.attempts w.generation) :=
      .waiting hd hstage hfailures hnext hturn
    rcases hwaiting.at_rest hrun hup hsettled hnext with ⟨hlt, -⟩ | ⟨-, hheld⟩
    · exact absurd hturn.1 (Int.not_le_of_gt hlt)
    · refine .waiting hd hstage hfailures hnext ⟨Int.le_trans hturn.1 hle, ?_⟩
      rcases Int.lt_or_eq_of_le hle with hlt | rfl
      · exact .inr ⟨_, List.mem_cons_self, hsettled, hturn.1, hlt, hheld⟩
      · exact (hturn.mono hsub).2
  | backoff hd hstage hfailures hnext =>
    exact .backoff hd hstage hfailures hnext
      (htimers _ (mem_timers_of_backoff hd.mem hd.live hstage))
  | calling hd hstage hl hfailures hopen =>
    refine .calling hd hstage hl hfailures hopen fun due ok hends => htimers due ?_
    refine mem_timers_of_calling hd.mem hstage ?_ hopen hends
    rw [hd.generation, hl]
    exact List.mem_cons_self
  | finished hgone hover hmark => exact (Stands.finished hgone hover hmark).mono hsub

/-! ### Deeds -/

/-- The attempts at a write that nobody withdraws, and where its delivery stands after them. -/
structure Pursuit (plan : ReplicationPlan) (past : List (Clocked α × Deed α)) (w : Execution α)
    (r : Replicator α) (now : Int) (l : List (CallNote α)) : Prop where
  old : w.generation < r.nextGeneration
  /-- The attempts call the write, and have returned as they were to. -/
  written : ∀ n ∈ l, n.caller = .delivery w.generation ∧ n.key = w.key ∧
    n.record.action = w.action ∧ ∀ how, n.returned = some how → n.record.ends = some how
  paced : Paced plan.retry past w l
  stands : Stands plan past w r now l

theorem Pursuit.mono (h : Pursuit plan past w r now l) (hsub : past ⊆ past') :
    Pursuit plan past' w r now l :=
  ⟨h.old, h.written, h.paced.mono hsub, h.stands.mono hsub⟩

/-- No attempt but the newest is in progress. -/
theorem Pursuit.eq_of_open {n m : CallNote α} (h : Pursuit plan past w r now (n :: l))
    (hm : m ∈ n :: l) (hopen : m.returned = none) : m = n := by
  rcases List.mem_cons.mp hm with rfl | hm
  · rfl
  · have hfailed := h.paced.hasFailed m hm
    rw [CallNote.hasFailed, hopen] at hfailed
    cases hfailed

theorem Pursuit.others (h : Pursuit plan past w r now l) (hup : Upright plan now r)
    (hs : Section r now event r' calls)
    (hkept : event.withdraws w.key = false) (hother : event.isOf w.generation = false)
    (htaken : event.takesUp = true →
      plan.retry.outlook w.since (l.map (·.returned)) = .finished false → TakenUp plan past w) :
    Pursuit plan past w r' now l where
  old := Nat.lt_of_lt_of_le h.old (frame_of_section hs).2.1
  written := h.written
  paced := h.paced
  stands := h.stands.others hup h.old hs hkept hother htaken

/-- The delivery starts an attempt. -/
theorem Pursuit.began (h : Pursuit plan past w s.replicator s.now l)
    (hup : Upright plan s.now s.replicator) {c : Call α}
    (hs : Section s.replicator s.now event r' [c]) (hc : c.caller = .delivery w.generation) :
    Pursuit plan past w r' s.now (s.noteOf conduct c none :: l) := by
  obtain ⟨hstands, hkey, haction, from_, hnext, hturn⟩ :=
    h.stands.began hup hs hc (n := s.noteOf conduct c none) rfl fun _ _ => Manner.le_of_ends
  refine ⟨Nat.lt_of_lt_of_le h.old (frame_of_section hs).2.1, ?_, .cons h.paced hnext hturn,
    hstands⟩
  exact List.forall_mem_cons.mpr ⟨⟨hc, hkey, haction, fun _ hreturned => by cases hreturned⟩,
    h.written⟩

/-- The attempt in progress ends. -/
theorem Pursuit.ended {n : CallNote α} (h : Pursuit plan past w r now (n :: l))
    (hup : Upright plan now r) {ok : Bool}
    (hstep : r.step now (.callEnded (.delivery w.generation) ok) = some (r', calls))
    (hends : n.record.ends = some (now, ok)) :
    Pursuit plan past w r' now ({ n with returned := some (now, ok) } :: l) where
  old := Nat.lt_of_lt_of_le h.old (frame_of_section (section_of_step hstep)).2.1
  written := by
    obtain ⟨⟨hcaller, hkey, haction, -⟩, hearlier⟩ := List.forall_mem_cons.mp h.written
    refine List.forall_mem_cons.mpr ⟨⟨hcaller, hkey, haction, fun how hreturned => ?_⟩, hearlier⟩
    cases hreturned
    exact hends
  paced := by
    cases h.paced with
    | cons hearlier hnext hturn => exact .cons hearlier hnext hturn
  stands := by
    obtain ⟨d, hd, rfl, hfailures, -⟩ := h.stands.of_callEnded hup hstep
    exact Stands.ended hup hd hfailures ok

theorem isOf_of_ne {caller : Caller} {g : Nat} (hother : caller ≠ .delivery g) (ok : Bool) :
    (Event.resume caller : Event α).isOf g = false ∧
      (Event.callEnded caller ok : Event α).isOf g = false := by
  cases caller with
  | delivery g' =>
    have hne : g' ≠ g := fun hg => hother (hg ▸ rfl)
    exact ⟨decide_eq_false hne, decide_eq_false hne⟩
  | renewal i => exact ⟨rfl, rfl⟩

/-- The return of the newest attempt, the others having returned. -/
theorem Pursuit.map_return {n : CallNote α} (h : Pursuit plan past w r now (n :: l))
    (hopen : n.returned = none) (how : Int × Bool) :
    (n :: l).map (CallNote.return (.delivery w.generation) how) =
      { n with returned := some how } :: l := by
  have hfirst : n.return (.delivery w.generation) how = { n with returned := some how } :=
    if_pos ⟨(h.written n List.mem_cons_self).1, hopen⟩
  rw [List.map_cons, hfirst]
  refine congrArg _ ((List.map_congr_left fun m hm => if_neg fun hsame => ?_).trans (List.map_id _))
  have hfailed := h.paced.hasFailed m hm
  rw [CallNote.hasFailed, hsame.2] at hfailed
  cases hfailed

/-- A deed that does not withdraw the write. -/
theorem Pursuit.act (h : Pursuit plan past w s.replicator s.now (s.attempts w.generation))
    (hrun : Run plan since conduct past s) (hup : Upright plan s.now s.replicator)
    (hacts : Acts conduct s deed s') (hkept : deed.withdraws w.key = false) :
    Pursuit plan ((s, deed) :: past) w s'.replicator s'.now (s'.attempts w.generation) := by
  have hsub : past ⊆ (s, deed) :: past := List.subset_cons_self _ _
  cases hacts with
  | waited hsettled hle htimers =>
    exact ⟨h.old, h.written, h.paced.mono hsub, h.stands.wait hrun hup hsettled hle htimers⟩
  | @went event r' hend hstep =>
    have hs := section_of_step hstep
    cases hof : event.isOf w.generation with
    | false =>
      exact (h.mono hsub).others hup hs hkept hof fun htakes hover =>
        ⟨_, List.mem_cons_self, ⟨event, rfl, htakes⟩, hover⟩
    | true =>
      exact ⟨Nat.lt_of_lt_of_le h.old (frame_of_section hs).2.1, h.written, h.paced.mono hsub,
        (h.stands.mono hsub).goesOn hup hs hend hof⟩
  | @called event r₁ r' c ok hstep hmanner hover =>
    have hs := section_of_step hstep
    obtain rfl := resume_of_call hs
    have hup₁ : Upright plan s.now r₁ := hup.section hs (by simp)
    rw [attempts_note]
    split
    · rename_i hc
      rw [hc] at hover
      exact ((h.mono hsub).began hup hs hc).ended hup₁ hover (ends_of_atOnce hmanner)
    · rename_i hc
      obtain ⟨hresume, hends⟩ := isOf_of_ne (α := α) hc ok
      have hbegun := (h.mono hsub).others hup hs hkept hresume (fun htakes => by cases htakes)
      exact hbegun.others hup₁ (section_of_step hover) rfl hends (fun htakes => by cases htakes)
  | @began event r' c hstep =>
    have hs := section_of_step hstep
    obtain rfl := resume_of_call hs
    rw [attempts_note]
    split
    · rename_i hc
      exact (h.mono hsub).began hup hs hc
    · rename_i hc
      exact (h.mono hsub).others hup hs hkept (isOf_of_ne hc true).1 (fun htakes => by cases htakes)
  | @returned n due ok r' hn hopen hends hdue hstep =>
    by_cases hc : n.caller = .delivery w.generation
    · have hmem : n ∈ s.attempts w.generation := mem_attempts.mpr ⟨hn, hc⟩
      rw [attempts_return]
      generalize s.attempts w.generation = l at h hmem
      cases l with
      | nil => cases hmem
      | cons n₁ earlier =>
        obtain rfl := h.eq_of_open hmem hopen
        rw [hc] at hstep ⊢
        obtain ⟨-, -, -, -, -, hintime⟩ := h.stands.of_callEnded hup hstep
        -- it was due, and it is not late
        obtain rfl : due = s.now := Int.le_antisymm hdue (hintime due ok hends)
        rw [h.map_return hopen]
        exact (h.mono (List.subset_cons_self _ _)).ended hup hstep hends
    · rw [attempts_return_of_ne hc]
      exact (h.mono hsub).others hup (section_of_step hstep) rfl (isOf_of_ne hc ok).2
        (fun htakes => by cases htakes)

/-! ### What the policy is asked -/

/-- How many attempts have failed. -/
def failed (l : List (CallNote α)) : Nat := l.countP (·.hasFailed)

theorem failed_cons_of_open {n : CallNote α} (hopen : n.returned = none) :
    failed (n :: l) = failed l := by
  simp [failed, CallNote.hasFailed, hopen]

/-- The end of an attempt asks the policy if it is a failure, with the number of failures. -/
theorem Pursuit.asks_of_ending {n : CallNote α} (h : Pursuit plan past w r now (n :: l))
    (hup : Upright plan now r) {ok : Bool}
    (hstep : r.step now (.callEnded (.delivery w.generation) ok) = some (r', calls))
    (hending : s.ending conduct deed = some (r, .delivery w.generation, ok)) :
    failed ({ n with returned := some (now, ok) } :: l) =
      failed l + (asks conduct w.generation (s, deed)).toList.length ∧
    ∀ k ∈ asks conduct w.generation (s, deed), k = failed l + 1 := by
  obtain ⟨d, hd, -, hfailures, -⟩ := h.stands.of_callEnded hup hstep
  have hfound : r.delivery? w.generation = some d :=
    hd.generation ▸ hup.sound.delivery?_of_mem hd.mem
  cases ok with
  | true => simp [asks, hending, failed, CallNote.hasFailed]
  | false =>
    -- all attempts before it have failed, and the delivery has counted them
    have hall : failed l = d.failures :=
      (List.countP_eq_length.mpr h.paced.hasFailed).trans hfailures.symm
    rw [hall]
    simp [asks, hending, hfound, ← hall, failed, CallNote.hasFailed]

/-- A deed asks the policy if it adds a failure, and then with the number of failures. -/
theorem Pursuit.asks (h : Pursuit plan past w s.replicator s.now (s.attempts w.generation))
    (hup : Upright plan s.now s.replicator) (hact : s.act conduct deed = some s') :
    failed (s'.attempts w.generation) = failed (s.attempts w.generation) +
      (Clocked.asks conduct w.generation (s, deed)).toList.length ∧
    ∀ k ∈ Clocked.asks conduct w.generation (s, deed),
      k = failed (s.attempts w.generation) + 1 := by
  have hnone : ∀ {l : List (CallNote α)}, failed l = failed (s.attempts w.generation) →
      Clocked.asks conduct w.generation (s, deed) = none →
      failed l = failed (s.attempts w.generation) +
        (Clocked.asks conduct w.generation (s, deed)).toList.length ∧
      ∀ k ∈ Clocked.asks conduct w.generation (s, deed),
        k = failed (s.attempts w.generation) + 1 := by
    intro l hsame hasks
    simp [hasks, hsame]
  cases acts_of_act hact with
  | waited => exact hnone rfl rfl
  | went _ hstep => exact hnone rfl (by simp [Clocked.asks, ending, hstep])
  | @called event r₁ r' c ok hstep hmanner hover =>
    have hs := section_of_step hstep
    obtain rfl := resume_of_call hs
    have hending : s.ending conduct (.go (.resume c.caller)) = some (r₁, c.caller, ok) := by
      simp [ending, hstep, hmanner]
    rw [attempts_note]
    split
    · rename_i hc
      have hup₁ : Upright plan s.now r₁ := hup.section hs (by simp)
      rw [hc] at hover
      have hbegun : Pursuit plan past w r₁ s.now
          (s.noteOf conduct c none :: s.attempts w.generation) := h.began hup hs hc
      exact hbegun.asks_of_ending hup₁ hover (hc ▸ hending)
    · rename_i hc
      exact hnone rfl (asks_of_ne hc hending)
  | @began event r' c hstep hmanner =>
    have hending : s.ending conduct (.go event) = none := by
      simp only [ending, hstep]
      split
      · rename_i ok hatOnce
        exact absurd hatOnce (hmanner ok)
      · rfl
      · rfl
    rw [attempts_note]
    refine hnone ?_ (by simp [Clocked.asks, hending])
    split
    · exact failed_cons_of_open rfl
    · rfl
  | @returned n due ok r' hn hopen hends hdue hstep =>
    obtain ⟨m, hfind, hm⟩ := Option.bind_eq_some_iff.mp hact
    obtain ⟨⟨due', ok'⟩, hends', -⟩ := Option.bind_eq_some_iff.mp hm
    have hending : s.ending conduct (.finish n.caller) = some (s.replicator, n.caller, ok') := by
      simp [ending, hfind, hends']
    by_cases hc : n.caller = .delivery w.generation
    · have hfound := List.find?_some hfind
      simp only [Bool.and_eq_true, decide_eq_true_eq] at hfound
      have hmem : n ∈ s.attempts w.generation := mem_attempts.mpr ⟨hn, hc⟩
      have hmem' : m ∈ s.attempts w.generation :=
        mem_attempts.mpr ⟨List.mem_of_find?_eq_some hfind, hfound.1.trans hc⟩
      rw [attempts_return]
      generalize s.attempts w.generation = l at h hmem hmem'
      cases l with
      | nil => cases hmem
      | cons n₁ earlier =>
        -- the call that is found is the newest attempt
        obtain rfl := h.eq_of_open hmem hopen
        obtain rfl := h.eq_of_open hmem' (isDue_iff.mp hfound.2).1
        rw [hends'] at hends
        cases hends
        rw [hc] at hstep hending ⊢
        rw [h.map_return hopen, failed_cons_of_open hopen]
        exact h.asks_of_ending hup hstep hending
    · rw [attempts_return_of_ne hc]
      exact hnone rfl (asks_of_ne hc hending)

/-! ### Runs -/

theorem Run.upright (h : Run plan since conduct past s) (hreach : Reaches plan since s.now)
    (hup : ∀ x ∈ past, x.2 ≠ .go .shutDown) : Upright plan s.now s.replicator := by
  obtain ⟨_, hrun, -⟩ := h.history
  obtain ⟨hdown, htracked⟩ := h.tracked hreach hup
  exact ⟨hrun.plan_eq, hrun.sound, htracked, hdown, hreach s.now h.since_le (Int.le_refl _),
    h.dead_eq_nil hreach⟩

/-- The execution of a write that is registered now. -/
def executionAt (s : Clocked α) (key : String) (action : α) : Execution α :=
  ⟨key, action, s.now, s.replicator.nextGeneration⟩

/-- It begins with a delivery that may call. -/
theorem Pursuit.start (h : Run plan since conduct past s)
    (hup : s.replicator.isShutDown = false) (key : String) (action : α) :
    Pursuit plan past' (s.executionAt key action) (s.replicator.register key action).1 s.now
      (s.attempts s.replicator.nextGeneration) := by
  rw [h.attempts_eq_nil (Nat.le_refl _)]
  have hd : Pursues (s.replicator.register key action).1 (s.executionAt key action)
      (s.replicator.freshDelivery key action) :=
    ⟨by simp, rfl, rfl, rfl, hup⟩
  have hnew : s.replicator.nextGeneration <
      (s.replicator.register key action).1.nextGeneration := by simp
  exact ⟨hnew, fun _ hn => absurd hn List.not_mem_nil, .nil,
    .waiting hd (.inl rfl) rfl rfl ⟨Int.le_refl _, .inl rfl⟩⟩

variable {later earlier : List (Clocked α × Deed α)} {s₀ : Clocked α} {key : String} {action : α}

/-- What is not shut down before a write is registered, nor withdraws it, is not shut down. -/
theorem not_shutDown (hup : ∀ x ∈ earlier, x.2 ≠ .go .shutDown)
    (hkept : ∀ x ∈ later, x.2.withdraws key = false) :
    ∀ x ∈ later ++ (s₀, .go (.register key action)) :: earlier, x.2 ≠ .go .shutDown := by
  intro x hx hdown
  rcases List.mem_append.mp hx with hx | hx
  · have hwithdraws := hkept x hx
    rw [hdown] at hwithdraws
    cases hwithdraws
  · rcases List.mem_cons.mp hx with rfl | hx
    · cases hdown
    · exact hup x hx hdown

/-- As long as nobody withdraws the write, its delivery stands where its attempts have led it, and
the policy has been asked with one more failure each time. -/
theorem Run.pursuit
    (h : Run plan since conduct (later ++ (s₀, .go (.register key action)) :: earlier) s)
    (hreach : Reaches plan since s.now) (hup : ∀ x ∈ earlier, x.2 ≠ .go .shutDown)
    (hkept : ∀ x ∈ later, x.2.withdraws key = false) :
    Pursuit plan (later ++ (s₀, .go (.register key action)) :: earlier) (s₀.executionAt key action)
        s.replicator s.now (s.attempts s₀.replicator.nextGeneration) ∧
      asked conduct s₀.replicator.nextGeneration later =
        List.range' 1 (failed (s.attempts s₀.replicator.nextGeneration)) := by
  induction later generalizing s with
  | nil =>
    obtain ⟨hpast, rfl⟩ := h.of_register
    obtain ⟨hdown, -⟩ := hpast.tracked hreach hup
    refine ⟨Pursuit.start hpast hdown key action, ?_⟩
    show [] = List.range' 1 (failed (s₀.attempts s₀.replicator.nextGeneration))
    rw [hpast.attempts_eq_nil (Nat.le_refl _)]
    rfl
  | cons x rest ih =>
    cases h with
    | @next _ s₁ _ deed hpast hact =>
      have hacts := acts_of_act hact
      have hreach₁ := hreach.earlier hacts.now_le
      obtain ⟨hpursuit, hasked⟩ := ih hpast hreach₁ fun x hx => hkept x (List.mem_cons_of_mem _ hx)
      have hdeed : deed.withdraws key = false := hkept _ List.mem_cons_self
      have hupright := hpast.upright hreach₁
        (not_shutDown hup fun x hx => hkept x (List.mem_cons_of_mem _ hx))
      refine ⟨hpursuit.act hpast hupright hacts hdeed, ?_⟩
      obtain ⟨hfailed, hcount⟩ := hpursuit.asks hupright hact
      simp only [executionAt] at hfailed hcount
      rw [asked_cons, hasked, hfailed]
      cases hasks : asks conduct s₀.replicator.nextGeneration (s₁, deed) with
      | none => simp
      | some k =>
        rw [hcount k hasks, Option.toList_some, List.length_singleton, List.range'_1_concat,
          Nat.add_comm 1]

/-! ### Executions -/

/-- What has come of the execution of a write that nobody has withdrawn. -/
structure Executed (plan : ReplicationPlan) (conduct : Conduct α)
    (later past : List (Clocked α × Deed α)) (w : Execution α) (s : Clocked α) : Prop where
  /-- Its attempts call the write, and have returned as they were to. -/
  written : ∀ n ∈ s.attempts w.generation, n.key = w.key ∧ n.record.action = w.action ∧
    ∀ how, n.returned = some how → n.record.ends = some how
  /-- Each was to be made after those before it, and was made in its turn. -/
  paced : Paced plan.retry past w (s.attempts w.generation)
  /-- The policy has been asked with one failure, with two, and so on, once for each: the run
  depends on no other answers of it for this delivery (`Run.withRetry`). -/
  asked : asked conduct w.generation later =
    List.range' 1 (failed (s.attempts w.generation))
  /-- It has returned if the last attempt has ended, and not before. -/
  returned : s.replicator.hasReturned w.generation = true ↔
    ∃ ok, s.outlook plan.retry w = .finished ok
  /-- Then the key is pending if the attempt has failed, until the write is taken up again. -/
  pending : ∀ ok, s.outlook plan.retry w = .finished ok →
    s.replicator.isPending w.key = !ok ∨ ok = false ∧ TakenUp plan past w
  /-- When nothing can go on, the next attempt is still to come, or it is held up. -/
  at_rest : s.isSettled = true → ∀ from_, s.outlook plan.retry w = .next from_ →
    s.now < from_ ∧ from_ ∈ s.timers ∨ from_ ≤ s.now ∧ HeldUp w s.replicator

theorem Stands.hasReturned_iff (h : Stands plan past w r now l) (hup : Upright plan now r) :
    r.hasReturned w.generation = true ↔
      ∃ ok, plan.retry.outlook w.since (l.map (·.returned)) = .finished ok := by
  -- no task has died, so a delivery has returned if it is gone
  rw [Replicator.hasReturned_iff, hup.alive, and_iff_left List.not_mem_nil]
  have hthere : ∀ {d : Delivery α}, Pursues r w d → ¬ r.delivery? w.generation = none := by
    intro d hd hnone
    rw [← hd.generation, hup.sound.delivery?_of_mem hd.mem] at hnone
    cases hnone
  cases h with
  | waiting hd _ _ hnext => exact iff_of_false (hthere hd) (by simp [hnext])
  | backoff hd _ _ hnext => exact iff_of_false (hthere hd) (by simp [hnext])
  | calling hd _ hl _ hopen =>
    exact iff_of_false (hthere hd) (by simp [hl, hopen, RetryPolicy.outlook])
  | finished hgone hover =>
    refine iff_of_true (List.find?_eq_none.mpr fun d hd => ?_) ⟨_, hover⟩
    simpa using hgone d hd

theorem Stands.isPending (h : Stands plan past w r now l) {ok : Bool}
    (hover : plan.retry.outlook w.since (l.map (·.returned)) = .finished ok) :
    r.isPending w.key = !ok ∨ ok = false ∧ TakenUp plan past w := by
  cases h with
  | waiting _ _ _ hnext => rw [hnext] at hover; cases hover
  | backoff _ _ _ hnext => rw [hnext] at hover; cases hover
  | calling _ _ hl _ hopen => simp [hl, hopen, RetryPolicy.outlook] at hover
  | finished _ hover₀ hmark =>
    rw [hover₀] at hover
    cases hover
    refine hmark.imp_left fun hmark => ?_
    have hiff := isPending_eq_true_iff r w.key
    rw [hmark] at hiff
    cases ok <;> simpa [Execution.lastMark] using hiff

theorem Pursuit.executed
    (h : Pursuit plan past w s.replicator s.now (s.attempts w.generation))
    (hrun : Run plan since conduct past s) (hup : Upright plan s.now s.replicator)
    (hasked : asked conduct w.generation later =
      List.range' 1 (failed (s.attempts w.generation))) :
    Executed plan conduct later past w s where
  written n hn := (h.written n hn).2
  paced := h.paced
  asked := hasked
  returned := h.stands.hasReturned_iff hup
  pending _ := h.stands.isPending
  at_rest hsettled _ := h.stands.at_rest hrun hup hsettled

/-- All attempts of a delivery that have returned have failed. -/
def FailsSoFar (s : Clocked α) (g : Nat) : Prop :=
  ∀ n ∈ s.attempts g, ∀ how, n.returned = some how → how.2 = false

/-- A delivery makes no more than so many attempts, and ends when it has made them. -/
def EndsAfter (s : Clocked α) (g count : Nat) : Prop :=
  (s.attempts g).length ≤ count ∧ (s.replicator.hasReturned g = true ↔
    (s.attempts g).length = count ∧ ∀ n ∈ s.attempts g, n.returned ≠ none)

/-- If all attempts fail, a delivery that has ended has ended with a failure with which the policy
gives up. -/
theorem Executed.delayAfter_eq_none (h : Executed plan conduct later past w s)
    (hfails : s.FailsSoFar w.generation)
    (hreturned : s.replicator.hasReturned w.generation = true) :
    0 < (s.attempts w.generation).length ∧
      plan.retry.delayAfter (s.attempts w.generation).length = none ∧
      ∀ n ∈ s.attempts w.generation, n.returned ≠ none := by
  obtain ⟨ok, hover⟩ := h.returned.mp hreturned
  obtain ⟨ended, _, hends, hdelay⟩ := RetryPolicy.outlook_eq_finished_iff.mp hover
  obtain ⟨n, earlier, hattempts, hreturned, -⟩ := List.map_eq_cons_iff.mp hends
  rw [List.length_map] at hdelay
  have hmem : n ∈ s.attempts w.generation := hattempts ▸ List.mem_cons_self
  refine ⟨List.length_pos_of_mem hmem, hdelay (hfails n hmem _ hreturned), ?_⟩
  have hpaced := h.paced
  rw [hattempts] at hpaced ⊢
  refine List.forall_mem_cons.mpr ⟨by simp [hreturned], fun m hm hopen => ?_⟩
  have hfailed := hpaced.hasFailed m hm
  rw [CallNote.hasFailed, hopen] at hfailed
  cases hfailed

/-- If all attempts fail, as many are made as the policy lets. -/
theorem Executed.endsAfter (h : Executed plan conduct later past w s)
    (hfails : s.FailsSoFar w.generation) {count : Nat} (hcount : plan.retry.GivesUpAt count) :
    s.EndsAfter w.generation count := by
  have hle : (s.attempts w.generation).length ≤ count :=
    Nat.le_of_not_lt fun hlt => h.paced.delayAfter_ne_none hcount.pos hlt hcount.gives_up
  refine ⟨hle, fun hgone => ?_, fun ⟨hlength, hall⟩ => h.returned.mpr ⟨false, ?_⟩⟩
  · obtain ⟨hpos, hdelay, hall⟩ := h.delayAfter_eq_none hfails hgone
    refine ⟨Nat.le_antisymm hle (Nat.le_of_not_lt fun hlt => ?_), hall⟩
    exact hcount.retries _ hpos hlt hdelay
  · cases hattempts : s.attempts w.generation with
    | nil =>
      rw [hattempts] at hlength
      exact absurd hcount.pos (hlength ▸ Nat.lt_irrefl _)
    | cons n earlier =>
      have hmem : n ∈ s.attempts w.generation := hattempts ▸ List.mem_cons_self
      obtain ⟨⟨ended, ok⟩, hreturned⟩ := Option.ne_none_iff_exists'.mp (hall n hmem)
      obtain rfl : ok = false := hfails n hmem _ hreturned
      refine RetryPolicy.outlook_eq_finished_iff.mpr
        ⟨ended, earlier.map (·.returned), ?_, fun _ => ?_⟩
      · rw [hattempts, List.map_cons, hreturned]
      · rw [List.length_map, hlength]
        exact hcount.gives_up

/-- **A write that nobody withdraws is called until an attempt succeeds or the retry policy gives
up, and a write that is withdrawn is not called any more.** As long as no write is registered for
its key, the key is not forgotten, the replicator is not shut down and the calendar reaches the
leases, the execution of a write is as `Executed` says. So if all attempts fail, a policy that is
limited gets as many as it allows, but one at least, one that never retries gets one, and one that
retries for ever does not come to an end. Once the write has been withdrawn, its attempts are those
that had been made by then; at rest, as long as the calendar reaches the leases, its execution has
returned, unless its last call is in progress or another call of the key keeps it in line. -/
theorem attempts_until_finished
    (h : Run plan since conduct (later ++ (s₀, .go (.register key action)) :: earlier) s) :
    let w := s₀.executionAt key action
    (Reaches plan since s.now → (∀ x ∈ earlier, x.2 ≠ .go .shutDown) →
      (∀ x ∈ later, x.2.withdraws key = false) →
      Executed plan conduct later (later ++ (s₀, .go (.register key action)) :: earlier) w s ∧
      (s.FailsSoFar w.generation →
        (∀ delay maxAttempts, plan.retry = .limited delay maxAttempts →
          s.EndsAfter w.generation (max maxAttempts 1)) ∧
        (plan.retry = .never → s.EndsAfter w.generation 1) ∧
        ∀ delay, plan.retry = .forever delay →
          s.replicator.hasReturned w.generation = false)) ∧
    ∀ newer x older, later = newer ++ x :: older → x.2.withdraws key = true →
      (s.attempts w.generation).map (·.record) = (x.1.attempts w.generation).map (·.record) ∧
      (Reaches plan since s.now → s.isSettled = true →
        s.replicator.hasReturned w.generation = true ∨
          s.replicator.isCalling (.delivery w.generation) = true ∨ HeldUp w s.replicator) := by
  intro w
  constructor
  · intro hreach hup hkept
    obtain ⟨hpursuit, hasked⟩ := h.pursuit hreach hup hkept
    have hexecuted : Executed plan conduct later _ w s :=
      hpursuit.executed h (h.upright hreach (not_shutDown hup hkept)) hasked
    refine ⟨hexecuted, fun hfails => ⟨fun delay maxAttempts hretry => ?_, fun hretry => ?_,
      fun delay hretry => Bool.eq_false_iff.mpr fun hreturned => ?_⟩⟩
    · exact hexecuted.endsAfter hfails (hretry ▸ RetryPolicy.givesUpAt_limited delay maxAttempts)
    · exact hexecuted.endsAfter hfails (hretry ▸ RetryPolicy.givesUpAt_never)
    · obtain ⟨-, hdelay, -⟩ := hexecuted.delayAfter_eq_none hfails hreturned
      rw [hretry, RetryPolicy.delayAfter_forever] at hdelay
      cases hdelay
  · rintro newer ⟨s₁, deed⟩ older rfl hwithdraws
    have hbelongs := h.belongs
    rw [List.append_assoc, List.cons_append] at h
    obtain ⟨hwithdrawn, hrecords⟩ := h.withdrawn h.split.1.belongs hwithdraws
    refine ⟨hrecords, fun hreach hsettled => ?_⟩
    refine (hwithdrawn.at_rest hbelongs h hsettled).imp_left fun hgone => ?_
    rw [hasReturned_iff, h.dead_eq_nil hreach]
    exact ⟨hgone, List.not_mem_nil⟩

/-- What a run whose first deed registers a write does, with the execution of the write. -/
theorem exists_run_of_register (plan : ReplicationPlan) (since : Int) (conduct : Conduct α)
    (key : String) (action : α) (deeds : List (Deed α)) (p : Clocked α → Bool)
    (h : ((start plan since).replay conduct [] (.go (.register key action) :: deeds)).any
      (fun x => p x.1) = true) :
    ∃ later s₀ s, Run plan since conduct (later ++ [(s₀, .go (.register key action))]) s ∧
      s₀.executionAt key action = ⟨key, action, since, 1⟩ ∧
      later.map (·.2) = deeds.reverse ∧ p s = true := by
  obtain ⟨past, s, hrun, hdeeds, hp⟩ := exists_run_of_replay plan since conduct
    (.go (.register key action) :: deeds) (fun _ s => p s) h
  rw [List.reverse_cons] at hdeeds
  obtain ⟨later, earlier, rfl, hlater, hregistered⟩ := List.map_eq_append_iff.mp hdeeds
  obtain ⟨⟨s₀, deed⟩, rest, rfl, rfl, hrest⟩ := List.map_eq_cons_iff.mp hregistered
  obtain rfl := List.map_eq_nil_iff.mp hrest
  refine ⟨later, s₀, s, hrun, ?_, hlater, hp⟩
  obtain ⟨hfirst, -⟩ := hrun.split
  cases hfirst
  rfl

/-- Deeds none of which withdraws a write. -/
theorem withdraws_of_deeds {deeds : List (Deed α)} (hlater : later.map (·.2) = deeds.reverse)
    (hdeeds : ∀ deed ∈ deeds, deed.withdraws key = false) :
    ∀ x ∈ later, x.2.withdraws key = false := by
  intro x hx
  have hx := List.mem_map_of_mem (f := (·.2)) hx
  rw [hlater, List.mem_reverse] at hx
  exact hdeeds _ hx

/-- A plan whose loops stay out of the way for an hour, and that gives up after two attempts. -/
def twicePlan : ReplicationPlan := { quietPlan with retry := .limited (.ofMillis 10) 2 }

/-- A write whose calls all fail is called twice, ten milliseconds apart, and its key stays pending.
If another write supersedes it after the first call, it is not called again. -/
theorem attempts_until_finished_of_two :
    (∃ (past : List (Clocked Nat × Deed Nat)) (s : Clocked Nat),
      Run twicePlan 0 (fun _ _ => .atOnce false) past s ∧
        (s.attempts 1).map (·.record.time) = [10, 0] ∧ s.EndsAfter 1 2 ∧
        s.replicator.hasReturned 1 = true ∧ s.replicator.isPending "k" = true) ∧
    ∃ (past : List (Clocked Nat × Deed Nat)) (s s₁ : Clocked Nat),
      Run twicePlan 0 (fun _ _ => .atOnce false) past s ∧
        (s₁, .go (.register "k" 2)) ∈ past ∧ (s.attempts 1).length = 1 ∧
        (s.attempts 1).map (·.record) = (s₁.attempts 1).map (·.record) ∧
        s.replicator.hasReturned 1 = true := by
  constructor
  · obtain ⟨later, s₀, s, hrun, hw, hdeeds, hp⟩ := exists_run_of_register twicePlan 0
      (fun _ _ => .atOnce false) "k" 1
      [.go (.resume (.delivery 1)), .go (.resume (.delivery 1)), .wait 10,
        .go (.resume (.delivery 1)), .go (.resume (.delivery 1)), .go (.resume (.delivery 1))]
      (fun s => s.now == 10 && (s.attempts 1).map (·.record.time) == [10, 0] &&
        (s.attempts 1).all (·.returned.any fun how => how.2 == false) &&
        s.replicator.isPending "k")
      (by decide)
    simp only [Bool.and_eq_true, beq_iff_eq, List.all_eq_true] at hp
    obtain ⟨⟨⟨hnow, htimes⟩, hfailed⟩, hpending⟩ := hp
    obtain ⟨hkept, -⟩ := attempts_until_finished hrun
    rw [hw] at hkept
    obtain ⟨-, hends⟩ := hkept (reaches_of_bounds (by decide) (by rw [hnow]; decide))
      (fun _ hx => absurd hx List.not_mem_nil)
      (withdraws_of_deeds hdeeds (by decide))
    have hfails : s.FailsSoFar 1 := by
      intro n hn how hreturned
      have hn := hfailed n hn
      rw [hreturned] at hn
      simpa using hn
    obtain ⟨hlimited, -⟩ := hends hfails
    have hcount : s.EndsAfter 1 2 := hlimited _ _ rfl
    have hlength : (s.attempts 1).length = 2 := by
      rw [← List.length_map (f := (·.record.time)), htimes]
      rfl
    have hreturned : ∀ n ∈ s.attempts 1, n.returned ≠ none := by
      intro n hn hopen
      have hn := hfailed n hn
      rw [hopen] at hn
      cases hn
    exact ⟨_, s, hrun, htimes, hcount, hcount.2.mpr ⟨hlength, hreturned⟩, hpending⟩
  · obtain ⟨later, s₀, s, hrun, hw, hdeeds, hp⟩ := exists_run_of_register twicePlan 0
      (fun _ _ => .atOnce false) "k" 1
      [.go (.resume (.delivery 1)), .go (.resume (.delivery 1)), .go (.register "k" 2),
        .go (.resume (.delivery 1)), .go (.resume (.delivery 1)),
        .go (.resume (.delivery 2)), .go (.resume (.delivery 2))]
      (fun s => s.isSettled && s.now == 0 && (s.attempts 1).length == 1 &&
        !s.replicator.isCalling (.delivery 1) && (s.replicator.callersOf "k").isEmpty)
      (by decide)
    simp only [Bool.and_eq_true, beq_iff_eq, Bool.not_eq_true', List.isEmpty_iff] at hp
    obtain ⟨⟨⟨⟨hsettled, hnow⟩, hlength⟩, hcalling⟩, hcallers⟩ := hp
    have hmem : Deed.go (.register "k" 2) ∈ later.map (·.2) := by rw [hdeeds]; simp
    obtain ⟨⟨s₁, _⟩, hmem, rfl⟩ := List.mem_map.mp hmem
    obtain ⟨newer, older, rfl⟩ := List.append_of_mem hmem
    obtain ⟨-, hwithdrawn⟩ := attempts_until_finished hrun
    rw [hw] at hwithdrawn
    obtain ⟨hrecords, hended⟩ := hwithdrawn newer _ older rfl rfl
    refine ⟨_, s, s₁, hrun, List.mem_append_left _ hmem, hlength, hrecords, ?_⟩
    have hreach : Reaches twicePlan 0 s.now :=
      reaches_of_bounds (by decide) (by rw [hnow]; decide)
    rcases hended hreach hsettled with hreturned | hcall | ⟨-, -, -, c, hc, -⟩
    · exact hreturned
    · cases hcalling.symm.trans hcall
    · cases hcallers ▸ hc

/-- A write whose lease would end beyond the calendar is never called, although every call would
succeed at once and nobody withdraws it: its delivery dies with its task, the key stays pending, and
whatever is done later, no attempt is made, and the execution does not return. -/
theorem no_attempt_beyond_calendar :
    ∃ (later : List (Clocked Nat × Deed Nat)) (s₀ s : Clocked Nat),
      Run farPlan 1700000000000 (fun _ _ => .atOnce true)
          (later ++ [(s₀, .go (.register "k" 1))]) s ∧
        (∀ x ∈ later, x.2.withdraws "k" = false) ∧ s.isSettled = true ∧
        s.outlook farPlan.retry (s₀.executionAt "k" 1) = .next 1700000000000 ∧
        s.replicator.isPending "k" = true ∧
        ∀ newer s', Run farPlan 1700000000000 (fun _ _ => .atOnce true)
            (newer ++ (later ++ [(s₀, .go (.register "k" 1))])) s' →
          s'.attempts 1 = [] ∧ s'.replicator.hasReturned 1 = false := by
  obtain ⟨later, s₀, s, hrun, hw, hdeeds, hp⟩ := exists_run_of_register farPlan 1700000000000
    (fun _ _ => .atOnce true) "k" 1
    [.go (.resume (.delivery 1)), .go (.resume (.delivery 1))]
    (fun s => s.isSettled && (s.attempts 1).isEmpty && s.replicator.dead == [1] &&
      s.replicator.deliveries.isEmpty && s.replicator.nextGeneration == 2 &&
      s.replicator.isPending "k")
    (by decide)
  simp only [Bool.and_eq_true, List.isEmpty_iff, beq_iff_eq] at hp
  obtain ⟨⟨⟨⟨⟨hsettled, hattempts⟩, hdead⟩, hnone⟩, hnext⟩, hpending⟩ := hp
  have hgone : Withdrawn 1 s.replicator := by
    refine ⟨by rw [hnext]; decide, fun d hd => ?_⟩
    rw [hnone] at hd
    cases hd
  refine ⟨later, s₀, s, hrun, withdraws_of_deeds hdeeds (by decide), hsettled, ?_, hpending,
    fun newer s' hlater => ?_⟩
  · rw [hw, outlook, hattempts]
    rfl
  · obtain ⟨hreturned, hrecords⟩ := hlater.dead_for_good hrun (hdead ▸ List.mem_singleton_self 1)
      hgone
    rw [hattempts, List.map_nil, List.map_eq_nil_iff] at hrecords
    exact ⟨hrecords, hreturned⟩

end Clocked

end Floodgate.Replicator
