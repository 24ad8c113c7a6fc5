import Floodgate.Proofs.Replication.Clock
/-!
# Floodgate.Proofs.Replication.Leases

**A lease that is renewed never lapses.** The renewal loop ticks on its own beat, which was fixed
when the replicator started; when a write is registered has nothing to do with it. So a lease that
was written right after a tick must last beyond the next one. It does, since the renewal period is
shorter than the expiration period: as long as calls succeed at once, every key is called at least
once from one tick to the next, and each call gets a lease that reaches beyond the tick after it
(`lease_never_lapses`).

The invariant (`OnTime`) says of every key that since the last tick it has been called, or that a
delivery or a renewal of it is still to call; nothing keeps these waiting (`Brisk`), so none is left
when time goes on.

It takes a calendar that reaches the leases. A delivery whose lease would end beyond it dies before
it calls, and its key is then not called at all (`lease_beyond_calendar`).
-/

namespace Floodgate.Replicator

variable {α : Type} {r r' : Replicator α} {now : Int} {event : Event α} {calls : List (Call α)}

/-! ### One section -/

/-- A key gets its entry by being registered for. -/
theorem entry_of_section (hs : Section r now event r' calls) {key : String}
    (h : (r'.entryFor? key).isSome = true) :
    (r.entryFor? key).isSome = true ∨ ∃ action, event = .register key action := by
  have hcurrent := current_of_section hs key
  cases hold : r.entryFor? key with
  | some e => exact .inl rfl
  | none =>
    obtain ⟨e', he'⟩ := Option.isSome_iff_exists.mp h
    rw [he', hold] at hcurrent
    cases event with
    | register k action =>
      by_cases hk : k = key
      · exact .inr ⟨action, hk ▸ rfl⟩
      · simp [Event.latest, hk] at hcurrent
    | forget k => simp [Event.latest] at hcurrent
    | _ => simp [Event.latest] at hcurrent

/-- The renewal loop keeps its beat. -/
theorem renewalTick_of_section (hs : Section r now event r' calls) (hevent : event ≠ .renewalTick)
    (hup : r.isShutDown = false) (hlease : ∃ lease, r.leaseDeadline now = some lease) :
    r'.renewalTick = r.renewalTick := by
  cases hs with
  | registered key action => exact (r.register_ticks key action).1
  | forgotten key => rw [forget_eq]
  | flushed => exact r.flush_ticks.1
  | @died d =>
    obtain ⟨_, _, _, -, hperish⟩ := r.perish_eq_drop d.generation
    rw [hperish]
    rfl
  | renewalDied _ _ hnone =>
    exact absurd hnone (Option.ne_none_iff_exists'.mpr hlease)
  | renewalTicked => exact absurd rfl hevent
  | @recoveryTicked due =>
    have hflush := flush_ticks { r with
      recoveryTick := some (due + r.plan.recovery.timerMillis) }
    exact recover_elim _ rfl fun _ => hflush.1
  | renewalsStopped hdown => rw [hup] at hdown; cases hdown
  | _ => rfl

/-- A renewal stays until its call has ended, unless there is nothing for it to call. -/
theorem renewal_kept (hs : Section r now event r' calls) (hup : r.isShutDown = false)
    (hlease : ∃ lease, r.leaseDeadline now = some lease) (hsound : Sound r) {n : Renewal}
    (hn : n ∈ r.renewals) (hentry : (r.entryFor? n.key).isSome = true)
    (hevent : ∀ ok, event ≠ .callEnded (.renewal n.number) ok) :
    ∃ n' ∈ r'.renewals, n'.number = n.number ∧ n'.key = n.key := by
  have hsame : n ∈ r'.renewals → ∃ n' ∈ r'.renewals, n'.number = n.number ∧ n'.key = n.key :=
    fun h => ⟨n, h, rfl, rfl⟩
  cases hs with
  | registered key action => exact hsame ((r.register_frame key action).2.1 ▸ hn)
  | forgotten key => rw [forget_eq]; exact ⟨n, hn, rfl, rfl⟩
  | flushed => exact hsame (r.flush_frame.2.1 ▸ hn)
  | @died d =>
    obtain ⟨_, _, _, -, hperish⟩ := r.perish_eq_drop d.generation
    rw [hperish]
    exact ⟨n, hn, rfl, rfl⟩
  | @renewalGone n₀ hn₀ _ hnone =>
    refine hsame (List.mem_filter.mpr ⟨hn, decide_eq_true fun hi => ?_⟩)
    obtain rfl := hsound.eq_of_number hn (mem_of_renewal? hn₀) hi
    rw [hnone] at hentry
    cases hentry
  | renewalDied _ _ hnone =>
    exact absurd hnone (Option.ne_none_iff_exists'.mpr hlease)
  | @renewed n₀ =>
    refine ⟨_, List.mem_map.mpr ⟨n, hn, rfl⟩, ?_⟩
    split <;> exact ⟨rfl, rfl⟩
  | @renewalOver n₀ ok =>
    refine hsame (List.mem_filter.mpr ⟨hn, decide_eq_true fun hi => ?_⟩)
    exact hevent ok (hi ▸ rfl)
  | renewalTicked =>
    rw [renewAll_eq]
    split
    · exact ⟨n, List.mem_append_left _ hn, rfl, rfl⟩
    · exact ⟨n, hn, rfl, rfl⟩
  | @recoveryTicked due =>
    have hflush := flush_frame { r with
      recoveryTick := some (due + r.plan.recovery.timerMillis) }
    refine recover_elim _ ⟨n, hn, rfl, rfl⟩ fun _ => ⟨n, ?_, rfl, rfl⟩
    show n ∈ (Replicator.flush _).1.renewals
    rw [hflush.2.1]
    exact hn
  | renewalsStopped hdown => rw [hup] at hdown; cases hdown
  | _ => exact ⟨n, hn, rfl, rfl⟩

/-! ### Nothing takes time -/

/-- Nothing takes time: no call is in progress, and no write has failed. -/
structure Brisk (r : Replicator α) : Prop where
  deliveries : ∀ d ∈ r.deliveries, d.stage = .ready ∨ d.stage = .queued
  renewals : ∀ n ∈ r.renewals, n.calling = false
  inFlight : r.inFlight = 0
  marks : ∀ key g, r.pendingOf key ≠ some ⟨g, false⟩

theorem Brisk.register (h : Brisk r) (key : String) (action : α) :
    Brisk (r.register key action).1 := by
  obtain ⟨-, hrenewals, -, -, hinFlight, -⟩ := r.register_frame key action
  constructor
  · intro d hd
    rw [deliveries_register, List.mem_append, List.mem_singleton] at hd
    rcases hd with hd | rfl
    · obtain ⟨d₀, hd₀, rfl⟩ := List.mem_map.mp hd
      rw [(withdrawn_fields _ d₀).2.2.2.2.2]
      exact h.deliveries d₀ hd₀
    · exact .inl rfl
  · rw [hrenewals]
    exact h.renewals
  · exact hinFlight.trans h.inFlight
  · intro k g hp
    rw [pendingOf_register] at hp
    split at hp
    · cases hp
    · exact h.marks k g hp

theorem Brisk.flush (h : Brisk r) : Brisk r.flush.1 :=
  flush_induction (fun _ key _ action h _ => h.register key action) r h

/-- What does not fail is not given up. -/
theorem marks_of_section (hs : Section r now event r' calls)
    (hevent : ∀ caller, event ≠ .callEnded caller false)
    (h : ∀ key g, r.pendingOf key ≠ some ⟨g, false⟩) (key : String) (g : Nat) :
    r'.pendingOf key ≠ some ⟨g, false⟩ := by
  intro hp
  cases pending_of_section hs key with
  | same hsame => exact h key g (hsame ▸ hp)
  | trying _ htrying => rw [htrying] at hp; cases hp
  | forgotten hforget =>
    subst hforget
    cases hs
    rw [pendingOf_forget, if_pos rfl] at hp
    cases hp
  | delivered _ _ _ _ _ hnone => rw [hnone] at hp; cases hp
  | abandoned _ hfailed => exact hevent _ hfailed

/-- A section that neither starts a call nor ends one. -/
theorem Brisk.section (h : Brisk r) (hs : Section r now event r' [])
    (hend : event.endsCall = false) : Brisk r' := by
  have hmarks := marks_of_section hs (fun c hc => by rw [hc] at hend; cases hend) h.marks
  have hkept : ∀ {r₁ : Replicator α}, r₁.deliveries ⊆ r.deliveries → r₁.renewals ⊆ r.renewals →
      r₁.inFlight = 0 → (∀ key g, r₁.pendingOf key ≠ some ⟨g, false⟩) → Brisk r₁ :=
    fun hd hn hi hp => ⟨fun d hmem => h.deliveries d (hd hmem),
      fun n hmem => h.renewals n (hn hmem), hi, hp⟩
  have hnone : r.inFlight - ((r.deliveries.filter fun d => d.stage == .calling)).length = 0 := by
    rw [h.inFlight, Nat.zero_sub]
  cases hs with
  | registered key action => exact h.register key action
  | forgotten key =>
    rw [forget_eq] at hmarks ⊢
    refine ⟨fun d hd => ?_, h.renewals, h.inFlight, hmarks⟩
    obtain ⟨d₀, hd₀, rfl⟩ := List.mem_map.mp hd
    rw [(withdrawn_fields _ d₀).2.2.2.2.2]
    exact h.deliveries d₀ hd₀
  | flushed => exact ⟨h.flush.deliveries, h.flush.renewals, h.flush.inFlight, hmarks⟩
  | ended => exact hkept (fun _ hd => (mem_finish.mp hd).1) (List.Subset.refl _) h.inFlight hmarks
  | @queued d =>
    refine ⟨fun d' hd' => ?_, h.renewals, h.inFlight, hmarks⟩
    obtain ⟨d₀, hd₀, rfl⟩ := mem_updateDelivery.mp hd'
    split
    · exact .inr rfl
    · exact h.deliveries d₀ hd₀
  | @died d =>
    obtain ⟨_, _, _, -, hperish⟩ := r.perish_eq_drop d.generation
    rw [hperish] at hmarks ⊢
    refine hkept (fun _ hd => (List.mem_filter.mp hd).1) (List.Subset.refl _) ?_ hmarks
    show r.inFlight - _ = 0
    rw [h.inFlight, Nat.zero_sub]
  | @woken d until_ hd hstage =>
    rcases h.deliveries d (mem_of_delivery? hd) with hready | hqueued
    · rw [hready] at hstage; cases hstage
    · rw [hqueued] at hstage; cases hstage
  | renewalGone =>
    exact hkept (List.Subset.refl _) (fun _ hn => (List.mem_filter.mp hn).1) h.inFlight hmarks
  | renewalDied =>
    exact hkept (List.Subset.refl _) (List.nil_subset _) h.inFlight hmarks
  | renewalTicked =>
    rw [renewAll_eq] at hmarks ⊢
    split
    · refine ⟨h.deliveries, fun n hn => ?_, h.inFlight, h.marks⟩
      rcases List.mem_append.mp hn with hn | hn
      · exact h.renewals n hn
      · exact (mem_freshRenewals hn).2.1
    · exact hkept (List.Subset.refl _) (List.Subset.refl _) h.inFlight h.marks
  | @recoveryTicked due =>
    have htick : Brisk { r with recoveryTick := some (due + r.plan.recovery.timerMillis) } :=
      ⟨h.deliveries, h.renewals, h.inFlight, h.marks⟩
    refine recover_elim _ htick fun _ => ?_
    exact ⟨htick.flush.deliveries, htick.flush.renewals, htick.flush.inFlight, htick.flush.marks⟩
  | shutDown =>
    refine ⟨fun d hd => ?_, h.renewals, h.inFlight, hmarks⟩
    obtain ⟨d₀, hd₀, rfl⟩ := List.mem_map.mp hd
    exact h.deliveries d₀ hd₀
  | renewalsStopped =>
    exact hkept (List.Subset.refl _) (List.nil_subset _) h.inFlight hmarks
  | recoveryStopped =>
    refine hkept (fun _ hd => (List.mem_filter.mp hd).1) (List.Subset.refl _) ?_ hmarks
    show r.inFlight - _ = 0
    rw [h.inFlight, Nat.zero_sub]
  | _ => cases hend

/-- A section that starts a call, and the end of the call, which has succeeded. -/
theorem Brisk.call (h : Brisk r) {r₁ : Replicator α} {c : Call α}
    (hs : Section r now event r₁ [c])
    (hover : r₁.step now (.callEnded c.caller true) = some (r', [])) : Brisk r' := by
  have hstarts := endsCall_of_call hs (List.mem_singleton_self c)
  have hmarks := marks_of_section (section_of_step hover) (fun _ hc => by cases hc)
    (marks_of_section hs (fun _ hc => by rw [hc] at hstarts; cases hstarts) h.marks)
  cases hs with
  | @called d lease hd =>
    obtain ⟨d', hd', -, rfl⟩ := endAttempt_of_step hover
    obtain hg : d'.generation = d.generation := delivery?_generation hd'
    refine ⟨fun d₁ hd₁ => ?_, h.renewals, ?_, hmarks⟩
    · obtain ⟨hd₁, hne⟩ := mem_finish.mp hd₁
      obtain ⟨d₀, hd₀, rfl⟩ := mem_updateDelivery.mp hd₁
      by_cases hg₀ : d₀.generation = d.generation
      · rw [if_pos hg₀, hg] at hne
        exact absurd hg₀ hne
      · rw [if_neg hg₀]
        exact h.deliveries d₀ hd₀
    · show r.inFlight + 1 - 1 = 0
      rw [h.inFlight]
  | @renewed n e lease hn =>
    obtain ⟨n', -, -, rfl⟩ := finishRenewal_of_step hover
    refine ⟨h.deliveries, fun m hm => ?_, h.inFlight, hmarks⟩
    obtain ⟨hm, hne⟩ := List.mem_filter.mp hm
    obtain ⟨m₀, hm₀, rfl⟩ := List.mem_map.mp hm
    by_cases hi : m₀.number = n.number
    · rw [if_pos hi] at hne
      exact absurd hi (of_decide_eq_true hne)
    · rw [if_neg hi]
      exact h.renewals m₀ hm₀

/-- As long as nothing takes time, nobody is left when nobody can go on: who is ready gets in line,
and who is first in line goes on. -/
theorem Brisk.at_rest (h : Brisk r) (hsound : Sound r) (hlined : Lined r) (hlanes : Lanes r)
    (hdeliveries : ∀ d ∈ r.deliveries, r.step now (.resume (.delivery d.generation)) = none)
    (hrenewals : ∀ n ∈ r.renewals, r.step now (.resume (.renewal n.number)) = none) :
    r.deliveries = [] ∧ r.renewals = [] := by
  -- a lane that anybody waits for has somebody first in line, who could go on
  have hline : ∀ lane key, (∃ c ∈ r.claims, c.lane = lane) → ¬ r.uses lane key := by
    intro lane key hline huses
    rcases hlined.first_in_line hlanes hline huses with
      ⟨d, hd, -, -, hwaits, -, hholds⟩ | ⟨n, hn, -, -, hholds⟩
    · have hqueued : d.stage = .queued := by
        rcases hwaits with hqueued | hcalling
        · exact hqueued
        · rcases h.deliveries d hd with hready | hqueued
          · rw [hready] at hcalling; cases hcalling
          · exact hqueued
      have hstep := isSome_step_of_holds now (hsound.delivery?_of_mem hd) hqueued hholds
      rw [hdeliveries d hd] at hstep
      cases hstep
    · have hstep := isSome_step_of_renewal_holds now (hsound.renewal?_of_mem hn)
        (h.renewals n hn) hholds
      rw [hrenewals n hn] at hstep
      cases hstep
  constructor
  · refine List.eq_nil_iff_forall_not_mem.mpr fun d hd => ?_
    have hfound := hsound.delivery?_of_mem hd
    have hnone := hdeliveries d hd
    rcases h.deliveries d hd with hready | hqueued
    · cases hcancelled : d.cancelled with
      | true => rw [step_gone hfound hready hcancelled] at hnone; cases hnone
      | false => rw [step_queued hfound hready hcancelled] at hnone; cases hnone
    · exact hline d.lane d.key ⟨place d, (hlined _).mpr (.inl ⟨d, hd, .inl hqueued, rfl⟩), rfl⟩
        (.inr (.inl ⟨d, hd, rfl, rfl⟩))
  · refine List.eq_nil_iff_forall_not_mem.mpr fun n hn => ?_
    exact hline n.lane n.key ⟨n.claim, (hlined _).mpr (.inr ⟨n, hn, rfl⟩), rfl⟩
      (.inr (.inr ⟨n, hn, rfl, rfl⟩))

/-! ### On the beat -/

namespace Clocked

variable {plan : ReplicationPlan} {since : Int} {conduct : Conduct α}
  {past : List (Clocked α × Deed α)} {s s' : Clocked α} {deed : Deed α}

/-- Since an instant a key has been called, or somebody is still to call it. -/
def Attended (s : Clocked α) (since : Int) (key : String) : Prop :=
  s.replicator.isPending key = true ∨ (∃ n ∈ s.replicator.renewals, n.key = key) ∨
    ∃ c ∈ (s.callsOf key).head?, since ≤ c.time

/-- Every key has been attended to since the last tick of the renewal loop, and the next one is not
late. -/
structure OnTime (plan : ReplicationPlan) (due : Int) (s : Clocked α) : Prop where
  brisk : Brisk s.replicator
  tick : s.replicator.renewalTick = some due
  last_le : due - plan.renewal.timerMillis ≤ s.now
  le_due : s.now ≤ due
  attended : ∀ key, (s.replicator.entryFor? key).isSome = true →
    s.Attended (due - plan.renewal.timerMillis) key

theorem OnTime.start (plan : ReplicationPlan) (now : Int) :
    OnTime plan (now + plan.renewal.timerMillis) (.start plan now : Clocked α) where
  brisk := by constructor <;> simp [Clocked.start, Replicator.start, pendingOf, entryFor?]
  tick := rfl
  last_le := by show _ ≤ now; omega
  le_due := by show now ≤ _; omega
  attended key h := by simp [Clocked.start, Replicator.start, entryFor?] at h

theorem OnTime.at_rest {due : Int} (h : OnTime plan due s) (hrun : Run plan since conduct past s)
    (hsettled : s.isSettled = true) :
    s.replicator.deliveries = [] ∧ s.replicator.renewals = [] ∧ s.now < due := by
  obtain ⟨_, hrun, -⟩ := hrun.history
  obtain ⟨hdeliveries, hrenewals⟩ := h.brisk.at_rest hrun.sound hrun.lined hrun.lanes
    (fun _ hd => resume_of_isSettled hsettled hd) (fun _ hn => renewal_of_isSettled hsettled hn)
  refine ⟨hdeliveries, hrenewals, ?_⟩
  have htick := renewalTick_of_isSettled hsettled
  simp only [step, h.tick, isRenewing, hrenewals, List.isEmpty_nil, Bool.not_true, Bool.not_false,
    Bool.and_true, decide_eq_true_eq] at htick
  split at htick
  · cases htick
  · omega

/-- Time passes no further than to the next tick. -/
theorem OnTime.wait {due later : Int} (h : OnTime plan due s)
    (hrun : Run plan since conduct past s) (hsettled : s.isSettled = true)
    (hle : s.now ≤ later) (htimers : ∀ t ∈ s.timers, later ≤ t) :
    OnTime plan due { s with now := later } := by
  obtain ⟨-, hrenewals, -⟩ := h.at_rest hrun hsettled
  have hdue : due ∈ s.timers := by
    simp [Clocked.timers, Replicator.timers, isRenewing, hrenewals, h.tick]
  exact ⟨h.brisk, h.tick, Int.le_trans h.last_le hle, htimers due hdue, h.attended⟩

/-- A section that starts no call and ends none. -/
theorem OnTime.went {due : Int} (h : OnTime plan due s) (hrun : Run plan since conduct past s)
    (hlease : ∃ lease, s.replicator.leaseDeadline s.now = some lease)
    (hup : s.replicator.isShutDown = false) {event : Event α} {r' : Replicator α}
    (hs : Section s.replicator s.now event r' []) (hend : event.endsCall = false) :
    ∃ due', OnTime plan due' { s with replicator := r' } := by
  obtain ⟨_, hrun, -⟩ := hrun.history
  have hbrisk := h.brisk.section hs hend
  by_cases htick : event = .renewalTick
  · -- the loop ticks, and since nothing is in flight every key is renewed
    subst htick
    cases hs with
    | @renewalTicked due' htick hdue =>
      obtain rfl : due = due' := Option.some.inj (h.tick.symm.trans htick)
      rw [renewAll_eq, if_pos h.brisk.inFlight] at hbrisk ⊢
      rw [hrun.plan_eq] at hbrisk ⊢
      refine ⟨due + plan.renewal.timerMillis, hbrisk, rfl, ?_, ?_, fun key hkey => ?_⟩
      · show due + _ - _ ≤ s.now
        omega
      · show s.now ≤ due + _
        have hle := h.le_due
        omega
      · obtain ⟨e, he⟩ := Option.isSome_iff_exists.mp hkey
        obtain ⟨n, hn, hnkey⟩ := exists_freshRenewal s.replicator.nextRenewal (mem_of_entryFor? he)
        exact .inr (.inl ⟨n, List.mem_append_right _ hn, hnkey.trans (entryFor?_key he)⟩)
  · refine ⟨due, hbrisk, ?_, h.last_le, h.le_due, fun key hkey => ?_⟩
    · exact (renewalTick_of_section hs htick hup hlease).trans h.tick
    rcases entry_of_section hs hkey with hold | ⟨action, rfl⟩
    · rcases h.attended key hold with hpending | ⟨n, hn, hnkey⟩ | hcalled
      · left
        rw [isPending_eq_true_iff] at hpending ⊢
        cases pending_of_section hs key with
        | same hsame => rw [hsame]; exact hpending
        | trying _ htrying => rw [htrying]; rfl
        | forgotten hforget =>
          subst hforget
          cases hs
          rw [entryFor?_forget, if_pos rfl] at hkey
          cases hkey
        | delivered _ _ _ _ hevent => rw [hevent] at hend; cases hend
        | abandoned _ hevent => rw [hevent] at hend; cases hend
      · obtain ⟨n', hn', -, hkey'⟩ := renewal_kept hs hup hlease hrun.sound hn (hnkey ▸ hold)
          (fun _ hevent => by rw [hevent] at hend; cases hend)
        exact .inr (.inl ⟨n', hn', hkey'.trans hnkey⟩)
      · exact .inr (.inr hcalled)
    · left
      rw [isPending_eq_true_iff]
      cases hs
      rw [pendingOf_register, if_pos rfl]
      rfl

/-- A section that starts a call, and the end of the call, which has succeeded. -/
theorem OnTime.called {due : Int} (h : OnTime plan due s) (hrun : Run plan since conduct past s)
    (hlease : ∃ lease, s.replicator.leaseDeadline s.now = some lease)
    (hup : s.replicator.isShutDown = false) {event : Event α} {r₁ r' : Replicator α} {c : Call α}
    (hs : Section s.replicator s.now event r₁ [c])
    (hover : r₁.step s.now (.callEnded c.caller true) = some (r', [])) :
    OnTime plan due
      { s with replicator := r', notes := s.noteOf conduct c (some (s.now, true)) :: s.notes } := by
  obtain ⟨_, hrun, -⟩ := hrun.history
  have hs' := section_of_step hover
  have hown := isOwn_of_call hs (List.mem_singleton_self c)
  have hcaller := mem_callersOf_of_call hs (List.mem_singleton_self c)
  obtain ⟨hplan, -, hdown⟩ := frame_of_section hs
  have hup₁ : r₁.isShutDown = false := (hdown (by rintro rfl; cases hown)).trans hup
  have hlease₁ : ∃ lease, r₁.leaseDeadline s.now = some lease := by
    rw [leaseDeadline, hplan]
    exact hlease
  refine ⟨h.brisk.call hs hover, ?_, h.last_le, h.le_due, fun key hkey => ?_⟩
  · have hevent : event ≠ .renewalTick := by rintro rfl; cases hs
    exact (renewalTick_of_section hs' (by simp) hup₁ hlease₁).trans
      ((renewalTick_of_section hs hevent hup hlease).trans h.tick)
  unfold Attended
  rw [callsOf_note, noteOf_key]
  by_cases hkc : c.key = key
  · refine .inr (.inr ⟨_, by rw [if_pos hkc]; rfl, ?_⟩)
    exact h.last_le
  rw [if_neg hkc]
  have hold₁ : (r₁.entryFor? key).isSome = true :=
    (entry_of_section hs' hkey).resolve_right (by simp)
  have hold : (s.replicator.entryFor? key).isSome = true :=
    (entry_of_section hs hold₁).resolve_right (by rintro ⟨_, rfl⟩; cases hown)
  rcases h.attended key hold with hpending | ⟨n, hn, hnkey⟩ | hcalled
  · left
    exact isPending_of_callEnded (hrun.sound.section hs) hs' hcaller
      (fun _ => Ne.symm hkc) (isPending_of_own hs hown hpending)
  · obtain ⟨n₁, hn₁, -, hkey₁⟩ := renewal_kept hs hup hlease hrun.sound hn (hnkey ▸ hold)
      (fun _ hevent => by rw [hevent] at hown; cases hown)
    have hsound₁ := hrun.sound.section hs
    obtain ⟨n', hn', -, hkey'⟩ := renewal_kept hs' hup₁ hlease₁ hsound₁ hn₁
      (hkey₁ ▸ hnkey ▸ hold₁) (fun ok hevent => by
        -- the renewal whose call has ended is one of the key that was called
        have hnumber := (Event.callEnded.inj hevent).1
        rw [hnumber] at hcaller
        rcases mem_callersOf.mp hcaller with ⟨_, _, _, _, heq⟩ | ⟨n₂, hn₂, hkey₂, -, heq⟩
        · cases heq
        · obtain rfl := hsound₁.eq_of_number hn₁ hn₂ (Caller.renewal.inj heq)
          exact hkc (hkey₂.symm.trans (hkey₁.trans hnkey)))
    exact .inr (.inl ⟨n', hn', hkey'.trans (hkey₁.trans hnkey)⟩)
  · exact .inr (.inr hcalled)

/-- A call in progress that returns is one too many. -/
theorem Brisk.not_returned {r r' : Replicator α} (h : Brisk r) {now : Int} {caller : Caller}
    {ok : Bool} (hstep : r.step now (.callEnded caller ok) = some (r', [])) : False := by
  cases caller with
  | delivery g =>
    obtain ⟨d, hd, hcalling, -⟩ := endAttempt_of_step hstep
    rcases h.deliveries d (mem_of_delivery? hd) with hready | hqueued
    · rw [hready] at hcalling; cases hcalling
    · rw [hqueued] at hcalling; cases hcalling
  | renewal i =>
    obtain ⟨n, hn, hcalling, -⟩ := finishRenewal_of_step hstep
    rw [h.renewals n (mem_of_renewal? hn)] at hcalling
    cases hcalling

theorem Run.onTime (h : Run plan since conduct past s)
    (hconduct : ∀ key heard, conduct key heard = .atOnce true)
    (hreach : Reaches plan since s.now) (hup : ∀ x ∈ past, x.2 ≠ .go .shutDown) :
    ∃ due, OnTime plan due s := by
  induction h with
  | start => exact ⟨_, OnTime.start plan since⟩
  | @next past s s' deed hpast hact ih =>
    have hacts := acts_of_act hact
    have hreach₀ := hreach.earlier hacts.now_le
    have hup₀ : ∀ x ∈ past, x.2 ≠ .go .shutDown := fun x hx => hup x (List.mem_cons_of_mem _ hx)
    obtain ⟨due, hon⟩ := ih hreach₀ hup₀
    obtain ⟨hdown, -⟩ := hpast.tracked hreach₀ hup₀
    obtain ⟨_, hrun, -⟩ := hpast.history
    have hlease : ∃ lease, s.replicator.leaseDeadline s.now = some lease := by
      rw [leaseDeadline, hrun.plan_eq]
      exact hreach₀ s.now hpast.since_le (Int.le_refl _)
    cases hacts with
    | waited hsettled hle htimers => exact ⟨due, hon.wait hpast hsettled hle htimers⟩
    | went hend hstep => exact hon.went hpast hlease hdown (section_of_step hstep) hend
    | called hstep hmanner hover =>
      obtain rfl : true = _ := Manner.atOnce.inj ((hconduct _ _).symm.trans hmanner)
      exact ⟨due, hon.called hpast hlease hdown (section_of_step hstep) hover⟩
    | began _ hmanner => exact absurd (hconduct _ _) (hmanner true)
    | returned _ _ _ _ hstep => exact (Brisk.not_returned hon.brisk hstep).elim

/-- What has been registered for and not been forgotten since has an entry. -/
theorem Run.entry_of_registered {later earlier : List (Clocked α × Deed α)} {s₀ : Clocked α}
    {key : String} {action : α}
    (h : Run plan since conduct (later ++ (s₀, .go (.register key action)) :: earlier) s)
    (hkept : ∀ x ∈ later, x.2 ≠ .go (.forget key)) :
    (s.replicator.entryFor? key).isSome = true := by
  induction later generalizing s with
  | nil =>
    cases h with
    | next hpast hact =>
      cases acts_of_act hact with
      | went _ hstep =>
        cases hstep
        rw [entryFor?_register, if_pos rfl]
        rfl
      | called hstep => cases hstep
      | began hstep => cases hstep
  | cons x rest ih =>
    cases h with
    | @next _ s₁ _ deed hpast hact =>
      have hold := ih hpast fun x hx => hkept x (List.mem_cons_of_mem _ hx)
      have hdeed : deed ≠ .go (.forget key) := hkept _ List.mem_cons_self
      have hsection : ∀ {r r' : Replicator α} {event : Event α} {calls : List (Call α)},
          r.step s₁.now event = some (r', calls) → event ≠ .forget key →
          (r.entryFor? key).isSome = true → (r'.entryFor? key).isSome = true := by
        intro r r' event calls hstep hevent hentry
        obtain ⟨e, he⟩ := Option.isSome_iff_exists.mp hentry
        obtain ⟨e', he', -⟩ := lane_of_section (section_of_step hstep) hevent he
        rw [he']
        rfl
      cases acts_of_act hact with
      | waited => exact hold
      | went _ hstep => exact hsection hstep (fun he => hdeed (he ▸ rfl)) hold
      | called hstep _ hover =>
        exact hsection hover (by simp) (hsection hstep (fun he => hdeed (he ▸ rfl)) hold)
      | began hstep => exact hsection hstep (fun he => hdeed (he ▸ rfl)) hold
      | returned _ _ _ _ hstep => exact hsection hstep (by simp) hold

/-- **A lease that is renewed never lapses.** As long as calls succeed at once and the calendar
reaches their leases, every call of a key gets a lease that runs for the expiration period from the
instant of the call, so the leases of a key do not go back; and at every instant between the
registration of a key and the shut-down, unless the key has been forgotten, the latest lease passed
to a call of the key, with what is due at that instant done, ends later. -/
theorem lease_never_lapses {renewal expiration : Nat} (h : Run plan since conduct past s)
    (hrenewal : plan.renewal = .ofMillis renewal)
    (hexpiration : plan.expiration = .ofMillis expiration)
    (hconduct : ∀ key heard, conduct key heard = .atOnce true)
    (hreach : Reaches plan since s.now) (hup : ∀ x ∈ past, x.2 ≠ .go .shutDown) (key : String) :
    (∀ c ∈ s.callsOf key, c.lease.millis = c.time + expiration) ∧
      (s.callsOf key).Pairwise (fun later earlier => earlier.lease.millis ≤ later.lease.millis) ∧
      ∀ later s₀ action earlier, past = later ++ (s₀, .go (.register key action)) :: earlier →
        (∀ x ∈ later, x.2 ≠ .go (.forget key)) → s.isSettled = true →
        ∃ c rest, s.callsOf key = c :: rest ∧ s.now < c.lease.millis := by
  obtain ⟨hcalls, hordered⟩ := h.calls key
  have hmillis : ∀ c ∈ s.callsOf key, c.lease.millis = c.time + expiration := by
    intro c hc
    have hlease := ReplicationPlan.millis_of_leaseDeadline (hcalls c hc).1
    rwa [hexpiration, Duration.wholeMillis_ofMillis] at hlease
  refine ⟨hmillis, ?_, ?_⟩
  · refine hordered.imp_of_mem fun hc hc' hle => ?_
    rw [hmillis _ hc, hmillis _ hc']
    omega
  · rintro later s₀ action earlier rfl hkept hsettled
    obtain ⟨due, hon⟩ := h.onTime hconduct hreach hup
    obtain ⟨hdeliveries, hrenewals, hdue⟩ := hon.at_rest h hsettled
    have hentry := h.entry_of_registered hkept
    have hlt : renewal < expiration := by
      have hnanos := plan.renewal_lt
      rw [hrenewal, hexpiration] at hnanos
      simpa [Duration.ofMillis] using hnanos
    rcases hon.attended key hentry with hpending | ⟨n, hn, -⟩ | ⟨c, hc, hle⟩
    · -- somebody would still be trying
      obtain ⟨⟨g, retrying⟩, hp⟩ :=
        Option.isSome_iff_exists.mp ((isPending_eq_true_iff _ key).mp hpending)
      obtain ⟨-, htracked⟩ := h.tracked hreach hup
      cases retrying with
      | true =>
        obtain ⟨d, hd, -⟩ := htracked.trying key g hp
        rw [hdeliveries] at hd
        cases hd
      | false => exact absurd hp (hon.brisk.marks key g)
    · rw [hrenewals] at hn
      cases hn
    · cases hall : s.callsOf key with
      | nil => rw [hall] at hc; cases hc
      | cons c' rest =>
        rw [hall] at hc
        obtain rfl : c' = c := Option.some.inj hc
        refine ⟨c', rest, rfl, ?_⟩
        have hlease := hmillis c' (hall ▸ List.mem_cons_self)
        rw [hrenewal, Duration.timerMillis_ofMillis] at hle
        omega

/-- The periods that a replicator has by default. -/
def usualPlan : ReplicationPlan where
  renewal := .ofMillis 5000
  expiration := .ofMillis 10000
  recovery := .ofMillis 15000
  retry := .standard
  renewal_pos := by decide
  recovery_pos := by decide
  renewal_lt := by decide
  expiration_le := by decide

/-- A write that is registered between two ticks is called there and then and renewed at the next
tick, so that two seconds later its lease has eight seconds to go. -/
theorem lease_never_lapses_between_ticks :
    ∃ (past : List (Clocked Nat × Deed Nat)) (s : Clocked Nat),
      Run usualPlan 0 (fun _ _ => .atOnce true) past s ∧ s.isSettled = true ∧ s.now = 7000 ∧
        (∃ s₀, (s₀, .go (.register "k" 1)) ∈ past) ∧
        ∃ c rest, s.callsOf "k" = c :: rest ∧ c.time = 5000 ∧ c.lease.millis = 15000 ∧
          s.now < c.lease.millis := by
  obtain ⟨past, s, hrun, hdeeds, hp⟩ := exists_run_of_replay usualPlan 0
    (fun _ _ => .atOnce true)
    [.wait 3000, .go (.register "k" 1), .go (.resume (.delivery 1)), .go (.resume (.delivery 1)),
      .wait 5000, .go .renewalTick, .go (.resume (.renewal 0)), .wait 7000]
    (fun _ s => s.isSettled && s.now == 7000 && (s.callsOf "k").map (·.time) == [5000, 3000])
    (by decide)
  simp only [Bool.and_eq_true, beq_iff_eq] at hp
  obtain ⟨⟨hsettled, hnow⟩, htimes⟩ := hp
  obtain ⟨later, _, hpast, hlater, htail⟩ := List.map_eq_append_iff.mp
    (show past.map (·.2) = [.wait 7000, .go (.resume (.renewal 0)), .go .renewalTick, .wait 5000,
      .go (.resume (.delivery 1)), .go (.resume (.delivery 1))] ++
        [.go (.register "k" 1), .wait 3000] from hdeeds)
  obtain ⟨⟨s₀, _⟩, earlier, rfl, hdeed, -⟩ := List.map_eq_cons_iff.mp htail
  cases hdeed
  have hmem : ∀ x ∈ past, x.2 ∈ past.map (·.2) := fun x hx => List.mem_map_of_mem hx
  obtain ⟨hmillis, -, hlease⟩ := lease_never_lapses hrun
    (show usualPlan.renewal = .ofMillis 5000 from rfl)
    (show usualPlan.expiration = .ofMillis 10000 from rfl) (fun _ _ => rfl)
    (reaches_of_bounds (by decide) (by rw [hnow]; decide))
    (fun x hx hshut => by
      have hx := hmem x hx
      rw [hdeeds, hshut] at hx
      simp at hx)
    "k"
  obtain ⟨c, rest, hcalls, hlt⟩ := hlease later s₀ 1 earlier hpast
    (fun x hx hforget => by
      have hx := List.mem_map_of_mem (f := (·.2)) hx
      rw [hlater, hforget] at hx
      simp at hx)
    hsettled
  rw [hcalls] at htimes
  have htime : c.time = 5000 := (List.cons.inj htimes).1
  have hmillis := hmillis c (hcalls ▸ List.mem_cons_self)
  rw [htime] at hmillis
  exact ⟨past, s, hrun, hsettled, hnow, ⟨s₀, hpast ▸ by simp⟩, c, rest, hcalls, htime, hmillis, hlt⟩

/-- A plan that has passed the checks, although its leases end beyond the calendar. -/
def farPlan : ReplicationPlan where
  renewal := .ofMillis 5000
  expiration := .ofMillis 10000000000000000
  recovery := .ofMillis 15000
  retry := .standard
  renewal_pos := by decide
  recovery_pos := by decide
  renewal_lt := by decide
  expiration_le := by decide

/-- A write whose lease would end beyond the calendar is not called, although every call would
succeed at once: no lease of its key is ever passed on. -/
theorem lease_beyond_calendar :
    ∃ (past : List (Clocked Nat × Deed Nat)) (s : Clocked Nat),
      Run farPlan 1700000000000 (fun _ _ => .atOnce true) past s ∧
        (∀ x ∈ past, x.2 ≠ .go .shutDown) ∧ (∀ x ∈ past, x.2 ≠ .go (.forget "k")) ∧
        (∃ s₀, (s₀, .go (.register "k" 1)) ∈ past) ∧ s.isSettled = true ∧
        s.callsOf "k" = [] := by
  obtain ⟨past, s, hrun, hdeeds, hp⟩ := exists_run_of_replay farPlan 1700000000000
    (fun _ _ => .atOnce true)
    [.go (.register "k" 1), .go (.resume (.delivery 1)), .go (.resume (.delivery 1))]
    (fun _ s => s.isSettled && (s.callsOf "k").isEmpty)
    (by decide)
  simp only [Bool.and_eq_true, List.isEmpty_iff] at hp
  obtain ⟨hsettled, hcalls⟩ := hp
  have hnot : ∀ deed ∉ past.map (·.2), ∀ x ∈ past, x.2 ≠ deed := fun deed hdeed x hx heq =>
    hdeed (heq ▸ List.mem_map_of_mem (f := (·.2)) hx)
  have hregistered : .go (.register "k" 1) ∈ past.map (·.2) := by rw [hdeeds]; simp
  obtain ⟨⟨s₀, _⟩, hmem, rfl⟩ := List.mem_map.mp hregistered
  refine ⟨past, s, hrun, hnot _ ?_, hnot _ ?_, ⟨s₀, hmem⟩, hsettled, hcalls⟩
  · rw [hdeeds]; simp
  · rw [hdeeds]; simp

end Clocked

end Floodgate.Replicator
