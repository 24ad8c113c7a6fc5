import Floodgate.Proofs.Replication.Clock
/-!
# Floodgate.Proofs.Replication.Calm

**Runs in which only requests and calls do anything.** In a calm run no loop ticks and nothing is
shut down. Then there are no renewals, a delivery is there until it ends by itself
(`delivery_kept`), and the notes are exact: the calls that are noted as in progress are those of the
deliveries that are calling, none of them is late, and a call that has returned did so at the
instant and in the way that were laid down when it started (`Noted`).
-/

namespace Floodgate.Replicator

variable {α : Type} {r r' : Replicator α} {now : Int} {event : Event α} {calls : List (Call α)}

/-- Whether an event has to do with neither the loops nor the shut-down. -/
def Event.isCalm : Event α → Bool
  | .renewalTick | .recoveryTick | .shutDown | .stopRenewals | .stopRecovery => false
  | _ => true

def Deed.isCalm : Deed α → Bool
  | .go event => event.isCalm
  | .wait _ | .finish _ => true

/-! ### One section -/

/-- Renewals come from ticks. -/
theorem renewals_of_calm (hs : Section r now event r' calls) (hcalm : event.isCalm = true)
    (hnil : r.renewals = []) : r'.renewals = [] := by
  cases hs with
  | registered key action => exact (r.register_frame key action).2.1.trans hnil
  | forgotten key => rw [forget_eq]; exact hnil
  | flushed => exact r.flush_frame.2.1.trans hnil
  | @died d =>
    obtain ⟨_, _, _, -, hperish⟩ := r.perish_eq_drop d.generation
    rw [hperish]
    exact hnil
  | renewalGone =>
    show r.renewals.filter _ = []
    rw [hnil, List.filter_nil]
  | renewalDied => rfl
  | renewed =>
    show r.renewals.map _ = []
    rw [hnil, List.map_nil]
  | renewalOver =>
    show r.renewals.filter _ = []
    rw [hnil, List.filter_nil]
  | renewalTicked => cases hcalm
  | recoveryTicked => cases hcalm
  | renewalsStopped => cases hcalm
  | _ => exact hnil

theorem withdrawn_eq (p : Option Pending) (d : Delivery α) :
    withdrawn p d = { d with cancelled := (withdrawn p d).cancelled } := by
  unfold withdrawn
  split <;> rfl

/-- A delivery that a section is not about is still there afterwards, but it may have been
cancelled. -/
theorem delivery_kept (hs : Section r now event r' calls) (hcalm : event.isCalm = true)
    (hlease : ∃ lease, r.leaseDeadline now = some lease) {d : Delivery α} (hd : d ∈ r.deliveries)
    (hother : event.isOf d.generation = false) :
    ∃ d' ∈ r'.deliveries, d' = { d with cancelled := d'.cancelled } := by
  have hregister : ∀ (r₁ : Replicator α) (key : String) (action : α),
      (∃ d' ∈ r₁.deliveries, d' = { d with cancelled := d'.cancelled }) →
      ∃ d' ∈ (r₁.register key action).1.deliveries, d' = { d with cancelled := d'.cancelled } := by
    rintro r₁ key action ⟨d', hd', heq⟩
    rw [deliveries_register]
    refine ⟨_, List.mem_append_left _ (List.mem_map_of_mem hd'), ?_⟩
    rw [withdrawn_eq, heq]
  have hupdate : ∀ {g : Nat} (f : Delivery α → Delivery α), d.generation ≠ g →
      ∃ d' ∈ (r.updateDelivery g f).deliveries, d' = { d with cancelled := d'.cancelled } :=
    fun f hne => ⟨d, mem_updateDelivery.mpr ⟨d, hd, (if_neg hne).symm⟩, rfl⟩
  have hne : ∀ {g : Nat}, decide (g = d.generation) = false → d.generation ≠ g :=
    fun h heq => of_decide_eq_false h heq.symm
  cases hs with
  | registered key action => exact hregister r key action ⟨d, hd, rfl⟩
  | forgotten key =>
    rw [forget_eq]
    exact ⟨_, List.mem_map_of_mem hd, withdrawn_eq _ d⟩
  | flushed =>
    refine flush_induction (motive := fun r₁ => ∃ d' ∈ r₁.deliveries,
      d' = { d with cancelled := d'.cancelled }) ?_ r ⟨d, hd, rfl⟩
    exact fun r₁ key _ action h _ => hregister r₁ key action h
  | ended => exact ⟨d, mem_finish.mpr ⟨hd, hne hother⟩, rfl⟩
  | queued => exact hupdate (inStage .queued) (hne hother)
  | died _ _ _ _ hnone =>
    exact absurd hnone (Option.ne_none_iff_exists'.mpr hlease)
  | called => exact hupdate (inStage .calling) (hne hother)
  | woken => exact hupdate (inStage .ready) (hne hother)
  | delivered => exact ⟨d, mem_finish.mpr ⟨hd, hne hother⟩, rfl⟩
  | retried => exact hupdate (inBackoff _ _) (hne hother)
  | abandoned => exact ⟨d, mem_finish.mpr ⟨hd, hne hother⟩, rfl⟩
  | renewalTicked => cases hcalm
  | recoveryTicked => cases hcalm
  | shutDown => cases hcalm
  | recoveryStopped => cases hcalm
  | _ => exact ⟨d, hd, rfl⟩

/-- What a delivery that is calling does next is to return. -/
theorem isOf_of_calling (hs : Section r now event r' calls) (hsound : Sound r)
    (hend : event.endsCall = false) {d : Delivery α} (hd : d ∈ r.deliveries)
    (hcalling : d.stage = .calling) : event.isOf d.generation = false := by
  have hother : ∀ {d₀ : Delivery α}, r.delivery? d₀.generation = some d₀ → d₀.stage ≠ .calling →
      decide (d₀.generation = d.generation) = false := by
    intro d₀ hd₀ hstage
    refine decide_eq_false fun hg => hstage ?_
    rw [hsound.eq_of_generation (mem_of_delivery? hd₀) hd hg]
    exact hcalling
  cases hs with
  | ended hd₀ hstage => exact hother hd₀ hstage
  | queued hd₀ hstage => exact hother hd₀ (by simp [hstage])
  | died hd₀ hstage => exact hother hd₀ (by simp [hstage])
  | called hd₀ hstage => exact hother hd₀ (by simp [hstage])
  | woken hd₀ hstage => exact hother hd₀ (by simp [hstage])
  | delivered => cases hend
  | retried => cases hend
  | abandoned => cases hend
  | _ => rfl

/-- A call that starts where there are no renewals is that of a delivery. -/
theorem delivery_of_call (hs : Section r now event r' calls) (hnil : r.renewals = []) {c : Call α}
    (hc : c ∈ calls) : ∃ d, r.delivery? d.generation = some d ∧ d.stage = .queued ∧
      r.holds d.lane (.delivery d.generation) = true ∧ d.cancelled = false ∧
      r.leaseDeadline now = some c.lease ∧ c = ⟨.delivery d.generation, d.key, d.action, c.lease⟩ ∧
      event = .resume (.delivery d.generation) ∧
      r' = { r.updateDelivery d.generation (inStage .calling) with
        inFlight := r.inFlight + 1 } := by
  cases hs with
  | @called d lease hd hqueued hholds hlive hlease =>
    obtain rfl := List.mem_singleton.mp hc
    exact ⟨d, hd, hqueued, hholds, hlive, hlease, rfl, rfl, rfl⟩
  | renewed hn => exact absurd hn (renewal?_ne_of_nil hnil)
  | _ => exact absurd hc List.not_mem_nil

/-- A delivery that is calling goes on calling when another call ends. -/
theorem calling_kept {caller : Caller} {ok : Bool}
    (hs : Section r now (.callEnded caller ok) r' calls)
    (hlease : ∃ lease, r.leaseDeadline now = some lease) {d : Delivery α} (hd : d ∈ r.deliveries)
    (hcalling : d.stage = .calling) (hother : caller ≠ .delivery d.generation) :
    ∃ d' ∈ r'.deliveries, d'.stage = .calling ∧ d'.generation = d.generation ∧ d'.key = d.key := by
  have hof : (Event.callEnded caller ok : Event α).isOf d.generation = false := by
    cases caller with
    | delivery g => exact decide_eq_false fun hg => hother (hg ▸ rfl)
    | renewal i => rfl
  obtain ⟨d', hd', heq⟩ := delivery_kept hs rfl hlease hd hof
  exact ⟨d', hd', heq ▸ hcalling, heq ▸ rfl, heq ▸ rfl⟩

/-- Who is calling when a call has ended was calling before, and it was another call. -/
theorem calling_of_callEnded {caller : Caller} {ok : Bool} (hsound : Sound r)
    (hs : Section r now (.callEnded caller ok) r' calls) {d' : Delivery α}
    (hd' : d' ∈ r'.deliveries) (hcalling : d'.stage = .calling) :
    ∃ d ∈ r.deliveries, d.stage = .calling ∧ Follows d d' ∧
      caller ≠ .delivery d.generation := by
  cases delivery_of_section hsound hs hd' with
  | fresh _ _ hready => rw [hready] at hcalling; cases hcalling
  | @kept d hd hfollows _ hold hevent =>
    exact ⟨d, hd, hold hcalling, hfollows, fun hc => hevent ok (hc ▸ rfl)⟩
  | called _ _ _ _ hevent => cases hevent
  | failed _ _ _ hidle => exact absurd hcalling hidle

/-! ### The notes -/

theorem Manner.le_of_ends {m : Manner} {due : Int} {ok : Bool} (h : m.ends now = some (due, ok)) :
    now ≤ due := by
  cases m with
  | atOnce => cases h; exact Int.le_refl _
  | lasting millis => cases h; omega
  | hanging => cases h

namespace Clocked

variable {plan : ReplicationPlan} {since : Int} {conduct : Conduct α}
  {past : List (Clocked α × Deed α)} {s s' : Clocked α} {deed : Deed α}

/-- The notes are exact. -/
structure Noted (s : Clocked α) : Prop where
  /-- A call that is noted as in progress is that of a delivery that is calling. -/
  open_calling : ∀ n ∈ s.notes, n.returned = none → ∃ d ∈ s.replicator.deliveries,
    d.stage = .calling ∧ n.caller = .delivery d.generation ∧ n.key = d.key
  /-- The call of a delivery that is calling is noted. -/
  calling_open : ∀ d ∈ s.replicator.deliveries, d.stage = .calling →
    ∃ n ∈ s.notes, n.returned = none ∧ n.caller = .delivery d.generation
  /-- A delivery calls once at a time. -/
  unique : ∀ n ∈ s.notes, ∀ n' ∈ s.notes, n.returned = none → n'.returned = none →
    n.caller = n'.caller → n.record = n'.record
  /-- A call in progress is not late. -/
  in_time : ∀ n ∈ s.notes, n.returned = none → ∀ due ok, n.record.ends = some (due, ok) →
    s.now ≤ due
  /-- A call has returned as it was to. -/
  closed : ∀ n ∈ s.notes, ∀ how, n.returned = some how → n.record.ends = some how ∧ how.1 ≤ s.now

/-- A call that is noted as in progress is. -/
theorem Noted.mem_inProgress (h : Noted s) {n : CallNote α} (hn : n ∈ s.notes)
    (hopen : n.returned = none) : n ∈ s.inProgress := by
  obtain ⟨d, hd, hcalling, hcaller, -⟩ := h.open_calling n hn hopen
  refine List.mem_filter.mpr ⟨hn, ?_⟩
  simp only [hopen, Option.isNone_none, Bool.true_and, hcaller, isCalling, List.any_eq_true,
    Bool.and_eq_true, beq_iff_eq]
  exact ⟨d, hd, rfl, hcalling⟩

theorem Noted.wait (h : Noted s) {later : Int} (hle : s.now ≤ later)
    (htimers : ∀ t ∈ s.timers, later ≤ t) : Noted { s with now := later } where
  open_calling := h.open_calling
  calling_open := h.calling_open
  unique := h.unique
  in_time n hn hopen due ok hends := by
    refine htimers due (List.mem_append_right _ (List.mem_filterMap.mpr ?_))
    exact ⟨n, h.mem_inProgress hn hopen, by rw [hends]; rfl⟩
  closed n hn how hreturned := by
    obtain ⟨hends, hle'⟩ := h.closed n hn how hreturned
    exact ⟨hends, Int.le_trans hle' hle⟩

/-- A section that neither starts a call nor ends one. -/
theorem Noted.went (h : Noted s) (hsound : Sound s.replicator)
    (hlease : ∃ lease, s.replicator.leaseDeadline s.now = some lease) {event : Event α}
    {r' : Replicator α} (hs : Section s.replicator s.now event r' [])
    (hend : event.endsCall = false) (hcalm : event.isCalm = true) :
    Noted { s with replicator := r' } where
  open_calling n hn hopen := by
    obtain ⟨d, hd, hcalling, hcaller, hkey⟩ := h.open_calling n hn hopen
    obtain ⟨d', hd', heq⟩ := delivery_kept hs hcalm hlease hd
      (isOf_of_calling hs hsound hend hd hcalling)
    exact ⟨d', hd', heq ▸ hcalling, heq ▸ hcaller, heq ▸ hkey⟩
  calling_open d' hd' hcalling := by
    cases delivery_of_section hsound hs hd' with
    | fresh _ _ hready => rw [hready] at hcalling; cases hcalling
    | kept hd hfollows _ hold =>
      rw [hfollows.generation]
      exact h.calling_open _ hd (hold hcalling)
    | called _ _ _ _ _ hcalls => cases hcalls
    | failed _ _ _ hidle => exact absurd hcalling hidle
  unique := h.unique
  in_time := h.in_time
  closed := h.closed

/-- What a section that starts a call does to the calls that are noted as in progress. -/
theorem Noted.start (h : Noted s) (hsound : Sound s.replicator)
    (hnil : s.replicator.renewals = []) {event : Event α} {r' : Replicator α} {c : Call α}
    (hs : Section s.replicator s.now event r' [c]) :
    (∀ n ∈ s.notes, n.returned = none → n.caller ≠ c.caller ∧ ∃ d ∈ r'.deliveries,
      d.stage = .calling ∧ n.caller = .delivery d.generation ∧ n.key = d.key) ∧
    (∀ d ∈ r'.deliveries, d.stage = .calling → c.caller = .delivery d.generation ∨
      ∃ n ∈ s.notes, n.returned = none ∧ n.caller = .delivery d.generation) ∧
    ∃ d ∈ r'.deliveries, d.stage = .calling ∧ c.caller = .delivery d.generation ∧
      c.key = d.key := by
  obtain ⟨d₀, hd₀, hqueued, -, -, -, hc, hevent, hr'⟩ :=
    delivery_of_call hs hnil (List.mem_singleton_self c)
  have hd₀ := mem_of_delivery? hd₀
  refine ⟨fun n hn hopen => ?_, fun d' hd' hcalling => ?_, ?_⟩
  · obtain ⟨d, hd, hcalling, hcaller, hkey⟩ := h.open_calling n hn hopen
    have hother : d.generation ≠ d₀.generation := by
      intro hg
      rw [hsound.eq_of_generation hd hd₀ hg, hqueued] at hcalling
      cases hcalling
    refine ⟨?_, d, ?_, hcalling, hcaller, hkey⟩
    · rw [hcaller, hc]
      exact fun heq => hother (Caller.delivery.inj heq)
    · rw [hr']
      exact mem_updateDelivery.mpr ⟨d, hd, (if_neg hother).symm⟩
  · cases delivery_of_section hsound hs hd' with
    | fresh _ _ hready => rw [hready] at hcalling; cases hcalling
    | kept hd hfollows _ hold =>
      rw [hfollows.generation]
      exact .inr (h.calling_open _ hd (hold hcalling))
    | called _ hfollows _ _ _ hcalls =>
      rw [hfollows.generation]
      exact .inl (by rw [(List.cons.inj hcalls).1])
    | failed _ _ _ hidle => exact absurd hcalling hidle
  · refine ⟨inStage .calling d₀, ?_, rfl, by rw [hc]; rfl, by rw [hc]; rfl⟩
    rw [hr']
    exact mem_updateDelivery.mpr ⟨d₀, hd₀, (if_pos rfl).symm⟩

/-- A section starts a call that goes on. -/
theorem Noted.began (h : Noted s) (hsound : Sound s.replicator)
    (hnil : s.replicator.renewals = []) {event : Event α} {r' : Replicator α} {c : Call α}
    (hs : Section s.replicator s.now event r' [c]) :
    Noted { s with replicator := r', notes := s.noteOf conduct c none :: s.notes } := by
  obtain ⟨hopen, hcalling, d₀, hd₀, hcalling₀, hcaller₀, hkey₀⟩ := h.start hsound hnil hs
  constructor
  · refine List.forall_mem_cons.mpr ⟨fun _ => ⟨d₀, hd₀, hcalling₀, hcaller₀, hkey₀⟩, ?_⟩
    exact fun n hn hnone => (hopen n hn hnone).2
  · intro d hd hstage
    rcases hcalling d hd hstage with hcaller | ⟨n, hn, hnone, hcaller⟩
    · exact ⟨_, List.mem_cons_self, rfl, hcaller⟩
    · exact ⟨n, List.mem_cons_of_mem _ hn, hnone, hcaller⟩
  · intro n hn n' hn' hnone hnone' hsame
    rcases List.mem_cons.mp hn with rfl | hn
    · rcases List.mem_cons.mp hn' with rfl | hn'
      · rfl
      · exact absurd hsame.symm (hopen n' hn' hnone').1
    · rcases List.mem_cons.mp hn' with rfl | hn'
      · exact absurd hsame (hopen n hn hnone).1
      · exact h.unique n hn n' hn' hnone hnone' hsame
  · exact List.forall_mem_cons.mpr ⟨fun _ _ _ hends => Manner.le_of_ends hends, h.in_time⟩
  · exact List.forall_mem_cons.mpr ⟨(fun _ hreturned => by cases hreturned), h.closed⟩

/-- A note that is open after a return was open before, and it was not that of the call that has
returned. -/
theorem mem_notes_of_return {caller : Caller} {how : Int × Bool} {n' : CallNote α}
    (hn' : n' ∈ s.notes.map (CallNote.return caller how)) (hopen : n'.returned = none) :
    n' ∈ s.notes ∧ n'.caller ≠ caller := by
  obtain ⟨n, hn, rfl⟩ := List.mem_map.mp hn'
  unfold CallNote.return at hopen ⊢
  split at hopen
  · cases hopen
  · rename_i hother
    exact ⟨by rwa [if_neg hother], by rw [if_neg hother]; exact fun hc => hother ⟨hc, hopen⟩⟩

theorem mem_return_of_ne {caller : Caller} {how : Int × Bool} {n : CallNote α} (hn : n ∈ s.notes)
    (hother : n.caller ≠ caller) : n ∈ s.notes.map (CallNote.return caller how) :=
  List.mem_map.mpr ⟨n, hn, if_neg fun h => hother h.1⟩

/-- A call in progress returns. -/
theorem Noted.returned (h : Noted s) (hsound : Sound s.replicator)
    (hlease : ∃ lease, s.replicator.leaseDeadline s.now = some lease) {n : CallNote α} {due : Int}
    {ok : Bool} {r' : Replicator α} (hn : n ∈ s.notes) (hnone : n.returned = none)
    (hends : n.record.ends = some (due, ok)) (hdue : due ≤ s.now)
    (hs : Section s.replicator s.now (.callEnded n.caller ok) r' []) :
    Noted { s with
      replicator := r', notes := s.notes.map (CallNote.return n.caller (s.now, ok)) } := by
  constructor
  · intro n' hn' hopen
    obtain ⟨hn', hother⟩ := mem_notes_of_return hn' hopen
    obtain ⟨d, hd, hstage, hcaller, hkey⟩ := h.open_calling n' hn' hopen
    obtain ⟨d', hd', hstage', hg, hkey'⟩ := calling_kept hs hlease hd hstage
      (fun heq => hother (hcaller.trans heq.symm))
    exact ⟨d', hd', hstage', hg ▸ hcaller, hkey.trans hkey'.symm⟩
  · intro d' hd' hstage'
    obtain ⟨d, hd, hstage, hfollows, hother⟩ := calling_of_callEnded hsound hs hd' hstage'
    obtain ⟨n', hn', hopen, hcaller⟩ := h.calling_open d hd hstage
    refine ⟨n', mem_return_of_ne hn' fun heq => hother (heq ▸ hcaller), hopen, ?_⟩
    rw [hfollows.generation]
    exact hcaller
  · intro n₁ hn₁ n₂ hn₂ hopen₁ hopen₂ hsame
    exact h.unique n₁ (mem_notes_of_return hn₁ hopen₁).1 n₂ (mem_notes_of_return hn₂ hopen₂).1
      hopen₁ hopen₂ hsame
  · exact fun n' hn' hopen => h.in_time n' (mem_notes_of_return hn' hopen).1 hopen
  · intro n' hn' how hreturned
    obtain ⟨n₀, hn₀, rfl⟩ := List.mem_map.mp hn'
    rw [(return_fields _ _ n₀).2.2]
    unfold CallNote.return at hreturned
    split at hreturned
    · rename_i hsame
      cases hreturned
      -- the call was due, and none is late, so it returns at the very instant laid down
      have hnow : due = s.now := Int.le_antisymm hdue (h.in_time n hn hnone due ok hends)
      rw [h.unique n₀ hn₀ n hn hsame.2 hnone hsame.1, hends, hnow]
      exact ⟨rfl, Int.le_refl _⟩
    · exact h.closed n₀ hn₀ how hreturned

/-- A call that is over where it starts has started and returned. -/
theorem Noted.called_eq (h : Noted s) (hsound : Sound s.replicator)
    (hnil : s.replicator.renewals = []) {event : Event α} {r₁ r' : Replicator α} {c : Call α}
    {ok : Bool} (hs : Section s.replicator s.now event r₁ [c]) :
    ({ s with
      replicator := r', notes := s.noteOf conduct c (some (s.now, ok)) :: s.notes } : Clocked α) =
    { s with
      replicator := r',
      notes := (s.noteOf conduct c none :: s.notes).map
        (CallNote.return c.caller (s.now, ok)) } := by
  have hopen := (h.start hsound hnil hs).1
  have hfirst : (s.noteOf conduct c none).return c.caller (s.now, ok) =
      s.noteOf conduct c (some (s.now, ok)) := if_pos ⟨rfl, rfl⟩
  -- nobody else notes an open call of this caller
  have hrest : s.notes.map (CallNote.return c.caller (s.now, ok)) = s.notes := by
    refine (List.map_congr_left fun n hn => ?_).trans (List.map_id _)
    exact if_neg fun hsame => (hopen n hn hsame.2).1 hsame.1
  rw [List.map_cons, hfirst, hrest]

/-! ### Calm runs -/

/-- What holds of a replicator on a clock as long as no loop has ticked, it has not been shut down,
and the calendar reaches its leases. -/
structure Fit (plan : ReplicationPlan) (s : Clocked α) : Prop where
  plan_eq : s.replicator.plan = plan
  sound : Sound s.replicator
  lined : Lined s.replicator
  lanes : Lanes s.replicator
  tracked : Tracked s.replicator
  noted : Noted s
  renewals : s.replicator.renewals = []
  up : s.replicator.isShutDown = false
  lease : ∃ lease, plan.leaseDeadline s.now = some lease

theorem Fit.leaseDeadline (h : Fit plan s) :
    ∃ lease, s.replicator.leaseDeadline s.now = some lease := by
  rw [Replicator.leaseDeadline, h.plan_eq]
  exact h.lease

/-- Whatever the notes are afterwards, if they are exact. -/
theorem Fit.section (h : Fit plan s) {event : Event α} {r' : Replicator α} {calls : List (Call α)}
    {notes : List (CallNote α)} (hs : Section s.replicator s.now event r' calls)
    (hcalm : event.isCalm = true)
    (hnoted : Noted { s with replicator := r', notes := notes }) :
    Fit plan { s with replicator := r', notes := notes } where
  plan_eq := (frame_of_section hs).1.trans h.plan_eq
  sound := h.sound.section hs
  lined := h.lined.section h.sound hs
  lanes := h.lanes.section h.sound hs
  tracked := by
    refine h.tracked.section h.sound h.up hs (by rintro rfl; cases hcalm) ?_
    rintro ⟨_, -, -, -, -, hnone⟩
    obtain ⟨lease, hsome⟩ := h.leaseDeadline
    rw [hsome] at hnone
    cases hnone
  noted := hnoted
  renewals := renewals_of_calm hs hcalm h.renewals
  up := ((frame_of_section hs).2.2 (by rintro rfl; cases hcalm)).trans h.up
  lease := h.lease

theorem Fit.went (h : Fit plan s) {event : Event α} {r' : Replicator α}
    (hs : Section s.replicator s.now event r' []) (hend : event.endsCall = false)
    (hcalm : event.isCalm = true) : Fit plan { s with replicator := r' } :=
  h.section hs hcalm (h.noted.went h.sound h.leaseDeadline hs hend hcalm)

theorem Fit.began (h : Fit plan s) (conduct : Conduct α) {event : Event α} {r' : Replicator α}
    {c : Call α}
    (hs : Section s.replicator s.now event r' [c]) (hcalm : event.isCalm = true) :
    Fit plan { s with replicator := r', notes := s.noteOf conduct c none :: s.notes } :=
  h.section hs hcalm (h.noted.began h.sound h.renewals hs)

theorem Fit.returned (h : Fit plan s) {n : CallNote α} {due : Int} {ok : Bool}
    {r' : Replicator α} (hn : n ∈ s.notes) (hnone : n.returned = none)
    (hends : n.record.ends = some (due, ok)) (hdue : due ≤ s.now)
    (hs : Section s.replicator s.now (.callEnded n.caller ok) r' []) :
    Fit plan { s with
      replicator := r', notes := s.notes.map (CallNote.return n.caller (s.now, ok)) } :=
  h.section hs rfl (h.noted.returned h.sound h.leaseDeadline hn hnone hends hdue hs)

/-- How a call that is over where it starts is to end. -/
theorem ends_of_atOnce {c : Call α} {ok : Bool} (hmanner : s.manner conduct c = .atOnce ok) :
    (s.noteOf conduct c none).record.ends = some (s.now, ok) := by
  show (s.manner conduct c).ends s.now = _
  rw [hmanner]
  rfl

theorem Fit.called (h : Fit plan s) {event : Event α} {r₁ r' : Replicator α} {c : Call α}
    {ok : Bool} (hs : Section s.replicator s.now event r₁ [c]) (hcalm : event.isCalm = true)
    (hmanner : s.manner conduct c = .atOnce ok)
    (hover : Section r₁ s.now (.callEnded c.caller ok) r' []) :
    Fit plan { s with
      replicator := r', notes := s.noteOf conduct c (some (s.now, ok)) :: s.notes } := by
  rw [h.noted.called_eq h.sound h.renewals hs]
  exact (h.began conduct hs hcalm).returned List.mem_cons_self rfl
    (ends_of_atOnce hmanner) (Int.le_refl _) hover

theorem Run.fit (h : Run plan since conduct past s) (hcalm : ∀ x ∈ past, x.2.isCalm = true)
    (hreach : Reaches plan since s.now) : Fit plan s := by
  induction h with
  | start =>
    have hlease := hreach since (Int.le_refl _) (Int.le_refl _)
    have hrun : Replicator.Run plan since [] (.start plan since : Replicator α) := .start
    refine ⟨rfl, hrun.sound, hrun.lined, hrun.lanes, ?_, ?_, rfl, rfl, hlease⟩
    · have hstart : Run plan since conduct [] (.start plan since) := .start
      exact (hstart.tracked hreach fun _ hx => absurd hx List.not_mem_nil).2
    · constructor <;> simp [Clocked.start, Replicator.start]
  | @next past s s' deed hpast hact ih =>
    have hacts := acts_of_act hact
    have hfit := ih (fun x hx => hcalm x (List.mem_cons_of_mem _ hx))
      (hreach.earlier hacts.now_le)
    have hdeed : deed.isCalm = true := hcalm _ List.mem_cons_self
    cases hacts with
    | waited _ hle htimers =>
      have hlease := hreach _ (Int.le_trans hpast.since_le hle) (Int.le_refl _)
      exact ⟨hfit.plan_eq, hfit.sound, hfit.lined, hfit.lanes, hfit.tracked,
        hfit.noted.wait hle htimers, hfit.renewals, hfit.up, hlease⟩
    | went hend hstep => exact hfit.went (section_of_step hstep) hend hdeed
    | called hstep hmanner hover =>
      exact hfit.called (section_of_step hstep) hdeed hmanner (section_of_step hover)
    | began hstep => exact hfit.began conduct (section_of_step hstep) hdeed
    | returned hn hnone hends hdue hstep =>
      exact hfit.returned hn hnone hends hdue (section_of_step hstep)

end Clocked

end Floodgate.Replicator
