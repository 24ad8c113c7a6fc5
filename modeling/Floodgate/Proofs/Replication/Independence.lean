import Floodgate.Proofs.Replication.KeyShown
/-!
# Floodgate.Proofs.Replication.Independence

**Keys are independent.** The deliveries of all keys share the entries, the numbering of
generations, the count of attempts in flight and the flushes. Still, in two calm runs in which the
same is asked of a key at the same times, and its calls go the same way, the same calls of the key
are made and return at the same instants, with the same leases, and the key is pending at the same
time, whatever else is asked and however the calls of other keys go (`keys_independent`). The reason
is that both runs show the same view of the key (`Run.onPath`), which goes one way only
(`Path.unique`).

It takes a calendar that reaches the leases. A delivery whose lease would end beyond it dies with
all that its task delivers, and the task of a flush delivers many keys: one key can then keep
another from being called (`flush_dies_of_another_key`).
-/

namespace Floodgate.Replicator

variable {α : Type} {key : String}

/-- What an event asks of a replicator that has to do with a key. -/
def Event.request? (key : String) : Event α → Option (Request α)
  | .register k action => if k = key then some (.register action) else none
  | .forget k => if k = key then some .forget else none
  | .flush => some .flush
  | _ => none

def Deed.request? (key : String) : Deed α → Option (Request α)
  | .go event => event.request? key
  | .wait _ | .finish _ => none

namespace Clocked

variable {plan : ReplicationPlan} {since : Int} {conduct : Conduct α}
  {past : List (Clocked α × Deed α)} {s s' : Clocked α} {deed : Deed α} {v : KeyView α}

/-- Whether a key is at rest: none of its deliveries can go on now, and none of its calls is due. -/
def isIdle (s : Clocked α) (key : String) : Bool :=
  (s.replicator.deliveries.all fun d => !(d.key = key) ||
      (s.replicator.step s.now (.resume (.delivery d.generation))).isNone) &&
    s.inProgress.all fun n => !(n.key = key) || !n.isDue s.now

/-- Whether a call is in progress on the lane of a key. -/
def isTaken (s : Clocked α) (key : String) : Bool :=
  (s.replicator.entryFor? key).any fun e =>
    s.replicator.deliveries.any fun d => d.lane = e.lane && d.stage = .calling

/-- The place of what is asked now among what the key does at this instant. -/
def placeOf (s : Clocked α) (key : String) : Place :=
  if s.isIdle key then none
  else some ((s.callsOf key).countP fun c => c.time = s.now, s.isTaken key)

/-- What has been asked for that has to do with a key, the last first. -/
def requests (key : String) (past : List (Clocked α × Deed α)) : List (Asked α) :=
  past.filterMap fun (s, deed) => (deed.request? key).map fun q => ⟨s.now, s.placeOf key, q⟩

theorem isIdle_iff : s.isIdle key = true ↔
    (∀ d ∈ s.replicator.deliveries, d.key = key →
      s.replicator.step s.now (.resume (.delivery d.generation)) = none) ∧
    ∀ n ∈ s.inProgress, n.key = key → n.isDue s.now = false := by
  simp [isIdle, imp_iff_not_or]

/-! ### At rest -/

/-- The view of a key has nothing to do at an instant if no delivery of the key can go on now, no
retry delay has run out by then, and no call of the key is due by then. -/
theorem Shows.next_eq_none (h : Shows s key v) (hfit : Fit plan s) {t : Int}
    (hstuck : ∀ d ∈ s.replicator.deliveries, d.key = key →
      s.replicator.step s.now (.resume (.delivery d.generation)) = none)
    (hbackoff : ∀ d ∈ s.replicator.deliveries, d.key = key → d.cancelled = false →
      ∀ until_, d.stage = .backoff until_ → t < until_)
    (hends : ∀ n ∈ s.notes, n.returned = none → n.key = key →
      ∀ due ok, n.record.ends = some (due, ok) → t < due)
    (conduct : List (α × Int) → Manner) : v.next plan conduct t = none := by
  cases he : s.replicator.entryFor? key with
  | none =>
    obtain ⟨hwrite, hlane⟩ := h.absent he
    simp only [KeyView.next, hwrite, hlane]
  | some e =>
    obtain ⟨⟨p, hwrite, hgetting⟩, hshows⟩ := h.present e he
    have honlane : ∀ d ∈ s.replicator.deliveries, d.lane = e.lane → d.key = key :=
      fun d hd hlane => hfit.lanes.one_key e.lane d.key key (.inr (.inl ⟨d, hd, hlane, rfl⟩))
        (.inl ⟨e, mem_of_entryFor? he, rfl, entryFor?_key he⟩)
    cases hlane : v.lane with
    | some ends =>
      -- who holds the lane is a delivery of the key, whose call is not due by then
      obtain ⟨d, hd, hdlane, hcalling⟩ := hshows.free (by rw [hlane]; rfl)
      obtain ⟨n, hn, hopen, hcaller⟩ := hfit.noted.calling_open d hd hcalling
      have hsame := hshows.taken d hd hdlane hcalling n hn hopen hcaller
      rw [hlane] at hsame
      obtain rfl := Option.some.inj hsame
      obtain ⟨d₁, hd₁, -, hcaller₁, hkey₁⟩ := hfit.noted.open_calling n hn hopen
      have hg := Caller.delivery.inj (hcaller.symm.trans hcaller₁)
      rw [← hfit.sound.eq_of_generation hd hd₁ hg, honlane d hd hdlane] at hkey₁
      cases hn_ends : n.record.ends with
      | none => simp only [KeyView.next, hlane, hn_ends]
      | some how =>
        obtain ⟨due, ok⟩ := how
        have hlt := hends n hn hopen hkey₁ due ok hn_ends
        simp only [KeyView.next, hlane, hn_ends, Int.not_le.mpr hlt, if_false]
    | none =>
      -- only a write that waits could go on, and its delivery would have to
      cases p with
      | waiting failures from_ =>
        obtain ⟨g, hp, hall⟩ := hgetting
        obtain ⟨d, hd, rfl, hkey, hlive⟩ :=
          hfit.tracked.trying key g (by rw [pendingOf, he]; exact hp)
        obtain ⟨e₁, he₁, -, hdlane, -⟩ := hfit.sound.live d hd hlive
        rw [hkey, he] at he₁
        obtain rfl := Option.some.inj he₁
        have hfound := hfit.sound.delivery?_of_mem hd
        have hnone := hstuck d hd hkey
        obtain ⟨-, ⟨hready | hqueued, -⟩ | hstage⟩ := hall d hd rfl
        · rw [step_queued hfound hready hlive] at hnone
          cases hnone
        · -- somebody is first in line, and can go on
          have hline : ∃ c ∈ s.replicator.claims, c.lane = d.lane :=
            ⟨place d, (hfit.lined _).mpr (.inl ⟨d, hd, .inl hqueued, rfl⟩), rfl⟩
          rcases hfit.lined.first_in_line hfit.lanes hline (.inr (.inl ⟨d, hd, rfl, hkey⟩)) with
            ⟨d₀, hd₀, hlane₀, hkey₀, hqueued₀ | hcalling₀, -, hholds⟩ | ⟨n, hn, -⟩
          · have hsome := isSome_step_of_holds s.now
              (hfit.sound.delivery?_of_mem hd₀) hqueued₀ hholds
            rw [hstuck d₀ hd₀ hkey₀] at hsome
            cases hsome
          · obtain ⟨n, hn, hopen, hcaller⟩ := hfit.noted.calling_open d₀ hd₀ hcalling₀
            have htaken := hshows.taken d₀ hd₀ (hlane₀.trans hdlane.symm) hcalling₀ n hn hopen
              hcaller
            rw [hlane] at htaken
            cases htaken
          · rw [hfit.renewals] at hn
            cases hn
        · have hlt := hbackoff d hd hkey hlive from_ hstage
          simp only [KeyView.next, hlane, hwrite, Int.not_le.mpr hlt, if_false]
      | _ => simp only [KeyView.next, hlane, hwrite]

/-- A key that is at rest shows a view that is. -/
theorem Shows.quiet (h : Shows s key v) (hfit : Fit plan s) (hidle : s.isIdle key = true)
    (conduct : List (α × Int) → Manner) : v.next plan conduct s.now = none := by
  obtain ⟨hstuck, hdue⟩ := isIdle_iff.mp hidle
  refine h.next_eq_none hfit hstuck ?_ ?_ conduct
  · intro d hd hkey _ until_ hstage
    refine Int.not_le.mp fun hle => ?_
    have hnone := hstuck d hd hkey
    rw [step_woken (hfit.sound.delivery?_of_mem hd) hstage (.inr hle)] at hnone
    cases hnone
  · intro n hn hopen hkey due ok hends
    refine Int.not_le.mp fun hle => ?_
    have hnot := hdue n (hfit.noted.mem_inProgress hn hopen) hkey
    rw [isDue_iff.mpr ⟨hopen, due, ok, hends, hle⟩] at hnot
    cases hnot

/-- As long as time passes the view has nothing to do. -/
theorem Shows.quiet_while (h : Shows s key v) (hfit : Fit plan s) (hsettled : s.isSettled = true)
    {later t : Int} (htimers : ∀ t ∈ s.timers, later ≤ t) (ht : t < later)
    (conduct : List (α × Int) → Manner) : v.next plan conduct t = none := by
  refine h.next_eq_none hfit (fun d hd _ => resume_of_isSettled hsettled hd) ?_ ?_ conduct
  · intro d hd _ hlive until_ hstage
    have hmem : until_ ∈ s.timers := by
      simp only [Clocked.timers, Replicator.timers, List.mem_append, List.mem_filterMap]
      refine .inl (.inl (.inl ⟨d, hd, ?_⟩))
      simp [hstage, hlive]
    exact Int.lt_of_lt_of_le ht (htimers until_ hmem)
  · intro n hn hopen _ due ok hends
    have hmem : due ∈ s.timers := List.mem_append_right _ (List.mem_filterMap.mpr
      ⟨n, hfit.noted.mem_inProgress hn hopen, by rw [hends]; rfl⟩)
    exact Int.lt_of_lt_of_le ht (htimers due hmem)

theorem Shows.wait (h : Shows s key v) {later : Int} (hle : s.now ≤ later) :
    Shows { s with now := later } key v where
  calls := h.calls
  absent := h.absent
  present e he := by
    obtain ⟨⟨p, hwrite, hgetting⟩, hlane⟩ := h.present e he
    refine ⟨⟨p, hwrite, ?_⟩, hlane.taken, hlane.free⟩
    cases p with
    | waiting failures from_ =>
      obtain ⟨g, hp, hall⟩ := hgetting
      refine ⟨g, hp, fun d hd hg => ?_⟩
      obtain ⟨hf, hwaits⟩ := hall d hd hg
      exact ⟨hf, hwaits.imp_left fun ⟨hon, hfrom⟩ => ⟨hon, Int.le_trans hfrom hle⟩⟩
    | _ => exact hgetting

/-- The view is where the key is at this instant. -/
theorem Shows.isAt (h : Shows s key v) (hfit : Fit plan s) (conduct : List (α × Int) → Manner) :
    Spot.isAt plan conduct ⟨s.now, v⟩ (s.placeOf key) := by
  unfold placeOf
  split
  · rename_i hidle
    exact h.quiet hfit hidle conduct
  · refine ⟨?_, ?_⟩
    · show v.calls.countP _ = _
      rw [h.calls]
    · show v.lane.isSome = s.isTaken key
      unfold isTaken
      cases he : s.replicator.entryFor? key with
      | none => rw [(h.absent he).2]; rfl
      | some e =>
        have hlane := (h.present e he).2
        rw [Option.any_some, Bool.eq_iff_iff]
        simp only [List.any_eq_true, Bool.and_eq_true, decide_eq_true_eq]
        refine ⟨hlane.free, fun ⟨d, hd, hdlane, hcalling⟩ => ?_⟩
        obtain ⟨n, hn, hopen, hcaller⟩ := hfit.noted.calling_open d hd hcalling
        rw [hlane.taken d hd hdlane hcalling n hn hopen hcaller]
        rfl

/-! ### The way of a key -/

theorem Shows.asked (h : Shows s key v) (hfit : Fit plan s) {event : Event α} {r' : Replicator α}
    (hstep : s.replicator.step s.now event = some (r', [])) {q : Request α}
    (hq : event.request? key = some q) :
    Shows { s with replicator := r' } key (v.ask s.now q) := by
  cases event with
  | register k action =>
    by_cases hk : k = key
    · subst hk
      simp only [Event.request?, if_true, Option.some.injEq] at hq
      subst hq
      cases hstep
      exact h.register hfit action
    · simp [Event.request?, hk] at hq
  | forget k =>
    by_cases hk : k = key
    · subst hk
      simp only [Event.request?, if_true, Option.some.injEq] at hq
      subst hq
      cases hstep
      exact h.forget
    · simp [Event.request?, hk] at hq
  | flush =>
    cases hq
    cases hstep
    exact h.flush hfit
  | _ => cases hq

theorem Shows.unasked (h : Shows s key v) (hfit : Fit plan s) {event : Event α}
    {r' : Replicator α} (hstep : s.replicator.step s.now event = some (r', []))
    (hend : event.endsCall = false) (hcalm : event.isCalm = true)
    (hq : event.request? key = none) : Shows { s with replicator := r' } key v := by
  have hs := section_of_step hstep
  have hother : r'.entryFor? key = s.replicator.entryFor? key →
      (∀ g, event.isOf g = false) → Shows { s with replicator := r' } key v := fun hentry hof =>
    h.undisturbed (Undisturbed.of_section hfit.sound hfit.lanes hs hcalm hfit.leaseDeadline hentry
      (fun d _ _ => hof d.generation) fun _ _ d _ _ _ => hof d.generation)
  cases event with
  | register k action =>
    have hk : key ≠ k := by rintro rfl; simp [Event.request?] at hq
    cases hstep
    exact hother ((entryFor?_register ..).trans (if_neg hk)) fun _ => rfl
  | forget k =>
    have hk : key ≠ k := by rintro rfl; simp [Event.request?] at hq
    cases hstep
    exact hother ((entryFor?_forget ..).trans (if_neg hk)) fun _ => rfl
  | flush => cases hq
  | resume caller =>
    exact h.undisturbed
      (Undisturbed.of_resume hfit.sound hfit.tracked hfit.renewals hfit.leaseDeadline hs)
  | callEnded => cases hend
  | _ => cases hcalm

/-- A key shows a view that is on the way on which it was asked for the listed things. -/
def OnPath (plan : ReplicationPlan) (since : Int) (conduct : Conduct α) (key : String)
    (asked : List (Asked α)) (s : Clocked α) : Prop :=
  ∃ v, Shows s key v ∧ Path plan (conduct key) since asked ⟨s.now, v⟩

variable {asked : List (Asked α)}

theorem OnPath.wait (h : OnPath plan since conduct key asked s) (hfit : Fit plan s)
    (hsettled : s.isSettled = true) {later : Int} (hle : s.now ≤ later)
    (htimers : ∀ t ∈ s.timers, later ≤ t) :
    OnPath plan since conduct key asked { s with now := later } := by
  obtain ⟨v, hshows, hpath⟩ := h
  exact ⟨v, hshows.wait hle, hpath.wait hle fun t _ hlt =>
    hshows.quiet_while hfit hsettled htimers hlt (conduct key)⟩

/-- A call of the key that starts is the step of the view; one of another key is not to be seen. -/
theorem OnPath.began (h : OnPath plan since conduct key asked s) (hfit : Fit plan s)
    {event : Event α} {r' : Replicator α} {c : Call α}
    (hs : Section s.replicator s.now event r' [c]) (hcalm : event.isCalm = true) :
    OnPath plan since conduct key asked
      { s with replicator := r', notes := s.noteOf conduct c none :: s.notes } := by
  obtain ⟨v, hshows, hpath⟩ := h
  by_cases hkey : c.key = key
  · obtain ⟨v', hnext, hshows'⟩ := hshows.began hfit conduct hs hkey
    exact ⟨v', hshows', hpath.next hnext⟩
  · exact ⟨v, hshows.began_other hfit hs hcalm hkey, hpath⟩

theorem OnPath.returned (h : OnPath plan since conduct key asked s) (hfit : Fit plan s)
    {n : CallNote α} {due : Int} {ok : Bool} {r' : Replicator α} (hn : n ∈ s.notes)
    (hopen : n.returned = none) (hends : n.record.ends = some (due, ok)) (hdue : due ≤ s.now)
    (hstep : s.replicator.step s.now (.callEnded n.caller ok) = some (r', [])) :
    OnPath plan since conduct key asked
      { s with replicator := r', notes := s.notes.map (CallNote.return n.caller (s.now, ok)) } := by
  obtain ⟨v, hshows, hpath⟩ := h
  obtain ⟨v', hv', hshows'⟩ := hshows.returned hfit hn hopen hends hdue hstep (conduct key)
  rcases hv' with rfl | hnext
  · exact ⟨v', hshows', hpath⟩
  · exact ⟨v', hshows', hpath.next hnext⟩

theorem requests_of_none (h : deed.request? key = none) :
    requests key ((s, deed) :: past) = requests key past := by
  simp [requests, h]

/-- What starts a call is not asked for. -/
theorem request?_of_call (hnil : s.replicator.renewals = []) {event : Event α}
    {r' : Replicator α} {c : Call α} (hs : Section s.replicator s.now event r' [c]) :
    (Deed.go event).request? key = none := by
  obtain ⟨_, -, -, -, -, -, -, rfl, -⟩ := delivery_of_call hs hnil (List.mem_singleton_self c)
  rfl

/-- In a calm run a key shows a view that goes the way on which it is asked for what the key is
asked for. -/
theorem Run.onPath (h : Run plan since conduct past s) (hcalm : ∀ x ∈ past, x.2.isCalm = true)
    (hreach : Reaches plan since s.now) (key : String) :
    OnPath plan since conduct key (requests key past) s := by
  induction h with
  | start => exact ⟨_, Shows.start plan since key, .start⟩
  | @next past s s' deed hpast hact ih =>
    have hacts := acts_of_act hact
    have hcalm₀ : ∀ x ∈ past, x.2.isCalm = true := fun x hx => hcalm x (List.mem_cons_of_mem _ hx)
    have hreach₀ := hreach.earlier hacts.now_le
    have hon := ih hcalm₀ hreach₀
    have hfit := hpast.fit hcalm₀ hreach₀
    have hdeed : deed.isCalm = true := hcalm _ List.mem_cons_self
    cases hacts with
    | waited hsettled hle htimers =>
      rw [requests_of_none rfl]
      exact hon.wait hfit hsettled hle htimers
    | @went event r' hend hstep =>
      obtain ⟨v, hshows, hpath⟩ := hon
      cases hq : event.request? key with
      | some q =>
        have hasked : requests key ((s, .go event) :: past) =
            ⟨s.now, s.placeOf key, q⟩ :: requests key past := by
          simp [requests, Deed.request?, hq]
        rw [hasked]
        exact ⟨_, hshows.asked hfit hstep hq, hpath.ask q (hshows.isAt hfit (conduct key))⟩
      | none =>
        rw [requests_of_none (show (Deed.go event).request? key = none from hq)]
        exact ⟨v, hshows.unasked hfit hstep hend hdeed hq, hpath⟩
    | called hstep hmanner hover =>
      have hs := section_of_step hstep
      rw [requests_of_none (request?_of_call hfit.renewals hs),
        hfit.noted.called_eq hfit.sound hfit.renewals hs]
      exact (hon.began hfit hs hdeed).returned (hfit.began conduct hs hdeed) List.mem_cons_self rfl
        (ends_of_atOnce hmanner) (Int.le_refl _) hover
    | began hstep =>
      have hs := section_of_step hstep
      rw [requests_of_none (request?_of_call hfit.renewals hs)]
      exact hon.began hfit hs hdeed
    | returned hn hopen hends hdue hstep =>
      rw [requests_of_none rfl]
      exact hon.returned hfit hn hopen hends hdue hstep

/-! ### What is seen of a key -/

/-- At rest a call has returned if it was to end by now. -/
theorem Noted.timeline (h : Noted s) (hidle : s.isIdle key = true) :
    s.timeline key = (s.callsOf key).map fun c =>
      (c.action, c.time, c.lease, c.ends.filter (·.1 ≤ s.now)) := by
  unfold Clocked.timeline callsOf
  rw [List.map_map]
  refine List.map_congr_left fun n hn => ?_
  obtain ⟨hn, hkey⟩ := List.mem_filter.mp hn
  have hreturned : n.returned = n.record.ends.filter (·.1 ≤ s.now) := by
    cases hopen : n.returned with
    | some how =>
      obtain ⟨hends, hle⟩ := h.closed n hn how hopen
      simp [hends, Option.filter, hle]
    | none =>
      have hnot := (isIdle_iff.mp hidle).2 n (h.mem_inProgress hn hopen) (of_decide_eq_true hkey)
      cases hends : n.record.ends with
      | none => rfl
      | some how =>
        have hlt : ¬ how.1 ≤ s.now := fun hle => by
          rw [isDue_iff.mpr ⟨hopen, how.1, how.2, hends, hle⟩] at hnot
          cases hnot
        simp [Option.filter, hlt]
  simp only [Function.comp_apply, hreturned]

theorem Shows.isPending (h : Shows s key v) :
    s.replicator.isPending key = v.write.any fun w => w.2 ≠ .delivered := by
  unfold Replicator.isPending
  cases he : s.replicator.entryFor? key with
  | none => rw [(h.absent he).1]; rfl
  | some e =>
    obtain ⟨⟨p, hwrite, hgetting⟩, -⟩ := h.present e he
    rw [hwrite]
    exact hgetting.isSome_pending

/-- **Keys are independent.** In two runs of replicators with one plan, in which neither loop ticks
and nothing is shut down, and whose leases the calendar reaches: if what is asked for that has to do
with a key is the same and comes at the same times, and if the calls of the key go the same way,
then at every instant, with what is due at that instant done, the calls of the key have been the
same, at the same times, with the same leases and the same returns, and the key is pending in both
or in neither. -/
theorem keys_independent {conduct₁ conduct₂ : Conduct α}
    {past₁ past₂ : List (Clocked α × Deed α)} {s₁ s₂ : Clocked α} {key : String}
    (h₁ : Run plan since conduct₁ past₁ s₁) (h₂ : Run plan since conduct₂ past₂ s₂)
    (hcalm₁ : ∀ x ∈ past₁, x.2.isCalm = true) (hcalm₂ : ∀ x ∈ past₂, x.2.isCalm = true)
    (hreach : Reaches plan since s₁.now) (hconduct : conduct₁ key = conduct₂ key)
    (hasked : requests key past₁ = requests key past₂) (hnow : s₁.now = s₂.now)
    (hidle₁ : s₁.isIdle key = true) (hidle₂ : s₂.isIdle key = true) :
    s₁.timeline key = s₂.timeline key ∧
      s₁.replicator.isPending key = s₂.replicator.isPending key := by
  obtain ⟨v₁, hshows₁, hpath₁⟩ := h₁.onPath hcalm₁ hreach key
  obtain ⟨v₂, hshows₂, hpath₂⟩ := h₂.onPath hcalm₂ (hnow ▸ hreach) key
  have hfit₁ := h₁.fit hcalm₁ hreach
  have hfit₂ := h₂.fit hcalm₂ (hnow ▸ hreach)
  -- both views are on the way of the same requests, and at rest at the same instant
  rw [← hconduct, ← hasked] at hpath₂
  have hspots := Path.unique hpath₁ hpath₂ hnow (hshows₁.quiet hfit₁ hidle₁ _)
    (hshows₂.quiet hfit₂ hidle₂ _)
  obtain ⟨-, hviews⟩ := Spot.mk.inj hspots
  constructor
  · rw [hfit₁.noted.timeline hidle₁, hfit₂.noted.timeline hidle₂, hshows₁.calls, hshows₂.calls,
      hviews, hnow]
  · rw [hshows₁.isPending, hshows₂.isPending, hviews]

theorem isCalm_of_deeds {deeds : List (Deed α)} (h : past.map (·.2) = deeds)
    (hall : deeds.all (·.isCalm) = true) : ∀ x ∈ past, x.2.isCalm = true := by
  subst h
  exact fun x hx => List.all_eq_true.mp hall x.2 (List.mem_map_of_mem hx)

/-- A delivery goes on so many times. -/
def resumed (generation count : Nat) : List (Deed Nat) :=
  .replicate count (.go (.resume (.delivery generation)))

/-- A first call that fails after five milliseconds, and then one that succeeds at once. -/
def failingOnce : List (Nat × Int) → Manner
  | [_] => .lasting 5 false
  | _ => .atOnce true

/-- A write is called at the same times, and its calls return at the same times, whether or not
another key has a call that hangs. -/
theorem keys_independent_beside_hanging_call :
    ∃ (past₁ past₂ : List (Clocked Nat × Deed Nat)) (s₁ s₂ : Clocked Nat),
      Run briskPlan 0 (fun _ => failingOnce) past₁ s₁ ∧
        Run briskPlan 0 (fun key => if key = "k" then failingOnce else fun _ => .hanging) past₂ s₂ ∧
        (s₁.callsOf "a" = [] ∧ (s₂.timeline "a").map (·.2.2.2) = [none]) ∧
        requests "k" past₁ = [⟨0, none, .register 1⟩] ∧
        requests "k" past₂ = [⟨0, none, .register 1⟩] ∧
        (s₁.timeline "k").map (fun c => (c.2.1, c.2.2.2)) =
          [(15, some (15, true)), (0, some (5, false))] ∧
        s₁.timeline "k" = s₂.timeline "k" ∧
        s₁.replicator.isPending "k" = s₂.replicator.isPending "k" := by
  obtain ⟨past₁, s₁, h₁, hdeeds₁, hp₁⟩ := exists_run_of_replay briskPlan 0 (fun _ => failingOnce)
    ([.go (.register "k" 1)] ++ resumed 1 2 ++ [.wait 5, .finish (.delivery 1), .wait 15] ++
      resumed 1 3)
    (fun past s => s.isIdle "k" && s.now == 15 && (s.callsOf "a").isEmpty &&
      decide (requests "k" past = [⟨0, none, .register 1⟩]) &&
      (s.timeline "k").map (fun c => (c.2.1, c.2.2.2)) ==
        [(15, some (15, true)), (0, some (5, false))])
    (by decide)
  obtain ⟨past₂, s₂, h₂, hdeeds₂, hp₂⟩ := exists_run_of_replay briskPlan 0
    (fun key => if key = "k" then failingOnce else fun _ => .hanging)
    ([.go (.register "a" 9), .go (.register "k" 1)] ++ resumed 1 2 ++ resumed 2 2 ++
      [.wait 5, .finish (.delivery 2), .wait 15] ++ resumed 2 3)
    (fun past s => s.isIdle "k" && s.now == 15 && (s.timeline "a").map (·.2.2.2) == [none] &&
      decide (requests "k" past = [⟨0, none, .register 1⟩]))
    (by decide)
  simp only [Bool.and_eq_true, beq_iff_eq, decide_eq_true_eq, List.isEmpty_iff] at hp₁ hp₂
  obtain ⟨⟨⟨⟨hidle₁, hnow₁⟩, hcalls₁⟩, hasked₁⟩, htimeline⟩ := hp₁
  obtain ⟨⟨⟨hidle₂, hnow₂⟩, hhangs⟩, hasked₂⟩ := hp₂
  have hsame := keys_independent h₁ h₂ (isCalm_of_deeds hdeeds₁ rfl)
    (isCalm_of_deeds hdeeds₂ rfl)
    (reaches_of_bounds (by decide) (by rw [hnow₁]; decide)) rfl (hasked₁.trans hasked₂.symm)
    (hnow₁.trans hnow₂.symm) hidle₁ hidle₂
  exact ⟨past₁, past₂, s₁, s₂, h₁, h₂, ⟨hcalls₁, hhangs⟩, hasked₁, hasked₂, htimeline, hsame⟩

/-- Each call of one key fails at once; the third call of any other key succeeds in 100
milliseconds, the ones before fail at once. -/
def failingTwice : Conduct Nat := fun key heard =>
  if key = "a" then .atOnce false
  else if heard.length ≤ 2 then .atOnce false else .lasting 100 true

/-- A write, and a flush 45 milliseconds later. -/
def asksTwice : List (Asked Nat) :=
  [⟨1700000000045, none, .flush⟩, ⟨1700000000000, none, .register 2⟩]

/-- A flush that delivers two keys dies with the delivery of one, whose retry would have a lease
that ends beyond the calendar, and with it goes the call of the other key that is in progress.
Without the one key the call returns and the write is delivered. -/
theorem flush_dies_of_another_key :
    ∃ (past₁ past₂ : List (Clocked Nat × Deed Nat)) (s₁ s₂ : Clocked Nat),
      Run nearPlan 1700000000000 failingTwice past₁ s₁ ∧
        Run nearPlan 1700000000000 failingTwice past₂ s₂ ∧
        (∀ x ∈ past₁, x.2.isCalm = true) ∧ (∀ x ∈ past₂, x.2.isCalm = true) ∧
        requests "k" past₁ = requests "k" past₂ ∧ s₁.now = s₂.now ∧
        s₁.isIdle "k" = true ∧ s₂.isIdle "k" = true ∧
        s₁.timeline "k" ≠ s₂.timeline "k" ∧
        s₁.replicator.isPending "k" = true ∧ s₂.replicator.isPending "k" = false := by
  obtain ⟨past₁, s₁, h₁, hdeeds₁, hp₁⟩ := exists_run_of_replay nearPlan 1700000000000 failingTwice
    ([.go (.register "a" 1), .go (.register "k" 2)] ++ resumed 1 2 ++ resumed 2 2 ++
      [.wait 1700000000010] ++ resumed 1 3 ++ resumed 2 3 ++
      [.wait 1700000000045, .go .flush] ++ resumed 3 2 ++ resumed 4 2 ++
      [.wait 1700000000055] ++ resumed 3 3 ++ [.wait 1700000000200])
    (fun past s => s.isIdle "k" && s.now == 1700000000200 && s.replicator.isPending "k" &&
      decide (requests "k" past = asksTwice) &&
      (s.timeline "k").map (·.2.2.2.isSome) == [false, true, true])
    (by decide +kernel)
  obtain ⟨past₂, s₂, h₂, hdeeds₂, hp₂⟩ := exists_run_of_replay nearPlan 1700000000000 failingTwice
    ([.go (.register "k" 2)] ++ resumed 1 2 ++ [.wait 1700000000010] ++ resumed 1 3 ++
      [.wait 1700000000045, .go .flush] ++ resumed 2 2 ++
      [.wait 1700000000145, .finish (.delivery 2), .wait 1700000000200])
    (fun past s => s.isIdle "k" && s.now == 1700000000200 && !s.replicator.isPending "k" &&
      decide (requests "k" past = asksTwice) &&
      (s.timeline "k").map (·.2.2.2.isSome) == [true, true, true])
    (by decide +kernel)
  simp only [Bool.and_eq_true, beq_iff_eq, decide_eq_true_eq, Bool.not_eq_true'] at hp₁ hp₂
  obtain ⟨⟨⟨⟨hidle₁, hnow₁⟩, hpending₁⟩, hasked₁⟩, hreturned₁⟩ := hp₁
  obtain ⟨⟨⟨⟨hidle₂, hnow₂⟩, hpending₂⟩, hasked₂⟩, hreturned₂⟩ := hp₂
  refine ⟨past₁, past₂, s₁, s₂, h₁, h₂, isCalm_of_deeds hdeeds₁ rfl, isCalm_of_deeds hdeeds₂ rfl,
    hasked₁.trans hasked₂.symm, hnow₁.trans hnow₂.symm, hidle₁, hidle₂, fun hsame => ?_, hpending₁,
    hpending₂⟩
  rw [hsame, hreturned₂] at hreturned₁
  cases hreturned₁

end Clocked

end Floodgate.Replicator
