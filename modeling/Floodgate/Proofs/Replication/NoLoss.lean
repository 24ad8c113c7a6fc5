import Floodgate.Proofs.Replication.Pending
/-!
# Floodgate.Proofs.Replication.NoLoss

**No write is lost unless a delivery panics.** As long as a replicator is up, the latest write of a
key has been delivered, or is being delivered, or has been given up by the retry policy and is
taken up by the next flush (`Run.keepsWrites`). Which of the three it is, the pending mark of the
key says. The exception is an attempt that comes when no lease fits into the calendar: the delivery
dies of it, its mark goes on saying that somebody is trying (`Moment.lost_of_panics`), and nobody
takes up the write (`Run.lost_for_good`). There is no other, so that a run keeps its writes at all
of its moments exactly if no delivery panics in it (`no_write_is_lost_iff`).

The history is accounted for by `Accounted`: how often each delivery has failed, that a delivery
that is calling has started its call since the write was registered, and what has become of the
deliveries that a mark no longer names, or names as given up. Each is carried on by what a section
does to a delivery (`DeliveryOrigin`) and to a mark (`PendingChange`).
-/

namespace Floodgate.Replicator

variable {α : Type} {r : Replicator α} {plan : ReplicationPlan} {since : Int}
  {history : List (Moment α)}

/-! ### Attempts -/

/-- Since it last started a call, of a write of a key, a delivery has not ended one. -/
def Attempting (g : Nat) (key : String) (action : α) (moments : List (Moment α)) : Prop :=
  ∃ later m earlier lease, moments = later ++ m :: earlier ∧
    m.calls = [⟨.delivery g, key, action, lease⟩] ∧ outcomes (.delivery g) later = []

/-- Some attempt at delivering a write of a key has succeeded. -/
def Delivered (key : String) (action : α) (moments : List (Moment α)) : Prop :=
  ∃ g later m earlier, moments = later ++ m :: earlier ∧
    m.event = .callEnded (.delivery g) true ∧ Attempting g key action earlier

theorem Attempting.cons {g : Nat} {key : String} {action : α} {moments : List (Moment α)}
    (h : Attempting g key action moments) (m : Moment α)
    (hm : m.event.outcome? (.delivery g) = none) : Attempting g key action (m :: moments) := by
  obtain ⟨later, start, earlier, lease, rfl, hcalls, hnone⟩ := h
  refine ⟨m :: later, start, earlier, lease, rfl, hcalls, ?_⟩
  rw [outcomes, List.filterMap_cons, hm]
  exact hnone

theorem Delivered.cons {key : String} {action : α} {moments : List (Moment α)}
    (h : Delivered key action moments) (m : Moment α) : Delivered key action (m :: moments) := by
  obtain ⟨g, later, success, earlier, rfl, hevent, hattempt⟩ := h
  exact ⟨g, m :: later, success, earlier, rfl, hevent, hattempt⟩

theorem outcomes_cons (c : Caller) (m : Moment α) (moments : List (Moment α)) :
    outcomes c (m :: moments) = (m.event.outcome? c).toList ++ outcomes c moments := by
  rw [outcomes, List.filterMap_cons]
  cases m.event.outcome? c <;> rfl

theorem outcome?_of_ne {event : Event α} {g : Nat}
    (h : ∀ ok, event ≠ .callEnded (.delivery g) ok) : event.outcome? (.delivery g) = none := by
  cases event with
  | callEnded c ok =>
    have hc : c ≠ .delivery g := by rintro rfl; exact h ok rfl
    simp [Event.outcome?, hc]
  | _ => rfl

theorem outcome?_callEnded (g : Nat) (ok : Bool) :
    (Event.callEnded (.delivery g) ok : Event α).outcome? (.delivery g) = some ok := if_pos rfl

/-- Whose call has ended was there. -/
theorem exists_of_callEnded {r' : Replicator α} {now : Int} {event : Event α}
    {calls : List (Call α)} (hs : Section r now event r' calls) {g : Nat} {ok : Bool}
    (hevent : event = .callEnded (.delivery g) ok) : ∃ d ∈ r.deliveries, d.generation = g := by
  cases hs with
  | delivered hd => cases hevent; exact ⟨_, mem_of_delivery? hd, rfl⟩
  | retried hd => cases hevent; exact ⟨_, mem_of_delivery? hd, rfl⟩
  | abandoned hd => cases hevent; exact ⟨_, mem_of_delivery? hd, rfl⟩
  | _ => cases hevent

/-! ### Accounting for a history -/

/-- What the history of a replicator says of its deliveries and its marks. -/
structure Accounted (history : List (Moment α)) (r : Replicator α) : Prop where
  /-- A generation that has not been given out has ended no call. -/
  unused : ∀ g, r.nextGeneration ≤ g → outcomes (.delivery g) history = []
  /-- All calls that an unfinished delivery has ended were failures, and it has counted them. -/
  failures : ∀ d ∈ r.deliveries,
    outcomes (.delivery d.generation) history = List.replicate d.failures false
  /-- A call in progress of a delivery that has not been cancelled has started since the write was
  registered. -/
  attempt : ∀ d ∈ r.deliveries, d.cancelled = false → d.stage = .calling →
    Attempting d.generation d.key d.action (sinceWrite d.key history)
  /-- A write without a mark has been delivered. -/
  delivered : ∀ key action, lastWrite? key history = some action → r.pendingOf key = none →
    Delivered key action (sinceWrite key history)
  /-- A delivery that has given up failed until the policy let it. -/
  abandoned : ∀ key g, r.pendingOf key = some ⟨g, false⟩ → ∃ n, 0 < n ∧
    outcomes (.delivery g) history = List.replicate n false ∧ r.plan.retry.delayAfter n = none

theorem Accounted.start : Accounted [] (.start plan since : Replicator α) where
  unused _ _ := rfl
  failures _ hd := absurd hd List.not_mem_nil
  attempt _ hd := absurd hd List.not_mem_nil
  delivered _ _ hwrite := by cases hwrite
  abandoned _ _ hp := by cases hp

section Step

variable {r' : Replicator α} {now : Int} {event : Event α} {calls : List (Call α)}

/-- Nothing is registered for a key: what has happened since its write goes on. -/
theorem sinceWrite_cons {key : String} {m : Moment α} (hm : ∀ a, m.event ≠ .register key a) :
    sinceWrite key (m :: history) = m :: sinceWrite key history := by
  have hnone : m.event.written? key = none := by
    cases hevent : m.event with
    | register k a =>
      have hk : k ≠ key := by rintro rfl; exact hm a hevent
      simp [Event.written?, hk]
    | _ => rfl
  rw [sinceWrite, List.takeWhile_cons, hnone]
  rfl

theorem Accounted.next_unused (ha : Accounted history r) (h : Sound r)
    (hs : Section r now event r' calls) (g : Nat) (hg : r'.nextGeneration ≤ g) :
    outcomes (.delivery g) (⟨r, now, event, r', calls⟩ :: history) = [] := by
  have hle : r.nextGeneration ≤ g := Nat.le_trans (frame_of_section hs).2.1 hg
  have hnone : event.outcome? (.delivery g) = none := by
    refine outcome?_of_ne fun ok hevent => ?_
    obtain ⟨d, hd, rfl⟩ := exists_of_callEnded hs hevent
    exact Nat.not_le_of_lt (h.generation_lt d hd) hle
  rw [outcomes_cons, hnone, ha.unused g hle]
  rfl

theorem Accounted.next_failures (ha : Accounted history r) (h : Sound r)
    (hs : Section r now event r' calls) (d' : Delivery α) (hd' : d' ∈ r'.deliveries) :
    outcomes (.delivery d'.generation) (⟨r, now, event, r', calls⟩ :: history) =
      List.replicate d'.failures false := by
  rw [outcomes_cons]
  cases delivery_of_section h hs hd' with
  | fresh hnew hfailures =>
    have hnone : event.outcome? (.delivery d'.generation) = none := by
      refine outcome?_of_ne fun ok hevent => ?_
      obtain ⟨d, hd, hg⟩ := exists_of_callEnded hs hevent
      exact Nat.not_le_of_lt (h.generation_lt d hd) (hg ▸ hnew)
    rw [hnone, ha.unused _ hnew, hfailures]
    rfl
  | @kept d hd hfollows hfailures _ hevent =>
    rw [hfollows.generation, outcome?_of_ne hevent, ha.failures d hd, hfailures]
    rfl
  | @called d _ hd hfollows hfailures _ hevent _ =>
    rw [hfollows.generation, hevent, ha.failures d hd, hfailures]
    rfl
  | @failed d hd hfollows hfailures _ hevent =>
    rw [hfollows.generation, hevent, outcome?_callEnded, ha.failures d hd, hfailures,
      List.replicate_succ]
    rfl

theorem Accounted.next_attempt (ha : Accounted history r) (h : Sound r)
    (hs : Section r now event r' calls) (d' : Delivery α) (hd' : d' ∈ r'.deliveries)
    (hlive : d'.cancelled = false) (hcalling : d'.stage = .calling) :
    Attempting d'.generation d'.key d'.action
      (sinceWrite d'.key (⟨r, now, event, r', calls⟩ :: history)) := by
  -- a delivery that was there would have been withdrawn by a new write of its key
  have hwritten : ∀ d ∈ r.deliveries, Follows d d' → ∀ a, event ≠ .register d'.key a := by
    rintro d hd hfollows a rfl
    obtain ⟨e, he, -, -, hpending⟩ := (h.section hs).live d' hd' hlive
    generalize hkey : d'.key = key at hs he
    cases hs
    rw [entryFor?_register, if_pos rfl] at he
    obtain rfl := Option.some.inj he
    have hg : r.nextGeneration = d'.generation :=
      (Pending.mk.inj (Option.some.inj hpending)).1
    exact Nat.ne_of_lt (h.generation_lt d hd) (hfollows.generation.symm.trans hg.symm)
  cases delivery_of_section h hs hd' with
  | fresh _ _ hready => rw [hready] at hcalling; cases hcalling
  | @kept d hd hfollows _ hold hevent =>
    rw [sinceWrite_cons (hwritten d hd hfollows), hfollows.generation, hfollows.key,
      hfollows.action]
    exact (ha.attempt d hd (hfollows.cancelled hlive) (hold hcalling)).cons _
      (outcome?_of_ne hevent)
  | @called d lease hd hfollows _ _ _ hcalls =>
    rw [sinceWrite_cons (hwritten d hd hfollows), hfollows.generation, hfollows.key,
      hfollows.action]
    exact ⟨[], _, _, lease, rfl, hcalls, rfl⟩
  | failed _ _ _ hidle => exact absurd hcalling hidle

theorem Accounted.next_delivered (ha : Accounted history r) (hrun : Run plan since history r)
    (ht : Tracked r) (hs : Section r now event r' calls) (key : String) (action : α)
    (hwrite : lastWrite? key (⟨r, now, event, r', calls⟩ :: history) = some action)
    (hp : r'.pendingOf key = none) :
    Delivered key action (sinceWrite key (⟨r, now, event, r', calls⟩ :: history)) := by
  have hlatest : event.latest key (lastWrite? key history) = some action := hwrite
  have hregister : ∀ a, event ≠ .register key a := by
    rintro a rfl
    cases hs
    rw [pendingOf_register, if_pos rfl] at hp
    cases hp
  have hforget : event ≠ .forget key := by
    rintro rfl
    simp [Event.latest] at hlatest
  have hold : lastWrite? key history = some action := by
    rw [← hlatest]
    cases event with
    | register k a =>
      have hk : k ≠ key := by rintro rfl; exact hregister a rfl
      simp [Event.latest, hk]
    | forget k =>
      have hk : k ≠ key := by rintro rfl; exact hforget rfl
      simp [Event.latest, hk]
    | _ => rfl
  rw [sinceWrite_cons hregister]
  cases pending_of_section hs key with
  | same h => exact (ha.delivered key action hold (h ▸ hp)).cons _
  | trying g h => rw [hp] at h; cases h
  | forgotten hevent => exact absurd hevent hforget
  | @delivered d hd hcalling _ hmark hevent =>
    -- the delivery that the mark named was calling the latest write
    obtain ⟨rfl, hlive⟩ := ht.live_of_mark hrun.sound hd hmark
    obtain ⟨e, he, hcurrent, -⟩ := hrun.sound.live d hd hlive
    have hcurrent' : lastWrite? d.key history = some d.action := by
      rw [← hrun.current, he, Option.map_some, hcurrent]
    obtain rfl := Option.some.inj (hcurrent'.symm.trans hold)
    exact ⟨d.generation, [], _, _, rfl, hevent, ha.attempt d hd hlive hcalling⟩
  | abandoned _ _ _ h => rw [hp] at h; cases h

theorem Accounted.next_abandoned (ha : Accounted history r) (ht : Tracked r)
    (hs : Section r now event r' calls) (key : String) (g : Nat)
    (hp : r'.pendingOf key = some ⟨g, false⟩) : ∃ n, 0 < n ∧
      outcomes (.delivery g) (⟨r, now, event, r', calls⟩ :: history) = List.replicate n false ∧
      r'.plan.retry.delayAfter n = none := by
  rw [(frame_of_section hs).1, outcomes_cons]
  cases pending_of_section hs key with
  | same h =>
    rw [hp] at h
    obtain ⟨n, hpos, houtcomes, hdelay⟩ := ha.abandoned key g h.symm
    have hnone : event.outcome? (.delivery g) = none := by
      refine outcome?_of_ne fun ok hevent => ?_
      obtain ⟨d, hd, hg⟩ := exists_of_callEnded hs hevent
      exact ht.abandoned key g h.symm d hd hg
    exact ⟨n, hpos, by rw [hnone, houtcomes]; rfl, hdelay⟩
  | trying g' h => rw [hp] at h; cases h
  | forgotten hevent =>
    subst hevent
    cases hs
    rw [pendingOf_forget, if_pos rfl] at hp
    cases hp
  | delivered _ _ _ _ _ h => rw [hp] at h; cases h
  | @abandoned d hd hevent hdelay h =>
    rw [hp] at h
    cases h
    refine ⟨d.failures + 1, Nat.succ_pos _, ?_, hdelay⟩
    rw [hevent, outcome?_callEnded, ha.failures d hd, List.replicate_succ]
    rfl

theorem Accounted.next (ha : Accounted history r) (hrun : Run plan since history r)
    (ht : Tracked r) (hs : Section r now event r' calls) :
    Accounted (⟨r, now, event, r', calls⟩ :: history) r' where
  unused := ha.next_unused hrun.sound hs
  failures := ha.next_failures hrun.sound hs
  attempt := ha.next_attempt hrun.sound hs
  delivered := ha.next_delivered hrun ht hs
  abandoned := ha.next_abandoned ht hs

end Step

/-- A run without a shut-down in which no delivery panics. -/
theorem Run.accounted (h : Run plan since history r)
    (hup : ∀ m ∈ history, m.event ≠ .shutDown) (hpanics : ∀ m ∈ history, ¬ m.panics) :
    r.isShutDown = false ∧ Tracked r ∧ Accounted history r := by
  induction h with
  | start =>
    refine ⟨rfl, ⟨?_, ?_⟩, .start⟩
    · intro key g hp
      cases hp
    · intro key g hp
      cases hp
  | next hpast hstep ih =>
    have hs := section_of_step hstep
    obtain ⟨hdown, ht, ha⟩ := ih (fun m hm => hup m (List.mem_cons_of_mem _ hm))
      (fun m hm => hpanics m (List.mem_cons_of_mem _ hm))
    have hevent := hup _ List.mem_cons_self
    refine ⟨((frame_of_section hs).2.2 hevent).trans hdown, ?_, ha.next hpast ht hs⟩
    exact ht.section hpast.sound hdown hs hevent (hpanics _ List.mem_cons_self)

/-! ### What a flush takes up -/

/-- A write that was given up is taken up by a flush: a new delivery of it is about to start. -/
theorem Tracked.flush_takes_up (ht : Tracked r) (h : Sound r) (hdown : r.isShutDown = false)
    {key : String} {g : Nat} {e : ReplicationEntry α} (he : r.entryFor? key = some e)
    (hp : r.pendingOf key = some ⟨g, false⟩) :
    ∃ d ∈ r.flush.1.deliveries, d ∉ r.deliveries ∧ d.key = key ∧ d.action = e.current ∧
      d.cancelled = false ∧ d.stage = .ready ∧
      r.flush.1.pendingOf key = some ⟨d.generation, true⟩ := by
  obtain ⟨g', hnew, hg'⟩ := flush_abandoned hp
  have hflush : r.step 0 .flush = some (r.flushPending.1, []) := rfl
  have hs := section_of_step hflush
  obtain ⟨d, hd, rfl, hkey, hlive⟩ := (ht.flush h hdown).trying key g' hg'
  obtain ⟨e', he', haction, -⟩ := h.flush.live d hd hlive
  have hfresh : d ∉ r.deliveries := fun hmem => Nat.not_le_of_lt (h.generation_lt d hmem) hnew
  have hsame := SameWrite.flush r key
  rw [SameWrite, he, ← hkey, he'] at hsame
  refine ⟨d, hd, hfresh, hkey, ?_, hlive, ?_, hg'⟩
  · rw [← haction]
    exact (Prod.mk.inj (Option.some.inj hsame)).1
  · cases delivery_of_section h hs hd with
    | fresh _ _ hready => exact hready
    | kept hd₀ hf =>
      exact absurd (h.generation_lt _ hd₀) (Nat.not_lt_of_le (hf.generation ▸ hnew))
    | called _ _ _ _ hevent => cases hevent
    | failed _ _ _ _ hevent => cases hevent

/-! ### Kept and lost -/

/-- The latest write of a key has not been lost. Which of the three has become of it, the pending
mark of its entry says. -/
structure Kept (history : List (Moment α)) (r : Replicator α) (e : ReplicationEntry α) :
    Prop where
  /-- Without a mark, some attempt at it has succeeded. -/
  delivered : e.pending = none → Delivered e.key e.current (sinceWrite e.key history)
  /-- Somebody is trying: just one delivery, which has not been cancelled. -/
  trying : ∀ g, e.pending = some ⟨g, true⟩ → ∃ d, r.deliveries.filter (·.generation = g) = [d] ∧
    d.key = e.key ∧ d.cancelled = false ∧ d.action = e.current
  /-- It has been given up: all attempts have failed, the policy has no delay for the last failure,
  and a flush takes it up. -/
  abandoned : ∀ g, e.pending = some ⟨g, false⟩ → (∀ d ∈ r.deliveries, d.generation ≠ g) ∧
    (∃ n, 0 < n ∧ outcomes (.delivery g) history = List.replicate n false ∧
      r.plan.retry.delayAfter n = none) ∧
    ∃ d ∈ r.flush.1.deliveries, d ∉ r.deliveries ∧ d.key = e.key ∧ d.action = e.current ∧
      d.cancelled = false ∧ d.stage = .ready ∧
      r.flush.1.pendingOf e.key = some ⟨d.generation, true⟩

/-- No key has lost its latest write. -/
def KeepsWrites (history : List (Moment α)) (r : Replicator α) : Prop :=
  ∀ key action, lastWrite? key history = some action →
    ∃ e, r.entryFor? key = some e ∧ e.current = action ∧ Kept history r e

theorem Run.keepsWrites (h : Run plan since history r)
    (hup : ∀ m ∈ history, m.event ≠ .shutDown) (hpanics : ∀ m ∈ history, ¬ m.panics) :
    KeepsWrites history r := by
  intro key action hwrite
  obtain ⟨hdown, ht, ha⟩ := h.accounted hup hpanics
  have hcurrent := h.current key
  rw [hwrite] at hcurrent
  obtain ⟨e, he, rfl⟩ := Option.map_eq_some_iff.mp hcurrent
  obtain rfl := entryFor?_key he
  have hpendingOf : r.pendingOf e.key = e.pending := by rw [pendingOf, he]; rfl
  refine ⟨e, he, rfl, ?_, ?_, ?_⟩
  · exact fun hp => ha.delivered e.key _ hwrite (hpendingOf.trans hp)
  · intro g hp
    obtain ⟨d, hd, rfl, hkey, hlive⟩ := ht.trying e.key g (hpendingOf.trans hp)
    obtain ⟨e', he', haction, -⟩ := h.sound.live d hd hlive
    rw [hkey, he] at he'
    obtain rfl := Option.some.inj he'
    exact ⟨d, Keyed.filter_eq_single h.sound.generations hd, hkey, hlive, haction.symm⟩
  · intro g hp
    have hp := hpendingOf.trans hp
    exact ⟨ht.abandoned e.key g hp, ha.abandoned e.key g hp, ht.flush_takes_up h.sound hdown he hp⟩

/-- A delivery that panics dies. -/
theorem Moment.after_of_panics {m : Moment α}
    (hs : Section m.before m.now m.event m.after m.calls) (hpanics : m.panics) :
    ∃ d ∈ m.before.deliveries, d.cancelled = false ∧ m.after = m.before.perish d.generation := by
  obtain ⟨r, now, event, r', calls⟩ := m
  obtain ⟨d, hevent, hd, hstage, hcancelled, hlease⟩ := hpanics
  simp only at hs hevent hd hlease
  have hsame : ∀ {d' : Delivery α}, r.delivery? d'.generation = some d' →
      (Event.resume (.delivery d'.generation) : Event α) = .resume (.delivery d.generation) →
      d' = d := by
    intro d' hd' heq
    rw [Caller.delivery.inj (Event.resume.inj heq), hd] at hd'
    exact (Option.some.inj hd').symm
  cases hs with
  | died hd' => obtain rfl := hsame hd' hevent; exact ⟨_, mem_of_delivery? hd, hcancelled, rfl⟩
  | ended hd' _ h => obtain rfl := hsame hd' hevent; rw [hcancelled] at h; cases h
  | queued hd' h => obtain rfl := hsame hd' hevent; rw [hstage] at h; cases h
  | called hd' _ _ _ h => obtain rfl := hsame hd' hevent; rw [hlease] at h; cases h
  | woken hd' h => obtain rfl := hsame hd' hevent; rw [hstage] at h; cases h
  | _ => cases hevent

/-- A delivery that panics leaves its mark behind: it goes on saying that somebody is trying, and
nobody is. -/
theorem Moment.lost_of_panics {m : Moment α} (h : Sound m.before)
    (hs : Section m.before m.now m.event m.after m.calls) (hpanics : m.panics) :
    ∃ key e g, m.after.entryFor? key = some e ∧ e.pending = some ⟨g, true⟩ ∧
      ∀ d ∈ m.after.deliveries, d.generation ≠ g := by
  obtain ⟨d, hd, hlive, hafter⟩ := m.after_of_panics hs hpanics
  obtain ⟨e, he, -, -, hpending⟩ := h.live d hd hlive
  obtain ⟨generations, _, _, hmem, hperish⟩ := m.before.perish_eq_drop d.generation
  rw [hafter, hperish]
  refine ⟨d.key, e, d.generation, he, hpending, fun d' hd' heq => ?_⟩
  have hnot := (List.mem_filter.mp hd').2
  rw [heq, decide_eq_true_eq] at hnot
  exact hnot hmem

/-- Nobody takes up a write whose mark says that somebody is trying, when nobody is: as long as it
is not withdrawn, the mark stays and no delivery comes. -/
theorem Run.lost_for_good {later : List (Moment α)} {r₀ : Replicator α} {key : String} {g : Nat}
    (hpast : Run plan since history r₀) (hmark : r₀.pendingOf key = some ⟨g, true⟩)
    (hnobody : ∀ d ∈ r₀.deliveries, d.generation ≠ g)
    (hkept : ∀ m ∈ later, m.event.withdraws key = false)
    (h : Run plan since (later ++ history) r) :
    r.pendingOf key = some ⟨g, true⟩ ∧ ∀ d ∈ r.deliveries, d.generation ≠ g := by
  induction later generalizing r with
  | nil =>
    obtain rfl := hpast.unique h
    exact ⟨hmark, hnobody⟩
  | cons m later ih =>
    cases h with
    | @next _ r₁ _ now event calls hrest hstep =>
      have hs := section_of_step hstep
      obtain ⟨hmark, hnobody⟩ := ih (fun m' hm' => hkept m' (List.mem_cons_of_mem _ hm')) hrest
      have hgone : ∀ p, some (Pending.mk g true) = some p → event.isOf p.generation = false := by
        rintro p ⟨⟩
        refine Bool.eq_false_iff.mpr fun hof => ?_
        obtain ⟨d, hd, hg⟩ := exists_of_isOf hs hof
        exact hnobody d hd hg
      rcases mark_of_section hs hmark (hkept _ List.mem_cons_self) hgone with hmark' | ⟨-, _, hg⟩
      · refine ⟨hmark', fun d' hd' hg => ?_⟩
        have hold : d'.generation < r₁.nextGeneration := hg ▸ hrest.sound.pending_lt key _ hmark
        obtain ⟨d, hd, hfollows⟩ := follows_of_section hrest.sound hs hd' hold
        exact hnobody d hd (hfollows.generation.symm.trans hg)
      · cases hg

/-- **No write is ever lost, exactly as long as no delivery panics.** -/
theorem no_write_is_lost_iff (h : Run plan since history r)
    (hup : ∀ m ∈ history, m.event ≠ .shutDown) :
    (∀ later m earlier, history = later ++ m :: earlier → KeepsWrites (m :: earlier) m.after) ↔
      ∀ m ∈ history, ¬ m.panics := by
  constructor
  · intro hkept m hm hpanics
    obtain ⟨later, earlier, rfl⟩ := List.append_of_mem hm
    obtain ⟨hpast, hrun, hs⟩ := h.split
    obtain ⟨key, e, g, he, hpending, hnobody⟩ := m.lost_of_panics hpast.sound hs hpanics
    have hwrite : lastWrite? key (m :: earlier) = some e.current := by
      rw [← hrun.current, he, Option.map_some]
    obtain ⟨e', he', -, hkept⟩ := hkept later m earlier rfl key e.current hwrite
    obtain rfl := Option.some.inj (he.symm.trans he')
    obtain ⟨d, hd, -⟩ := hkept.trying g hpending
    have hmem : d ∈ m.after.deliveries.filter (·.generation = g) := hd ▸ List.mem_singleton_self d
    obtain ⟨hmem, hg⟩ := List.mem_filter.mp hmem
    exact hnobody d hmem (of_decide_eq_true hg)
  · rintro hpanics later m earlier rfl
    refine h.split.2.1.keepsWrites ?_ ?_
    · exact fun m' hm' => hup m' (List.mem_append_right _ hm')
    · exact fun m' hm' => hpanics m' (List.mem_append_right _ hm')

/-- A write that fails and is not tried again is given up, and a flush registers it again. -/
theorem no_write_is_lost_of_failure : ∃ (history : List (Moment Nat)) (r : Replicator Nat),
    Run quietPlan 0 history r ∧ (∀ m ∈ history, m.event ≠ .shutDown) ∧
      (∀ m ∈ history, ¬ m.panics) ∧ lastWrite? "k" history = some 2 ∧
      r.pendingOf "k" = some ⟨2, false⟩ ∧
      ∃ d ∈ r.flush.1.deliveries, d ∉ r.deliveries ∧ d.key = "k" ∧ d.cancelled = false ∧
        d.stage = .ready := by
  obtain ⟨history, r, hrun, hp⟩ := exists_run_of_replay quietPlan 0
    [(0, .register "k" 1), (0, .resume (.delivery 1)), (0, .resume (.delivery 1)),
      (1, .register "k" 2), (5, .callEnded (.delivery 1) true), (5, .resume (.delivery 2)),
      (5, .resume (.delivery 2)), (9, .callEnded (.delivery 2) false)]
    (fun history r =>
      history.all (fun m => (m.before.leaseDeadline m.now).isSome &&
        match m.event with | .shutDown => false | _ => true) &&
        lastWrite? "k" history == some 2 && r.pendingOf "k" == some ⟨2, false⟩)
    (by decide)
  simp only [Bool.and_eq_true, List.all_eq_true, beq_iff_eq] at hp
  obtain ⟨⟨hall, hwrite⟩, hmark⟩ := hp
  have hup : ∀ m ∈ history, m.event ≠ .shutDown := by
    intro m hm hevent
    have hother := (hall m hm).2
    rw [hevent] at hother
    cases hother
  have hpanics : ∀ m ∈ history, ¬ m.panics := by
    intro m hm ⟨_, _, _, _, _, hlease⟩
    have hsome := (hall m hm).1
    rw [hlease] at hsome
    cases hsome
  have hkept := (no_write_is_lost_iff hrun hup).mpr hpanics
  cases hrun with
  | start => cases hwrite
  | @next past _ r _ _ _ hpast hstep =>
    obtain ⟨e, he, -, hkept⟩ := hkept [] _ past rfl "k" 2 hwrite
    have hpending : e.pending = some ⟨2, false⟩ := by rwa [pendingOf, he] at hmark
    obtain ⟨-, -, d, hd, hnew, hkey, -, hlive, hready, -⟩ := hkept.abandoned 2 hpending
    exact ⟨_, r, .next hpast hstep, hup, hpanics, hwrite, hmark, d, hd, hnew,
      hkey.trans (entryFor?_key he), hlive, hready⟩

/-- **A write whose second attempt comes when no lease fits into the calendar is lost.** Its
delivery dies, and its mark goes on saying that somebody is trying. A flush takes up nothing, and
whatever is done later, nobody tries unless the write is withdrawn. -/
theorem write_is_lost_beyond_calendar :
    ∃ (history : List (Moment Nat)) (r : Replicator Nat), Run nearPlan 1700000000000 history r ∧
      (∀ m ∈ history, m.event ≠ .shutDown) ∧ (∀ m ∈ history, m.event ≠ .forget "k") ∧
      lastWrite? "k" history = some 1 ∧ r.flush.2 = [] ∧ ¬ KeepsWrites history r ∧
      ∀ later r', Run nearPlan 1700000000000 (later ++ history) r' →
        (∀ m ∈ later, m.event.withdraws "k" = false) →
        r'.pendingOf "k" = some ⟨1, true⟩ ∧ ∀ d ∈ r'.deliveries, d.generation ≠ 1 := by
  obtain ⟨history, r, hrun, hp⟩ := exists_run_of_replay nearPlan 1700000000000
    [(1700000000000, .register "k" 1), (1700000000000, .resume (.delivery 1)),
      (1700000000000, .resume (.delivery 1)), (1700000000045, .callEnded (.delivery 1) false),
      (1700000000055, .resume (.delivery 1)), (1700000000055, .resume (.delivery 1)),
      (1700000000055, .resume (.delivery 1))]
    (fun history r =>
      history.all (fun m =>
        match m.event with | .shutDown => false | .forget _ => false | _ => true) &&
        lastWrite? "k" history == some 1 && r.pendingOf "k" == some ⟨1, true⟩ &&
        r.deliveries.isEmpty && r.flush.2.isEmpty)
    (by decide)
  simp only [Bool.and_eq_true, List.all_eq_true, beq_iff_eq, List.isEmpty_iff] at hp
  obtain ⟨⟨⟨⟨hall, hwrite⟩, hmark⟩, hempty⟩, hflush⟩ := hp
  have hplain : ∀ m ∈ history, m.event ≠ .shutDown ∧ m.event ≠ .forget "k" := by
    intro m hm
    have hother := hall m hm
    constructor <;> intro hevent <;> rw [hevent] at hother <;> cases hother
  have hnobody : ∀ d ∈ r.deliveries, d.generation ≠ 1 := by
    intro d hd
    rw [hempty] at hd
    cases hd
  refine ⟨history, r, hrun, fun m hm => (hplain m hm).1, fun m hm => (hplain m hm).2, hwrite,
    hflush, fun hkeeps => ?_,
    fun later r' hlater hkept => hrun.lost_for_good hmark hnobody hkept hlater⟩
  obtain ⟨e, he, -, hkept⟩ := hkeeps "k" 1 hwrite
  have hpending : e.pending = some ⟨1, true⟩ := by rwa [pendingOf, he] at hmark
  obtain ⟨d, hd, -⟩ := hkept.trying 1 hpending
  rw [hempty] at hd
  cases hd

end Floodgate.Replicator
