import Floodgate.Proofs.Replication.Run
/-!
# Floodgate.Proofs.Replication.Pending

**A pending mark says truly whether somebody is still trying.** While a replicator is up and no
delivery panics, a mark that says so names a delivery that is there and has not been cancelled, and
a mark that says that the delivery has given up names none (`Tracked`). So nobody waits in vain for
a delivery, and a flush finds everything that was given up.

`PendingChange` lists what one section can do to the mark of a key, and `mark_of_section` when it
leaves the mark alone.
-/

namespace Floodgate.Replicator

variable {α : Type} {r r' : Replicator α} {now : Int} {event : Event α} {calls : List (Call α)}

/-! ### The mark of a key -/

theorem pendingOf_register (r : Replicator α) (key : String) (action : α) (k : String) :
    (r.register key action).1.pendingOf k =
      if k = key then some ⟨r.nextGeneration, true⟩ else r.pendingOf k := by
  rw [pendingOf, entryFor?_register]
  split
  · rfl
  · rfl

theorem pendingOf_forget (r : Replicator α) (key k : String) :
    (r.forget key).pendingOf k = if k = key then none else r.pendingOf k := by
  rw [pendingOf, entryFor?_forget]
  split
  · rfl
  · rfl

theorem pendingOf_settled (r : Replicator α) (key : String) (g : Nat) (p : Option Pending)
    (k : String) : (r.updateEntry key (settled g p)).pendingOf k =
      if k = key ∧ (r.pendingOf k).map (·.generation) = some g then p else r.pendingOf k := by
  have hentry := r.entryFor?_updateEntry key (settled_key g p) k
  unfold pendingOf
  rw [hentry]
  by_cases hk : k = key
  · rw [if_pos hk]
    cases hold : r.entryFor? k with
    | none => simp
    | some e =>
      by_cases hown : e.pending.map (·.generation) = some g
      · simp [settled_of_eq hown, hown, hk]
      · simp [settled_of_ne hown, hown, hk]
  · rw [if_neg hk, if_neg fun h => hk h.1]

theorem abandonedWrite?_pendingOf {key : String} {g : Nat} {action : α}
    (h : r.abandonedWrite? key g = some action) : r.pendingOf key = some ⟨g, false⟩ := by
  obtain ⟨e, he, hpending, -⟩ := abandonedWrite?_eq_some_iff.mp h
  rw [pendingOf, he]
  exact hpending

/-- What a section does to the mark of a key. -/
inductive PendingChange (r : Replicator α) (event : Event α) (k : String) (r' : Replicator α) :
    Prop where
  /-- Nothing. -/
  | same (h : r'.pendingOf k = r.pendingOf k)
  /-- A new delivery is trying. -/
  | trying (g : Nat) (h : r'.pendingOf k = some ⟨g, true⟩)
  /-- The key has been forgotten. -/
  | forgotten (hevent : event = .forget k)
  /-- The call of the delivery that the mark names has succeeded. -/
  | delivered {d : Delivery α} (hd : d ∈ r.deliveries) (hcalling : d.stage = .calling)
      (hkey : d.key = k) (hmark : (r.pendingOf k).map (·.generation) = some d.generation)
      (hevent : event = .callEnded (.delivery d.generation) true) (h : r'.pendingOf k = none)
  /-- The delivery that the mark names has given up. -/
  | abandoned {d : Delivery α} (hd : d ∈ r.deliveries)
      (hevent : event = .callEnded (.delivery d.generation) false)
      (hdelay : r.plan.retry.delayAfter (d.failures + 1) = none)
      (h : r'.pendingOf k = some ⟨d.generation, false⟩)

/-- What a section does to a mark is told by the mark that it leaves. -/
theorem PendingChange.congr {k : String} {r₁ r₂ : Replicator α} (h : PendingChange r event k r₁)
    (hp : r₂.pendingOf k = r₁.pendingOf k) : PendingChange r event k r₂ := by
  cases h with
  | same h => exact .same (hp.trans h)
  | trying g h => exact .trying g (hp.trans h)
  | forgotten hevent => exact .forgotten hevent
  | delivered hd hcalling hkey hmark hevent h =>
    exact .delivered hd hcalling hkey hmark hevent (hp.trans h)
  | abandoned hd hevent hdelay h => exact .abandoned hd hevent hdelay (hp.trans h)

theorem pendingOf_flush (r : Replicator α) (k : String) :
    r.flush.1.pendingOf k = r.pendingOf k ∨ ∃ g, r.flush.1.pendingOf k = some ⟨g, true⟩ := by
  refine flush_induction (motive := fun r₁ => r₁.pendingOf k = r.pendingOf k ∨
    ∃ g, r₁.pendingOf k = some ⟨g, true⟩) ?_ r (.inl rfl)
  intro r₁ key _ action h _
  rw [pendingOf_register]
  split
  · exact .inr ⟨_, rfl⟩
  · exact h

theorem pending_of_section (hs : Section r now event r' calls) (k : String) :
    PendingChange r event k r' := by
  have hflush : ∀ r₁ : Replicator α, r₁.pendingOf k = r.pendingOf k →
      PendingChange r event k r₁.flush.1 := by
    intro r₁ hr₁
    rcases r₁.pendingOf_flush k with h | ⟨g, h⟩
    · exact .same (h.trans hr₁)
    · exact .trying g h
  cases hs with
  | registered key action =>
    have h := r.pendingOf_register key action k
    split at h
    · exact .trying _ h
    · exact .same h
  | forgotten key =>
    have h := r.pendingOf_forget key k
    split at h
    · rename_i hk
      exact .forgotten (hk ▸ rfl)
    · exact .same h
  | flushed => exact (hflush r rfl).congr rfl
  | @died d =>
    obtain ⟨_, _, _, -, hperish⟩ := r.perish_eq_drop d.generation
    rw [hperish]
    exact .same rfl
  | @delivered d hd hcalling =>
    have h : (((r.attemptOver d.generation).markDelivered d.key d.generation).finish
        d.generation).pendingOf k = _ :=
      (r.attemptOver d.generation).pendingOf_settled d.key d.generation none k
    split at h
    · rename_i hmark
      exact .delivered (mem_of_delivery? hd) hcalling hmark.1.symm hmark.2 rfl h
    · exact .same h
  | @abandoned d hd _ hdelay =>
    have h : (((r.attemptOver d.generation).markAbandoned d.key d.generation).finish
        d.generation).pendingOf k = _ :=
      (r.attemptOver d.generation).pendingOf_settled d.key d.generation _ k
    split at h
    · exact .abandoned (mem_of_delivery? hd) rfl hdelay h
    · exact .same h
  | renewalTicked => rw [renewAll_eq]; split <;> exact .same rfl
  | @recoveryTicked due =>
    have h := hflush { r with recoveryTick := some (due + r.plan.recovery.timerMillis) } rfl
    exact recover_elim _ (.same rfl) fun _ => h.congr rfl
  | _ => exact .same rfl

/-! ### Settling a write -/

theorem isPending_eq_true_iff (r : Replicator α) (k : String) :
    r.isPending k = true ↔ (r.pendingOf k).isSome = true := by
  unfold isPending pendingOf
  cases r.entryFor? k <;> rfl

/-- What a replicator does by itself settles no write. -/
theorem isPending_of_own (hs : Section r now event r' calls) (hown : event.isOwn = true)
    {k : String} (hp : r.isPending k = true) : r'.isPending k = true := by
  rw [isPending_eq_true_iff] at hp ⊢
  cases pending_of_section hs k with
  | same h => rw [h]; exact hp
  | trying g h => rw [h]; rfl
  | abandoned _ _ _ h => rw [h]; rfl
  | forgotten hevent => rw [hevent] at hown; cases hown
  | delivered _ _ _ _ hevent => rw [hevent] at hown; cases hown

/-- The end of a call settles the write of its key, if any, and only by having succeeded. -/
theorem isPending_of_callEnded (h : Sound r) {caller : Caller} {ok : Bool}
    (hs : Section r now (.callEnded caller ok) r' calls) {key : String}
    (hcaller : caller ∈ r.callersOf key) {k : String} (hk : ok = true → k ≠ key)
    (hp : r.isPending k = true) : r'.isPending k = true := by
  rw [isPending_eq_true_iff] at hp ⊢
  cases pending_of_section hs k with
  | same h => rw [h]; exact hp
  | trying g h => rw [h]; rfl
  | abandoned _ _ _ h => rw [h]; rfl
  | forgotten hevent => cases hevent
  | @delivered d hd _ hkey _ hevent =>
    cases hevent
    rcases mem_callersOf.mp hcaller with ⟨d', hd', hkey', -, heq⟩ | ⟨n, _, _, _, heq⟩
    · obtain rfl := h.eq_of_generation hd hd' (Caller.delivery.inj heq)
      exact absurd (hkey.symm.trans hkey') (hk rfl)
    · cases heq

/-! ### Tracking -/

/-- What a mark says of its delivery is true. -/
structure Tracked (r : Replicator α) : Prop where
  /-- Somebody who is said to be trying is there. -/
  trying : ∀ key g, r.pendingOf key = some ⟨g, true⟩ →
    ∃ d ∈ r.deliveries, d.generation = g ∧ d.key = key ∧ d.cancelled = false
  /-- Somebody who is said to have given up has left. -/
  abandoned : ∀ key g, r.pendingOf key = some ⟨g, false⟩ → ∀ d ∈ r.deliveries, d.generation ≠ g

/-- The delivery that a mark names, if it is there, has not been cancelled. -/
theorem Tracked.live_of_mark (ht : Tracked r) (h : Sound r) {key : String} {d : Delivery α}
    (hd : d ∈ r.deliveries) (hmark : (r.pendingOf key).map (·.generation) = some d.generation) :
    d.key = key ∧ d.cancelled = false := by
  obtain ⟨⟨g, retrying⟩, hp, hg⟩ := Option.map_eq_some_iff.mp hmark
  change g = d.generation at hg
  cases retrying with
  | true =>
    obtain ⟨d', hd', hg', hkey, hlive⟩ := ht.trying key g hp
    rw [← h.eq_of_generation hd' hd (hg'.trans hg)]
    exact ⟨hkey, hlive⟩
  | false => exact absurd hg.symm (ht.abandoned key g hp d hd)

/-- A section that touches no mark, and that neither ends nor cancels a delivery which has not been
cancelled. -/
theorem Tracked.of_same (ht : Tracked r) (hpending : ∀ k, r'.pendingOf k = r.pendingOf k)
    (hlive : ∀ d ∈ r.deliveries, d.cancelled = false → ∃ d' ∈ r'.deliveries,
      d'.generation = d.generation ∧ d'.key = d.key ∧ d'.cancelled = false)
    (hold : ∀ d' ∈ r'.deliveries, ∃ d ∈ r.deliveries, d.generation = d'.generation) :
    Tracked r' where
  trying key g hp := by
    obtain ⟨d, hd, rfl, rfl, hcancelled⟩ := ht.trying key g (hpending key ▸ hp)
    exact hlive d hd hcancelled
  abandoned key g hp d' hd' := by
    obtain ⟨d, hd, hg⟩ := hold d' hd'
    exact hg ▸ ht.abandoned key g (hpending key ▸ hp) d hd

/-- Whatever becomes of the stage of a delivery. -/
theorem Tracked.updateDelivery (ht : Tracked r) {g : Nat} {f : Delivery α → Delivery α}
    (hf : ∀ d, (f d).generation = d.generation ∧ (f d).key = d.key ∧
      (f d).cancelled = d.cancelled) : Tracked (r.updateDelivery g f) := by
  refine ht.of_same (fun _ => rfl) ?_ ?_
  · intro d hd hlive
    refine ⟨_, mem_updateDelivery.mpr ⟨d, hd, rfl⟩, ?_⟩
    obtain ⟨hg, hkey, hcancelled⟩ := hf d
    split
    · exact ⟨hg, hkey, hcancelled.trans hlive⟩
    · exact ⟨rfl, rfl, hlive⟩
  · intro d' hd'
    obtain ⟨d, hd, rfl⟩ := mem_updateDelivery.mp hd'
    refine ⟨d, hd, ?_⟩
    split
    · exact (hf d).1.symm
    · rfl

/-- A mark other than that of a key names another delivery, which is not withdrawn with it. -/
theorem Tracked.withdrawn_trying (ht : Tracked r) (h : Sound r) {key k : String} {g : Nat}
    (hk : k ≠ key) (hp : r.pendingOf k = some ⟨g, true⟩) :
    ∃ d ∈ r.deliveries.map (withdrawn (r.pendingOf key)),
      d.generation = g ∧ d.key = k ∧ d.cancelled = false := by
  obtain ⟨d, hd, hg, hkey, hlive⟩ := ht.trying k g hp
  have hother : (r.pendingOf key).map (·.generation) ≠ some d.generation := fun hmark =>
    hk (hkey.symm.trans (ht.live_of_mark h hd hmark).1)
  refine ⟨d, List.mem_map.mpr ⟨d, hd, if_neg hother⟩, hg, hkey, hlive⟩

theorem Tracked.register (ht : Tracked r) (h : Sound r) (hup : r.isShutDown = false)
    (key : String) (action : α) : Tracked (r.register key action).1 where
  trying k g hp := by
    rw [deliveries_register]
    rw [pendingOf_register] at hp
    by_cases hk : k = key
    · rw [if_pos hk] at hp
      cases hp
      exact ⟨_, List.mem_append_right _ (List.mem_singleton_self _), rfl, hk.symm, hup⟩
    · rw [if_neg hk] at hp
      obtain ⟨d, hd, hd'⟩ := ht.withdrawn_trying h hk hp
      exact ⟨d, List.mem_append_left _ hd, hd'⟩
  abandoned k g hp d hd := by
    rw [pendingOf_register] at hp
    by_cases hk : k = key
    · rw [if_pos hk] at hp
      cases hp
    · rw [if_neg hk] at hp
      rw [deliveries_register, List.mem_append, List.mem_singleton] at hd
      rcases hd with hd | rfl
      · obtain ⟨d₀, hd₀, rfl⟩ := List.mem_map.mp hd
        rw [withdrawn_generation]
        exact ht.abandoned k g hp d₀ hd₀
      · exact Nat.ne_of_gt (h.pending_lt k _ hp)

theorem Tracked.forget (ht : Tracked r) (h : Sound r) (key : String) :
    Tracked (r.forget key) where
  trying k g hp := by
    rw [pendingOf_forget] at hp
    by_cases hk : k = key
    · rw [if_pos hk] at hp
      cases hp
    · rw [if_neg hk] at hp
      rw [forget_eq]
      exact ht.withdrawn_trying h hk hp
  abandoned k g hp d hd := by
    rw [pendingOf_forget] at hp
    by_cases hk : k = key
    · rw [if_pos hk] at hp
      cases hp
    · rw [if_neg hk] at hp
      rw [forget_eq] at hd
      obtain ⟨d₀, hd₀, rfl⟩ := List.mem_map.mp hd
      rw [withdrawn_generation]
      exact ht.abandoned k g hp d₀ hd₀

theorem Tracked.flush (ht : Tracked r) (h : Sound r) (hup : r.isShutDown = false) :
    Tracked r.flush.1 := by
  refine (flush_induction (motive := fun r₁ => Sound r₁ ∧ r₁.isShutDown = false ∧ Tracked r₁)
    ?_ r ⟨h, hup, ht⟩).2.2
  intro r₁ key _ action ⟨h₁, hup₁, ht₁⟩ _
  obtain ⟨-, -, -, -, -, -, hdown, -⟩ := r₁.register_frame key action
  exact ⟨h₁.register key action, hdown.trans hup₁, ht₁.register h₁ hup₁ key action⟩

/-- The delivery of a generation ends, and what has become of it is noted. -/
theorem Tracked.settle (ht : Tracked r) {g : Nat} (key : String) {p : Option Pending}
    (hp : ∀ q, p = some q → q = ⟨g, false⟩) (h : Sound r) {d : Delivery α}
    (hd : d ∈ r.deliveries) (hg : d.generation = g) (hkey : d.key = key) :
    Tracked ((r.updateEntry key (settled g p)).finish g) where
  trying k g' hq := by
    have hmark := r.pendingOf_settled key g p k
    change (r.updateEntry key (settled g p)).pendingOf k = _ at hq
    rw [hmark] at hq
    split at hq
    · cases hp _ hq
    · rename_i hother
      obtain ⟨d', hd', hg', hkey', hlive⟩ := ht.trying k g' hq
      refine ⟨d', mem_finish.mpr ⟨hd', ?_⟩, hg', hkey', hlive⟩
      -- otherwise the mark would have been settled
      intro heq
      obtain rfl := h.eq_of_generation hd' hd (heq.trans hg.symm)
      exact hother ⟨hkey'.symm.trans hkey, by rw [hq, Option.map_some, ← hg', heq]⟩
  abandoned k g' hq d' hd' := by
    obtain ⟨hd', hne⟩ := mem_finish.mp hd'
    have hmark := r.pendingOf_settled key g p k
    change (r.updateEntry key (settled g p)).pendingOf k = _ at hq
    rw [hmark] at hq
    split at hq
    · cases hp _ hq
      exact hne
    · exact ht.abandoned k g' hq d' hd'

/-- A delivery panics in calling its write if the lease would end beyond the calendar. -/
def Moment.panics (m : Moment α) : Prop :=
  ∃ d, m.event = .resume (.delivery d.generation) ∧ m.before.delivery? d.generation = some d ∧
    d.stage = .queued ∧ d.cancelled = false ∧ m.before.leaseDeadline m.now = none

theorem Tracked.section (ht : Tracked r) (h : Sound r) (hup : r.isShutDown = false)
    (hs : Section r now event r' calls) (hevent : event ≠ .shutDown)
    (hpanics : ¬ (Moment.mk r now event r' calls).panics) : Tracked r' := by
  have hsame : ∀ {r₁ : Replicator α}, (∀ k, r₁.pendingOf k = r.pendingOf k) →
      r₁.deliveries = r.deliveries → Tracked r₁ := by
    intro r₁ hpending hdeliveries
    refine ht.of_same hpending ?_ ?_
    · exact fun d hd hlive => ⟨d, hdeliveries ▸ hd, rfl, rfl, hlive⟩
    · exact fun d hd => ⟨d, hdeliveries ▸ hd, rfl⟩
  cases hs with
  | registered key action => exact ht.register h hup key action
  | forgotten key => exact ht.forget h key
  | flushed =>
    refine (ht.flush h hup).of_same (fun _ => rfl) ?_ fun d hd => ⟨d, hd, rfl⟩
    exact fun d hd hlive => ⟨d, hd, rfl, rfl, hlive⟩
  | @ended d hd _ hcancelled =>
    refine ht.of_same (fun _ => rfl) ?_ fun d' hd' => ⟨d', (mem_finish.mp hd').1, rfl⟩
    intro d' hd' hlive
    refine ⟨d', mem_finish.mpr ⟨hd', fun hg => ?_⟩, rfl, rfl, hlive⟩
    rw [h.eq_of_generation hd' (mem_of_delivery? hd) hg, hcancelled] at hlive
    cases hlive
  | queued =>
    refine (ht.updateDelivery (f := inStage .queued) fun _ => ⟨rfl, rfl, rfl⟩).of_same
      (fun _ => rfl) ?_ fun d hd => ⟨d, hd, rfl⟩
    exact fun d hd hlive => ⟨d, hd, rfl, rfl, hlive⟩
  | @died d hd hstage _ hcancelled hlease =>
    exact absurd ⟨d, rfl, hd, hstage, hcancelled, hlease⟩ hpanics
  | called =>
    refine (ht.updateDelivery (f := inStage .calling) fun _ => ⟨rfl, rfl, rfl⟩).of_same
      (fun _ => rfl) ?_ fun d hd => ⟨d, hd, rfl⟩
    exact fun d hd hlive => ⟨d, hd, rfl, rfl, hlive⟩
  | woken => exact ht.updateDelivery fun _ => ⟨rfl, rfl, rfl⟩
  | @delivered d hd =>
    have hsettled := ht.settle (g := d.generation) d.key (p := none) (fun _ hq => by cases hq) h
      (mem_of_delivery? hd) rfl rfl
    rw [markDelivered_eq, finish_attemptOver]
    refine hsettled.of_same (fun _ => rfl) ?_ fun d hd => ⟨d, hd, rfl⟩
    exact fun d hd hlive => ⟨d, hd, rfl, rfl, hlive⟩
  | @retried d delay =>
    refine (ht.updateDelivery (g := d.generation)
      (f := inBackoff (d.failures + 1) (now + delay.timerMillis)) fun _ => ⟨rfl, rfl, rfl⟩).of_same
      (fun _ => rfl) ?_ fun d hd => ⟨d, hd, rfl⟩
    exact fun d hd hlive => ⟨d, hd, rfl, rfl, hlive⟩
  | @abandoned d hd =>
    have hsettled := ht.settle (g := d.generation) d.key (p := some ⟨d.generation, false⟩)
      (fun _ hq => (Option.some.inj hq).symm) h (mem_of_delivery? hd) rfl rfl
    rw [markAbandoned_eq, finish_attemptOver]
    refine hsettled.of_same (fun _ => rfl) ?_ fun d hd => ⟨d, hd, rfl⟩
    exact fun d hd hlive => ⟨d, hd, rfl, rfl, hlive⟩
  | renewalTicked => rw [renewAll_eq]; split <;> exact hsame (fun _ => rfl) rfl
  | @recoveryTicked due =>
    have htick : Tracked { r with recoveryTick := some (due + r.plan.recovery.timerMillis) } :=
      hsame (fun _ => rfl) rfl
    have hflush := htick.flush (h.congr rfl rfl rfl rfl rfl rfl) hup
    refine recover_elim _ htick fun recovering => ?_
    refine hflush.of_same (fun _ => rfl) ?_ fun d hd => ⟨d, hd, rfl⟩
    exact fun d hd hlive => ⟨d, hd, rfl, rfl, hlive⟩
  | shutDown => exact absurd rfl hevent
  | renewalsStopped hdown => rw [hup] at hdown; cases hdown
  | recoveryStopped hdown => rw [hup] at hdown; cases hdown
  | _ => exact hsame (fun _ => rfl) rfl

/-! ### Flushing finds what was given up -/

/-- A mark stays while other writes are registered again, unless it says that somebody has given
up. -/
theorem reregisterAll_kept {key : String} {mark : Option Pending}
    (hmark : ∀ g, mark ≠ some ⟨g, false⟩) (abandoned : List (String × Nat))
    (h : r.pendingOf key = mark) : (r.reregisterAll abandoned).1.pendingOf key = mark := by
  refine reregisterAll_induction (motive := fun r₁ => r₁.pendingOf key = mark) ?_ r abandoned h
  intro r₁ k g action h₁ hwrite
  have hk : key ≠ k := by
    rintro rfl
    exact hmark g (h₁ ▸ abandonedWrite?_pendingOf hwrite)
  rw [pendingOf_register, if_neg hk, h₁]

theorem reregisterAll_abandoned {key : String} {g : Nat} {abandoned : List (String × Nat)}
    (hmem : (key, g) ∈ abandoned) (h : r.pendingOf key = some ⟨g, false⟩) :
    ∃ g', r.nextGeneration ≤ g' ∧
      (r.reregisterAll abandoned).1.pendingOf key = some ⟨g', true⟩ := by
  induction abandoned generalizing r with
  | nil => exact absurd hmem List.not_mem_nil
  | cons first rest ih =>
    obtain ⟨k, g₀⟩ := first
    simp only [reregisterAll, reregister]
    cases hwrite : r.abandonedWrite? k g₀ with
    | none =>
      rcases List.mem_cons.mp hmem with heq | hrest
      · cases heq
        obtain ⟨e, he, hpending⟩ := Option.bind_eq_some_iff.mp h
        have hfound := abandonedWrite?_eq_some_iff.mpr ⟨e, he, hpending, rfl⟩
        rw [hwrite] at hfound
        cases hfound
      · exact ih hrest h
    | some action =>
      by_cases hk : key = k
      · refine ⟨r.nextGeneration, Nat.le_refl _,
          reregisterAll_kept (fun _ hp => by cases hp) rest ?_⟩
        rw [pendingOf_register, if_pos hk]
      · rcases List.mem_cons.mp hmem with heq | hrest
        · exact absurd (Prod.mk.inj heq).1 hk
        · have hother := pendingOf_register r k action key
          rw [if_neg hk, h] at hother
          obtain ⟨g', hle, hg'⟩ := ih hrest hother
          rw [nextGeneration_register] at hle
          exact ⟨g', Nat.le_of_succ_le hle, hg'⟩

/-- What was given up is registered again by a flush, under a new generation. -/
theorem flush_abandoned {key : String} {g : Nat} (h : r.pendingOf key = some ⟨g, false⟩) :
    ∃ g', r.nextGeneration ≤ g' ∧ r.flush.1.pendingOf key = some ⟨g', true⟩ := by
  refine reregisterAll_abandoned ?_ h
  obtain ⟨e, he, hpending⟩ := Option.bind_eq_some_iff.mp h
  refine List.mem_filterMap.mpr ⟨e, mem_of_entryFor? he, ?_⟩
  simp [hpending, entryFor?_key he]

/-! ### Sections of others -/

/-- Whether an event withdraws the pending write of a key. -/
def Event.withdraws (key : String) : Event α → Bool
  | .register k _ | .forget k => k = key
  | .shutDown => true
  | _ => false

/-- Whether an event takes up what was given up. -/
def Event.takesUp : Event α → Bool
  | .flush | .recoveryTick => true
  | _ => false

/-- The mark of a key that nobody withdraws changes by the sections of the delivery that it names,
and by being taken up if that delivery has given up. -/
theorem mark_of_section (hs : Section r now event r' calls) {key : String} {mark : Option Pending}
    (hmark : r.pendingOf key = mark) (hkept : event.withdraws key = false)
    (hother : ∀ p, mark = some p → event.isOf p.generation = false) :
    r'.pendingOf key = mark ∨ event.takesUp = true ∧ ∃ g, mark = some ⟨g, false⟩ := by
  have hflush : ∀ r₁ : Replicator α, r₁.pendingOf key = mark →
      r₁.flush.1.pendingOf key = mark ∨ ∃ g, mark = some ⟨g, false⟩ := by
    intro r₁ hr₁
    by_cases hgiven : ∃ g, mark = some ⟨g, false⟩
    · exact .inr hgiven
    · exact .inl (reregisterAll_kept (fun g hg => hgiven ⟨g, hg⟩) _ hr₁)
  -- the end of an attempt is noted at the mark of its own generation only
  have hsettled : ∀ (r₁ : Replicator α) (k : String) (g : Nat) (p : Option Pending),
      r₁.pendingOf key = mark → (∀ q, mark = some q → decide (g = q.generation) = false) →
      (r₁.updateEntry k (settled g p)).pendingOf key = mark := by
    intro r₁ k g p hr₁ hne
    rw [pendingOf_settled, hr₁, if_neg]
    rintro ⟨-, hown⟩
    obtain ⟨q, hq, hg⟩ := Option.map_eq_some_iff.mp hown
    exact of_decide_eq_false (hne q hq) hg.symm
  cases hs with
  | registered k action =>
    rw [pendingOf_register, if_neg fun hk => of_decide_eq_false hkept hk.symm]
    exact .inl hmark
  | forgotten k =>
    rw [pendingOf_forget, if_neg fun hk => of_decide_eq_false hkept hk.symm]
    exact .inl hmark
  | flushed => exact (hflush r hmark).imp_right fun hgiven => ⟨rfl, hgiven⟩
  | @died d =>
    obtain ⟨_, _, _, -, hperish⟩ := r.perish_eq_drop d.generation
    rw [hperish]
    exact .inl hmark
  | @delivered d => exact .inl (hsettled (r.attemptOver d.generation) d.key _ none hmark hother)
  | @abandoned d => exact .inl (hsettled (r.attemptOver d.generation) d.key _ _ hmark hother)
  | renewalTicked => rw [renewAll_eq]; split <;> exact .inl hmark
  | @recoveryTicked due =>
    have hticked := hflush { r with recoveryTick := some (due + r.plan.recovery.timerMillis) } hmark
    exact recover_elim _ (.inl hmark) fun _ => hticked.imp_right fun hgiven => ⟨rfl, hgiven⟩
  | _ => exact .inl hmark

/-- Whose section it is, that delivery is there. -/
theorem exists_of_isOf (hs : Section r now event r' calls) {g : Nat} (hof : event.isOf g = true) :
    ∃ d ∈ r.deliveries, d.generation = g := by
  cases hs with
  | ended hd => exact ⟨_, mem_of_delivery? hd, of_decide_eq_true hof⟩
  | queued hd => exact ⟨_, mem_of_delivery? hd, of_decide_eq_true hof⟩
  | died hd => exact ⟨_, mem_of_delivery? hd, of_decide_eq_true hof⟩
  | called hd => exact ⟨_, mem_of_delivery? hd, of_decide_eq_true hof⟩
  | woken hd => exact ⟨_, mem_of_delivery? hd, of_decide_eq_true hof⟩
  | delivered hd => exact ⟨_, mem_of_delivery? hd, of_decide_eq_true hof⟩
  | retried hd => exact ⟨_, mem_of_delivery? hd, of_decide_eq_true hof⟩
  | abandoned hd => exact ⟨_, mem_of_delivery? hd, of_decide_eq_true hof⟩
  | _ => cases hof

/-- A delivery that is there after a section is new or comes from one that was there. -/
theorem follows_of_section (h : Sound r) (hs : Section r now event r' calls) {d' : Delivery α}
    (hd' : d' ∈ r'.deliveries) (hold : d'.generation < r.nextGeneration) :
    ∃ d ∈ r.deliveries, Follows d d' := by
  cases delivery_of_section h hs hd' with
  | fresh hnew => exact absurd hold (Nat.not_lt_of_le hnew)
  | kept hd hfollows => exact ⟨_, hd, hfollows⟩
  | called hd hfollows => exact ⟨_, hd, hfollows⟩
  | failed hd hfollows => exact ⟨_, hd, hfollows⟩

end Floodgate.Replicator
