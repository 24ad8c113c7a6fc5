import Floodgate.Proofs.Replication.Sound
/-!
# Floodgate.Proofs.Replication.Change

**What one section does to one view.** The list of sections (`Section`) says what becomes of a whole
replicator. An invariant usually looks at one thing only, so the same list is read here once for
each: the latest write of a key (`current_of_section`), the lane of a key (`lane_of_section`), its
pending mark (`PendingChange`), a delivery (`DeliveryOrigin`) and a renewal (`renewal_of_section`).

Deliveries and renewals are read backwards, from the one that is there afterwards to the one that it
comes from, since that is the direction in which an invariant over all of them is carried on.
-/

namespace Floodgate.Replicator

variable {α : Type} {r r' : Replicator α} {now : Int} {event : Event α} {calls : List (Call α)}

/-! ### What stays -/

/-- The plan stays, generations are not used twice, and only shutting down shuts down. -/
theorem frame_of_section (hs : Section r now event r' calls) :
    r'.plan = r.plan ∧ r.nextGeneration ≤ r'.nextGeneration ∧
      (event ≠ .shutDown → r'.isShutDown = r.isShutDown) := by
  have hflush : ∀ r₀ : Replicator α, r₀.flush.1.plan = r₀.plan ∧
      r₀.nextGeneration ≤ r₀.flush.1.nextGeneration ∧
      (event ≠ .shutDown → r₀.flush.1.isShutDown = r₀.isShutDown) := fun r₀ =>
    have ⟨hplan, _, _, hdown, hgeneration, _⟩ := r₀.flush_frame
    ⟨hplan, hgeneration, fun _ => hdown⟩
  cases hs with
  | registered key action =>
    obtain ⟨hplan, -, -, -, -, -, hdown, -⟩ := r.register_frame key action
    rw [nextGeneration_register]
    exact ⟨hplan, Nat.le_succ _, fun _ => hdown⟩
  | forgotten key =>
    rw [forget_eq]
    exact ⟨rfl, Nat.le_refl _, fun _ => rfl⟩
  | flushed => exact hflush r
  | @died d =>
    obtain ⟨_, _, _, -, hperish⟩ := r.perish_eq_drop d.generation
    rw [hperish]
    exact ⟨rfl, Nat.le_refl _, fun _ => rfl⟩
  | renewalTicked =>
    rw [renewAll_eq]
    split <;> exact ⟨rfl, Nat.le_refl _, fun _ => rfl⟩
  | recoveryTicked =>
    exact recover_elim _ ⟨rfl, Nat.le_refl _, fun _ => rfl⟩ fun _ => hflush _
  | shutDown => exact ⟨rfl, Nat.le_refl _, fun h => absurd rfl h⟩
  | _ => exact ⟨rfl, Nat.le_refl _, fun _ => rfl⟩

/-- Tasks that have died stay dead. One dies only where a delivery gets to call at an instant whose
lease would end beyond the calendar. -/
theorem dead_of_section (hs : Section r now event r' calls) :
    ∃ more, r'.dead = r.dead ++ more ∧ (more ≠ [] → r.leaseDeadline now = none) := by
  have hsame : ∀ {r₁ : Replicator α}, r₁.dead = r.dead →
      ∃ more, r₁.dead = r.dead ++ more ∧ (more ≠ [] → r.leaseDeadline now = none) :=
    fun h => ⟨[], h.trans (List.append_nil _).symm, fun hne => absurd rfl hne⟩
  cases hs with
  | registered key action => exact hsame (r.dead_register key action)
  | forgotten key => rw [forget_eq]; exact hsame rfl
  | flushed => exact hsame r.dead_flush
  | @died d _ _ _ _ hlease =>
    obtain ⟨generations, _, _, -, hperish⟩ := r.perish_eq_drop d.generation
    rw [hperish]
    exact ⟨generations, rfl, fun _ => hlease⟩
  | renewalTicked => rw [renewAll_eq]; split <;> exact hsame rfl
  | recoveryTicked => exact recover_elim _ (hsame rfl) fun _ => hsame (dead_flush _)
  | _ => exact hsame rfl

/-! ### The entry of a key -/

/-- The latest write of a key after an event, from the one before it. -/
def Event.latest (key : String) (event : Event α) (before : Option α) : Option α :=
  match event with
  | .register k action => if k = key then some action else before
  | .forget k => if k = key then none else before
  | _ => before

/-- What a section makes of the entry of a key, when the key is neither registered for nor forgotten
by name: whatever it is, the key keeps its latest write and its lane. -/
def SameWrite (e e' : Option (ReplicationEntry α)) : Prop :=
  e'.map (fun e => (e.current, e.lane)) = e.map fun e => (e.current, e.lane)

theorem SameWrite.register_abandoned {r : Replicator α} {key : String} {g : Nat} {action : α}
    (h : r.abandonedWrite? key g = some action) (k : String) :
    SameWrite (r.entryFor? k) ((r.register key action).1.entryFor? k) := by
  obtain ⟨e, he, -, hcurrent⟩ := abandonedWrite?_eq_some_iff.mp h
  unfold SameWrite
  rw [entryFor?_register]
  by_cases hk : k = key
  · rw [if_pos hk, hk, he]
    simp [freshEntry, laneFor, he, hcurrent]
  · rw [if_neg hk]

theorem SameWrite.flush (r : Replicator α) (k : String) :
    SameWrite (r.entryFor? k) (r.flush.1.entryFor? k) :=
  flush_induction (motive := fun r₁ => SameWrite (r.entryFor? k) (r₁.entryFor? k))
    (fun _ _ _ _ h hwrite => (SameWrite.register_abandoned hwrite k).trans h) r rfl

theorem SameWrite.settled (r : Replicator α) (key : String) (g : Nat) (p : Option Pending)
    (k : String) : SameWrite (r.entryFor? k) ((r.updateEntry key (settled g p)).entryFor? k) := by
  unfold SameWrite
  rw [entryFor?_updateEntry r key (settled_key g p)]
  by_cases hk : k = key
  · rw [if_pos hk]
    cases r.entryFor? k <;> simp
  · rw [if_neg hk]

theorem sameWrite_of_section (hs : Section r now event r' calls) (k : String)
    (hregister : ∀ action, event ≠ .register k action) (hforget : event ≠ .forget k) :
    SameWrite (r.entryFor? k) (r'.entryFor? k) := by
  cases hs with
  | registered key action =>
    unfold SameWrite
    have hne : k ≠ key := by rintro rfl; exact hregister action rfl
    rw [entryFor?_register, if_neg hne]
  | forgotten key =>
    unfold SameWrite
    have hne : k ≠ key := by rintro rfl; exact hforget rfl
    rw [entryFor?_forget, if_neg hne]
  | flushed => exact .flush r k
  | @died d =>
    obtain ⟨_, _, _, -, hperish⟩ := r.perish_eq_drop d.generation
    rw [hperish]
    rfl
  | @delivered d => exact .settled (r.attemptOver d.generation) _ _ _ k
  | @abandoned d => exact .settled (r.attemptOver d.generation) _ _ _ k
  | renewalTicked => rw [renewAll_eq]; split <;> rfl
  | recoveryTicked => exact recover_elim _ rfl fun _ => SameWrite.flush _ k
  | _ => rfl

/-- The latest write of a key changes by its being registered for and by its being forgotten. -/
theorem current_of_section (hs : Section r now event r' calls) (k : String) :
    (r'.entryFor? k).map (·.current) =
      event.latest k ((r.entryFor? k).map (·.current)) := by
  by_cases hregister : ∃ action, event = .register k action
  · obtain ⟨action, rfl⟩ := hregister
    cases hs
    rw [entryFor?_register, if_pos rfl]
    simp [Event.latest, freshEntry]
  by_cases hforget : event = .forget k
  · subst hforget
    cases hs
    rw [entryFor?_forget, if_pos rfl]
    simp [Event.latest]
  · have hsame := sameWrite_of_section hs k (fun a h => hregister ⟨a, h⟩) hforget
    have hcurrent : (r'.entryFor? k).map (·.current) = (r.entryFor? k).map (·.current) := by
      have hfst := congrArg (Option.map Prod.fst) hsame
      rwa [Option.map_map, Option.map_map] at hfst
    rw [hcurrent]
    cases event with
    | register key a =>
      have hne : key ≠ k := by rintro rfl; exact hregister ⟨a, rfl⟩
      simp [Event.latest, hne]
    | forget key =>
      have hne : key ≠ k := by rintro rfl; exact hforget rfl
      simp [Event.latest, hne]
    | _ => rfl

/-- A key keeps its lane until it is forgotten. -/
theorem lane_of_section (hs : Section r now event r' calls) {k : String}
    (hforget : event ≠ .forget k) {e : ReplicationEntry α} (he : r.entryFor? k = some e) :
    ∃ e', r'.entryFor? k = some e' ∧ e'.lane = e.lane := by
  by_cases hregister : ∃ action, event = .register k action
  · obtain ⟨action, rfl⟩ := hregister
    cases hs
    refine ⟨_, (entryFor?_register r k action k).trans (if_pos rfl), ?_⟩
    simp only [freshEntry, laneFor, he]
  · have hsame := sameWrite_of_section hs k (fun a h => hregister ⟨a, h⟩) hforget
    rw [SameWrite, he, Option.map_some, Option.map_eq_some_iff] at hsame
    obtain ⟨e', he', heq⟩ := hsame
    exact ⟨e', he', (Prod.mk.inj heq).2⟩

/-! ### Deliveries -/

/-- A delivery as a section may leave it: it is the same one, and it may have been cancelled. -/
structure Follows (d d' : Delivery α) : Prop where
  generation : d'.generation = d.generation
  key : d'.key = d.key
  action : d'.action = d.action
  lane : d'.lane = d.lane
  cancelled : d'.cancelled = false → d.cancelled = false

theorem Follows.refl (d : Delivery α) : Follows d d := ⟨rfl, rfl, rfl, rfl, id⟩

theorem Follows.trans {d d' d'' : Delivery α} (h : Follows d d') (h' : Follows d' d'') :
    Follows d d'' :=
  ⟨h'.generation.trans h.generation, h'.key.trans h.key, h'.action.trans h.action,
    h'.lane.trans h.lane, fun hc => h.cancelled (h'.cancelled hc)⟩

theorem Follows.withdrawn (p : Option Pending) (d : Delivery α) : Follows d (withdrawn p d) :=
  have ⟨hg, hkey, haction, hlane, _, _⟩ := withdrawn_fields p d
  ⟨hg, hkey, haction, hlane, fun hc => (withdrawn_cancelled_eq_false hc).1⟩

/-- A new lane is taken for a key: it is registered for, and it has no entry. -/
def TakesLane (r : Replicator α) (event : Event α) (key : String) : Prop :=
  r.entryFor? key = none ∧ ∃ action, event = .register key action

/-- Where a delivery comes from that is there after a section. -/
inductive DeliveryOrigin (r : Replicator α) (event : Event α) (calls : List (Call α))
    (d' : Delivery α) : Prop where
  /-- It is new, on the lane that its key had or on a new one. -/
  | fresh (hnew : r.nextGeneration ≤ d'.generation) (hfailures : d'.failures = 0)
      (hstage : d'.stage = .ready)
      (hlane : (∃ e, r.entryFor? d'.key = some e ∧ e.lane = d'.lane) ∨
        d'.lane = r.nextLane ∧ r.TakesLane event d'.key)
  /-- It was there, and it has neither started a call nor ended one. -/
  | kept {d : Delivery α} (hd : d ∈ r.deliveries) (hfollows : Follows d d')
      (hfailures : d'.failures = d.failures) (hstage : d'.stage = .calling → d.stage = .calling)
      (hevent : ∀ ok, event ≠ .callEnded (.delivery d.generation) ok)
  /-- It has started a call. -/
  | called {d : Delivery α} {lease : Timestamp} (hd : d ∈ r.deliveries) (hfollows : Follows d d')
      (hfailures : d'.failures = d.failures) (hlive : d.cancelled = false)
      (hevent : event = .resume (.delivery d.generation))
      (hcalls : calls = [⟨.delivery d.generation, d.key, d.action, lease⟩])
  /-- Its call has failed. -/
  | failed {d : Delivery α} (hd : d ∈ r.deliveries) (hfollows : Follows d d')
      (hfailures : d'.failures = d.failures + 1) (hstage : d'.stage ≠ .calling)
      (hevent : event = .callEnded (.delivery d.generation) false)

theorem DeliveryOrigin.same {d : Delivery α} (hd : d ∈ r.deliveries)
    (hevent : ∀ g ok, event ≠ .callEnded (.delivery g) ok) :
    DeliveryOrigin r event calls d :=
  .kept hd (.refl d) rfl id (hevent _)

/-- Withdrawing does not change where a delivery comes from. -/
theorem DeliveryOrigin.withdrawn {p : Option Pending} {d : Delivery α}
    (h : DeliveryOrigin r event calls d) :
    DeliveryOrigin r event calls (Replicator.withdrawn p d) := by
  have hw := Follows.withdrawn p d
  obtain ⟨hg, hkey, -, hl, hf, hstage⟩ := withdrawn_fields p d
  cases h with
  | fresh hnew hfailures hready hlane =>
    refine .fresh (hg ▸ hnew) (hf.trans hfailures) (hstage.trans hready) ?_
    rw [hkey, hl]
    exact hlane
  | kept hd hfollows hfailures hcalling hevent =>
    exact .kept hd (hfollows.trans hw) (hf.trans hfailures) (fun h => hcalling (hstage ▸ h)) hevent
  | called hd hfollows hfailures hlive hevent hcalls =>
    exact .called hd (hfollows.trans hw) (hf.trans hfailures) hlive hevent hcalls
  | failed hd hfollows hfailures hcalling hevent =>
    exact .failed hd (hfollows.trans hw) (hf.trans hfailures) (hstage ▸ hcalling) hevent

/-- A registration adds a new delivery. -/
theorem DeliveryOrigin.register {r₁ : Replicator α} {key : String} {action : α}
    (hnew : r.nextGeneration ≤ r₁.nextGeneration)
    (h : ∀ d ∈ r₁.deliveries, DeliveryOrigin r event calls d)
    (hlane : (∃ e, r.entryFor? key = some e ∧ e.lane = r₁.laneFor key) ∨
      r₁.laneFor key = r.nextLane ∧ r.TakesLane event key) :
    ∀ d ∈ (r₁.register key action).1.deliveries, DeliveryOrigin r event calls d := by
  intro d hd
  rw [deliveries_register, List.mem_append, List.mem_singleton] at hd
  rcases hd with hd | rfl
  · obtain ⟨d₀, hd₀, rfl⟩ := List.mem_map.mp hd
    exact (h d₀ hd₀).withdrawn
  · exact .fresh hnew rfl rfl hlane

theorem DeliveryOrigin.flush {r₁ : Replicator α} (hentries : r₁.entries = r.entries)
    (hdeliveries : r₁.deliveries = r.deliveries)
    (hgeneration : r₁.nextGeneration = r.nextGeneration)
    (hevent : ∀ g ok, event ≠ .callEnded (.delivery g) ok) :
    ∀ d ∈ r₁.flush.1.deliveries, DeliveryOrigin r event calls d := by
  -- an abandoned write has an entry, whose lane no registration of the series changes
  refine (flush_induction (motive := fun r₂ => (∀ k, SameWrite (r.entryFor? k) (r₂.entryFor? k)) ∧
    r.nextGeneration ≤ r₂.nextGeneration ∧
    ∀ d ∈ r₂.deliveries, DeliveryOrigin r event calls d) ?_ r₁ ⟨?_, ?_, ?_⟩).2.2
  · intro r₂ key g action ⟨hsame, hnew, horigin⟩ hwrite
    refine ⟨fun k => (SameWrite.register_abandoned hwrite k).trans (hsame k), ?_,
      DeliveryOrigin.register hnew horigin (.inl ?_)⟩
    · rw [nextGeneration_register]
      exact Nat.le_succ_of_le hnew
    · obtain ⟨e₂, he₂, -, -⟩ := abandonedWrite?_eq_some_iff.mp hwrite
      have hkey := hsame key
      rw [SameWrite, he₂, eq_comm, Option.map_some, Option.map_eq_some_iff] at hkey
      obtain ⟨e, he, heq⟩ := hkey
      refine ⟨e, he, (Prod.mk.inj heq).2.trans ?_⟩
      simp only [laneFor, he₂]
  · intro k
    rw [SameWrite, entryFor?, hentries, entryFor?]
  · exact Nat.le_of_eq hgeneration.symm
  · intro d hd
    exact .same (hdeliveries ▸ hd) hevent

theorem delivery_of_section (h : Sound r) (hs : Section r now event r' calls)
    {d' : Delivery α} (hd' : d' ∈ r'.deliveries) : DeliveryOrigin r event calls d' := by
  -- a stage that is changed at one generation only
  have hupdate : ∀ {g : Nat} {stage : Delivery.Stage} {ev : Event α} {cs : List (Call α)},
      stage ≠ .calling → (∀ g ok, ev ≠ .callEnded (.delivery g) ok) →
      d' ∈ (r.updateDelivery g (inStage stage)).deliveries → DeliveryOrigin r ev cs d' := by
    intro g stage ev cs hstage hev hmem
    obtain ⟨d₀, hd₀, rfl⟩ := mem_updateDelivery.mp hmem
    by_cases hg : d₀.generation = g
    · rw [if_pos hg]
      exact .kept hd₀ ⟨rfl, rfl, rfl, rfl, id⟩ rfl (fun hc => absurd hc hstage) (hev _)
    · rw [if_neg hg]
      exact .same hd₀ hev
  -- a delivery other than the one whose call has ended
  have hother : ∀ {d₀ d : Delivery α} {ok : Bool}, d₀ ∈ r.deliveries →
      d₀.generation ≠ d.generation →
      DeliveryOrigin r (.callEnded (.delivery d.generation) ok) calls d₀ := by
    intro d₀ d ok hd₀ hne
    refine .kept hd₀ (.refl d₀) rfl id fun ok' heq => ?_
    exact hne (Caller.delivery.inj (Event.callEnded.inj heq).1).symm
  cases hs with
  | registered key action =>
    refine DeliveryOrigin.register (Nat.le_refl _) (fun d hd => .same hd fun _ _ => by simp)
      ?_ d' hd'
    cases hentry : r.entryFor? key with
    | some e => exact .inl ⟨e, rfl, by simp only [laneFor, hentry]⟩
    | none => exact .inr ⟨by simp only [laneFor, hentry], hentry, action, rfl⟩
  | forgotten key =>
    have hmem : d' ∈ r.deliveries.map (withdrawn (r.pendingOf key)) := by rwa [forget_eq] at hd'
    obtain ⟨d₀, hd₀, rfl⟩ := List.mem_map.mp hmem
    exact (DeliveryOrigin.same hd₀ fun _ _ => by simp).withdrawn
  | flushed => exact DeliveryOrigin.flush rfl rfl rfl (fun _ _ => by simp) d' hd'
  | ended => exact .same (mem_finish.mp hd').1 fun _ _ => by simp
  | queued => exact hupdate (by simp) (fun _ _ => by simp) hd'
  | @died d =>
    obtain ⟨_, _, _, -, hperish⟩ := r.perish_eq_drop d.generation
    rw [hperish] at hd'
    exact .same (List.mem_filter.mp hd').1 fun _ _ => by simp
  | @called d lease hd _ _ hcancelled =>
    obtain ⟨d₀, hd₀, rfl⟩ := mem_updateDelivery.mp hd'
    by_cases hg : d₀.generation = d.generation
    · obtain rfl := h.eq_of_generation hd₀ (mem_of_delivery? hd) hg
      rw [if_pos rfl]
      exact .called hd₀ ⟨rfl, rfl, rfl, rfl, id⟩ rfl hcancelled rfl rfl
    · rw [if_neg hg]
      exact .same hd₀ fun _ _ => by simp
  | woken => exact hupdate (by simp) (fun _ _ => by simp) hd'
  | renewalTicked =>
    refine .same ?_ fun _ _ => by simp
    rw [renewAll_eq] at hd'
    split at hd' <;> exact hd'
  | @recoveryTicked due =>
    have hflush : ∀ d ∈ ({ r with recoveryTick := some (due + r.plan.recovery.timerMillis) } :
        Replicator α).flush.1.deliveries, DeliveryOrigin r .recoveryTick [] d := by
      refine DeliveryOrigin.flush ?_ ?_ ?_ (fun _ _ => by simp)
      · rfl
      · rfl
      · rfl
    revert hd'
    exact recover_elim _ (fun hd' => .same hd' fun _ _ => by simp) fun _ => hflush d'
  | @delivered d =>
    obtain ⟨hmem, hne⟩ := mem_finish.mp hd'
    exact hother hmem hne
  | @retried d delay hd =>
    obtain ⟨d₀, hd₀, rfl⟩ := mem_updateDelivery.mp hd'
    by_cases hg : d₀.generation = d.generation
    · obtain rfl := h.eq_of_generation hd₀ (mem_of_delivery? hd) hg
      rw [if_pos rfl]
      exact .failed hd₀ ⟨rfl, rfl, rfl, rfl, id⟩ rfl (by simp [inBackoff]) rfl
    · rw [if_neg hg]
      exact hother hd₀ hg
  | @abandoned d =>
    obtain ⟨hmem, hne⟩ := mem_finish.mp hd'
    exact hother hmem hne
  | renewalOver => exact .same hd' fun _ _ => by simp
  | shutDown =>
    obtain ⟨d₀, hd₀, rfl⟩ := List.mem_map.mp hd'
    exact .kept hd₀ ⟨rfl, rfl, rfl, rfl, fun hc => by cases hc⟩ rfl id fun _ => by simp
  | recoveryStopped => exact .same (List.mem_filter.mp hd').1 fun _ _ => by simp
  | _ => exact .same hd' fun _ _ => by simp

/-! ### Deliveries that a section is not about -/

/-- Whether an event is a section of a delivery: it goes on, or its call ends. -/
def Event.isOf (g : Nat) : Event α → Bool
  | .resume (.delivery g') | .callEnded (.delivery g') _ => g' = g
  | _ => false

/-- A delivery that is new, or that was there and may have been cancelled. -/
def Bystander (r : Replicator α) (d' : Delivery α) : Prop :=
  (r.nextGeneration ≤ d'.generation ∧ d'.failures = 0 ∧ d'.stage = .ready) ∨
    ∃ d ∈ r.deliveries, d' = { d with cancelled := d'.cancelled }

theorem Bystander.of_mem {d : Delivery α} (hd : d ∈ r.deliveries) : Bystander r d :=
  .inr ⟨d, hd, rfl⟩

theorem Bystander.withdrawn {d : Delivery α} (h : Bystander r d) (p : Option Pending) :
    Bystander r (withdrawn p d) := by
  unfold Replicator.withdrawn
  split
  · rcases h with hfresh | ⟨d₀, hd₀, hd⟩
    · exact .inl hfresh
    · refine .inr ⟨d₀, hd₀, ?_⟩
      rw [hd]
  · exact h

theorem Bystander.register {r₁ : Replicator α} {key : String} {action : α}
    (hnew : r.nextGeneration ≤ r₁.nextGeneration) (h : ∀ d ∈ r₁.deliveries, Bystander r d) :
    ∀ d ∈ (r₁.register key action).1.deliveries, Bystander r d := by
  intro d hd
  rw [deliveries_register, List.mem_append, List.mem_singleton] at hd
  rcases hd with hd | rfl
  · obtain ⟨d₀, hd₀, rfl⟩ := List.mem_map.mp hd
    exact (h d₀ hd₀).withdrawn _
  · exact .inl ⟨hnew, rfl, rfl⟩

theorem Bystander.flush {r₁ : Replicator α} (hnew : r.nextGeneration ≤ r₁.nextGeneration)
    (h : ∀ d ∈ r₁.deliveries, Bystander r d) :
    ∀ d ∈ r₁.flush.1.deliveries, Bystander r d := by
  refine (flush_induction (motive := fun r₂ => r.nextGeneration ≤ r₂.nextGeneration ∧
    ∀ d ∈ r₂.deliveries, Bystander r d) ?_ r₁ ⟨hnew, h⟩).2
  intro r₂ key _ action ⟨hle, hall⟩ _
  refine ⟨?_, Bystander.register hle hall⟩
  rw [nextGeneration_register]
  exact Nat.le_succ_of_le hle

/-- A section leaves alone the deliveries that it is not about, but that it may cancel them or drop
them. -/
theorem bystander_of_section (hs : Section r now event r' calls) {d' : Delivery α}
    (hd' : d' ∈ r'.deliveries) (hother : event.isOf d'.generation = false) : Bystander r d' := by
  have hold : ∀ d ∈ r.deliveries, Bystander r d := fun d hd => .of_mem hd
  have hupdate : ∀ {g : Nat} (f : Delivery α → Delivery α), (∀ d, (f d).generation = d.generation) →
      g ≠ d'.generation → d' ∈ (r.updateDelivery g f).deliveries → Bystander r d' := by
    intro g f hf hne hmem
    obtain ⟨d₀, hd₀, rfl⟩ := mem_updateDelivery.mp hmem
    by_cases hg : d₀.generation = g
    · rw [if_pos hg, hf] at hne
      exact absurd hg.symm hne
    · rw [if_neg hg]
      exact .of_mem hd₀
  cases hs with
  | registered key action => exact Bystander.register (Nat.le_refl _) hold d' hd'
  | forgotten key =>
    rw [forget_eq] at hd'
    obtain ⟨d₀, hd₀, rfl⟩ := List.mem_map.mp hd'
    exact (Bystander.of_mem hd₀).withdrawn _
  | flushed => exact Bystander.flush (Nat.le_refl _) hold d' hd'
  | ended => exact hold d' (mem_finish.mp hd').1
  | queued => exact hupdate (inStage .queued) (fun _ => rfl) (of_decide_eq_false hother) hd'
  | @died d =>
    obtain ⟨_, _, _, -, hperish⟩ := r.perish_eq_drop d.generation
    rw [hperish] at hd'
    exact hold d' (List.mem_filter.mp hd').1
  | called => exact hupdate (inStage .calling) (fun _ => rfl) (of_decide_eq_false hother) hd'
  | woken => exact hupdate (inStage .ready) (fun _ => rfl) (of_decide_eq_false hother) hd'
  | delivered => exact hold d' (mem_finish.mp hd').1
  | retried =>
    exact hupdate (inBackoff _ _) (fun _ => rfl) (of_decide_eq_false hother) hd'
  | abandoned => exact hold d' (mem_finish.mp hd').1
  | renewalTicked =>
    rw [renewAll_eq] at hd'
    split at hd' <;> exact hold d' hd'
  | @recoveryTicked due =>
    have hflush : ∀ d ∈ ({ r with recoveryTick := some (due + r.plan.recovery.timerMillis) } :
        Replicator α).flush.1.deliveries, Bystander r d :=
      Bystander.flush (Nat.le_refl r.nextGeneration) hold
    revert hd'
    exact recover_elim _ (fun hd' => hold d' hd') fun _ => hflush d'
  | shutDown =>
    obtain ⟨d₀, hd₀, rfl⟩ := List.mem_map.mp hd'
    exact .inr ⟨d₀, hd₀, rfl⟩
  | recoveryStopped => exact hold d' (List.mem_filter.mp hd').1
  | _ => exact hold d' hd'

/-- A delivery that the mark of a key does not name leaves the entry of the key alone. -/
theorem entryFor?_of_isOf (hs : Section r now event r' calls) {g : Nat} (hof : event.isOf g = true)
    {k : String} (hmark : (r.pendingOf k).map (·.generation) ≠ some g) :
    r'.entryFor? k = r.entryFor? k := by
  have hsettled : ∀ (r₁ : Replicator α) (key : String) (q : Option Pending),
      r₁.entryFor? k = r.entryFor? k →
      (r₁.updateEntry key (settled g q)).entryFor? k = r.entryFor? k := by
    intro r₁ key q hentry
    rw [r₁.entryFor?_updateEntry key (settled_key g q), hentry]
    split
    · cases he : r.entryFor? k with
      | none => rfl
      | some e =>
        rw [pendingOf, he] at hmark
        rw [Option.map_some, settled_of_ne hmark]
    · rfl
  cases hs with
  | @died d =>
    obtain ⟨_, _, _, -, hperish⟩ := r.perish_eq_drop d.generation
    rw [hperish]
    rfl
  | @delivered d =>
    obtain rfl : d.generation = g := of_decide_eq_true hof
    exact hsettled (r.attemptOver d.generation) d.key none rfl
  | @abandoned d =>
    obtain rfl : d.generation = g := of_decide_eq_true hof
    exact hsettled (r.attemptOver d.generation) d.key _ rfl
  | ended => rfl
  | queued => rfl
  | called => rfl
  | woken => rfl
  | retried => rfl
  | _ => cases hof

/-! ### Renewals -/

/-- A renewal that is there after a section was there before, or is a new one of an entry. -/
theorem renewal_of_section (hs : Section r now event r' calls) {n' : Renewal}
    (hn' : n' ∈ r'.renewals) :
    (∃ n ∈ r.renewals, n'.number = n.number ∧ n'.key = n.key ∧ n'.lane = n.lane) ∨
      ∃ e ∈ r.entries, n'.key = e.key ∧ n'.lane = e.lane := by
  have hsame : n' ∈ r.renewals →
      (∃ n ∈ r.renewals, n'.number = n.number ∧ n'.key = n.key ∧ n'.lane = n.lane) ∨
        ∃ e ∈ r.entries, n'.key = e.key ∧ n'.lane = e.lane :=
    fun hn => .inl ⟨n', hn, rfl, rfl, rfl⟩
  cases hs with
  | registered key action => exact hsame ((r.register_frame key action).2.1 ▸ hn')
  | forgotten key => rw [forget_eq] at hn'; exact hsame hn'
  | flushed => exact hsame (r.flush_frame.2.1 ▸ hn')
  | @died d =>
    obtain ⟨_, _, _, -, hperish⟩ := r.perish_eq_drop d.generation
    rw [hperish] at hn'
    exact hsame hn'
  | renewalGone => exact hsame (List.mem_filter.mp hn').1
  | renewalOver => exact hsame (List.mem_filter.mp hn').1
  | renewalDied => exact absurd hn' List.not_mem_nil
  | renewalsStopped => exact absurd hn' List.not_mem_nil
  | renewed =>
    obtain ⟨n₀, hn₀, rfl⟩ := List.mem_map.mp hn'
    refine .inl ⟨n₀, hn₀, ?_⟩
    split <;> exact ⟨rfl, rfl, rfl⟩
  | renewalTicked =>
    rw [renewAll_eq] at hn'
    split at hn'
    · rcases List.mem_append.mp hn' with hn' | hn'
      · exact hsame hn'
      · exact .inr (mem_freshRenewals hn').2.2
    · exact hsame hn'
  | @recoveryTicked due =>
    revert hn'
    refine recover_elim _ hsame fun recovering hn' => hsame ?_
    have hframe := flush_frame { r with
      recoveryTick := some (due + r.plan.recovery.timerMillis) }
    exact hframe.2.1 ▸ hn'
  | _ => exact hsame hn'

end Floodgate.Replicator
