import Floodgate.Proofs.Replication.Line
import Floodgate.Proofs.Replication.Pending
/-!
# Floodgate.Proofs.Replication.Silence

**Forgetting a key and shutting down silence what was under way.** A forgotten key can have work
parked at five places: a delivery in line or in a retry delay, a renewal in line, and deliveries
that a flush or a tick of the recovery loop has just collected. None of it calls, and none of it
touches an entry that is made for the key later, since each looks first whether it still counts. The
same goes for all keys once the replicator has been shut down and its loops have noticed; then, in
addition, nobody waits in vain: a delivery that is left goes on and ends as soon as the calls in
progress for its key have ended (`silent_after_forget_and_shutDown`).

Design points:

* **No entry, no call.** A call that starts calls the latest write of its key, so a key without an
  entry is silent. Only registering a write by name makes an entry.
* **Generations tell old work from new.** What was under way when a key was forgotten has a
  generation below the next one; the mark of an entry made later has not.
* **A cancelled delivery goes on twice at most**: once to wake from its retry delay, and once to
  leave.
-/

namespace Floodgate.Replicator

variable {α : Type} {r r' : Replicator α} {now : Int} {event : Event α} {calls : List (Call α)}
  {plan : ReplicationPlan} {since : Int} {history : List (Moment α)}

/-! ### A key that has been forgotten -/

/-- The mark of a key after a section is of the generation that it was of before, or of a new
one. -/
theorem pending_generation_of_section (hs : Section r now event r' calls) {k : String}
    {p : Pending} (hp : r'.pendingOf k = some p) :
    (∃ q, r.pendingOf k = some q ∧ q.generation = p.generation) ∨
      r.nextGeneration ≤ p.generation := by
  -- a flush registers again what was given up, each write under a new generation
  have hflush : ∀ r₁ : Replicator α, r₁.pendingOf k = r.pendingOf k →
      r₁.nextGeneration = r.nextGeneration → r₁.flush.1.pendingOf k = some p →
      (∃ q, r.pendingOf k = some q ∧ q.generation = p.generation) ∨
        r.nextGeneration ≤ p.generation := by
    intro r₁ hmark hnext
    refine (flush_induction (motive := fun r₂ => r.nextGeneration ≤ r₂.nextGeneration ∧
      (r₂.pendingOf k = some p → (∃ q, r.pendingOf k = some q ∧ q.generation = p.generation) ∨
        r.nextGeneration ≤ p.generation)) ?_ r₁ ⟨Nat.le_of_eq hnext.symm, ?_⟩).2
    · intro r₂ key _ action ⟨hle, hmark⟩ _
      rw [nextGeneration_register, pendingOf_register]
      refine ⟨Nat.le_succ_of_le hle, fun hp => ?_⟩
      split at hp
      · cases hp
        exact .inr hle
      · exact hmark hp
    · intro hp
      exact .inl ⟨p, hmark ▸ hp, rfl⟩
  -- the end of an attempt clears the mark, or leaves it with its generation
  have hsettled : ∀ (r₁ : Replicator α) (key : String) (g : Nat) (q : Option Pending),
      (∀ p', q = some p' → p'.generation = g) → r₁.pendingOf k = r.pendingOf k →
      (r₁.updateEntry key (settled g q)).pendingOf k = some p →
      ∃ q, r.pendingOf k = some q ∧ q.generation = p.generation := by
    intro r₁ key g q hq hmark hp
    rw [pendingOf_settled, hmark] at hp
    split at hp
    · rename_i hown
      obtain ⟨p', hp', hg⟩ := Option.map_eq_some_iff.mp hown.2
      exact ⟨p', hp', hg.trans (hq p hp).symm⟩
    · exact ⟨p, hp, rfl⟩
  cases hs with
  | registered key action =>
    rw [pendingOf_register] at hp
    split at hp
    · cases hp
      exact .inr (Nat.le_refl _)
    · exact .inl ⟨p, hp, rfl⟩
  | forgotten key =>
    rw [pendingOf_forget] at hp
    split at hp
    · cases hp
    · exact .inl ⟨p, hp, rfl⟩
  | flushed => exact hflush r rfl rfl hp
  | @died d =>
    obtain ⟨_, _, _, -, hperish⟩ := r.perish_eq_drop d.generation
    rw [hperish] at hp
    exact .inl ⟨p, hp, rfl⟩
  | @delivered d =>
    exact .inl (hsettled (r.attemptOver d.generation) d.key d.generation none
      (fun _ hq => by cases hq) rfl hp)
  | @abandoned d =>
    exact .inl (hsettled (r.attemptOver d.generation) d.key d.generation _
      (fun _ hq => by cases hq; rfl) rfl hp)
  | renewalTicked =>
    rw [renewAll_eq] at hp
    split at hp <;> exact .inl ⟨p, hp, rfl⟩
  | @recoveryTicked due =>
    have hticked := hflush { r with recoveryTick := some (due + r.plan.recovery.timerMillis) }
      rfl rfl
    revert hp
    exact recover_elim _ (fun hp => .inl ⟨p, hp, rfl⟩) fun _ hp => hticked hp
  | _ => exact .inl ⟨p, hp, rfl⟩

/-- The marks of a key are of generations from one on. -/
def MarkedFrom (key : String) (g : Nat) (r : Replicator α) : Prop :=
  g ≤ r.nextGeneration ∧ ∀ p, r.pendingOf key = some p → g ≤ p.generation

theorem MarkedFrom.section {key : String} {g : Nat} (h : MarkedFrom key g r)
    (hs : Section r now event r' calls) : MarkedFrom key g r' := by
  obtain ⟨hle, hmark⟩ := h
  refine ⟨Nat.le_trans hle (frame_of_section hs).2.1, fun p hp => ?_⟩
  rcases pending_generation_of_section hs hp with ⟨q, hq, hg⟩ | hnew
  · exact hg ▸ hmark q hq
  · exact Nat.le_trans hle hnew

/-- Once a replicator has been shut down its deliveries are cancelled, and a renewal loop that has
stopped leaves no renewals. -/
structure Dampened (r : Replicator α) : Prop where
  cancelled : r.isShutDown = true → ∀ d ∈ r.deliveries, d.cancelled = true
  renewals : r.renewalTick = none → r.renewals = []

theorem Dampened.of_parts (h : Dampened r) (hdown : r'.isShutDown = r.isShutDown)
    (htick : r'.renewalTick = r.renewalTick) (hrenewals : r.renewals = [] → r'.renewals = [])
    (hcancelled : ∀ d' ∈ r'.deliveries, ∃ d ∈ r.deliveries, d'.cancelled = false →
      d.cancelled = false) : Dampened r' where
  cancelled hd d' hd' := by
    obtain ⟨d, hmem, himp⟩ := hcancelled d' hd'
    have htrue := h.cancelled (hdown ▸ hd) d hmem
    cases hc : d'.cancelled with
    | true => rfl
    | false => exact absurd (himp hc) (by simp [htrue])
  renewals ht := hrenewals (h.renewals (htick ▸ ht))

/-- Dropping deliveries. -/
theorem Dampened.of_subset (h : Dampened r) (hdown : r'.isShutDown = r.isShutDown)
    (htick : r'.renewalTick = r.renewalTick) (hrenewals : r.renewals = [] → r'.renewals = [])
    (hdeliveries : r'.deliveries ⊆ r.deliveries) : Dampened r' :=
  h.of_parts hdown htick hrenewals fun d' hd' => ⟨d', hdeliveries hd', id⟩

theorem Dampened.updateDelivery (h : Dampened r) (g : Nat) {f : Delivery α → Delivery α}
    (hf : ∀ d, (f d).cancelled = d.cancelled) : Dampened (r.updateDelivery g f) := by
  refine h.of_parts rfl rfl id fun d' hd' => ?_
  obtain ⟨d, hd, rfl⟩ := mem_updateDelivery.mp hd'
  refine ⟨d, hd, fun hc => ?_⟩
  split at hc
  · exact (hf d).symm.trans hc
  · exact hc

theorem Dampened.withdraw (h : Dampened r) (p : Option Pending) :
    Dampened { r with deliveries := r.deliveries.map (withdrawn p) } := by
  refine h.of_parts rfl rfl id fun d' hd' => ?_
  obtain ⟨d, hd, rfl⟩ := List.mem_map.mp hd'
  exact ⟨d, hd, fun hc => (withdrawn_cancelled_eq_false hc).1⟩

/-- A write that is registered after the shut-down is cancelled from the start. -/
theorem Dampened.register (h : Dampened r) (key : String) (action : α) :
    Dampened (r.register key action).1 := by
  obtain ⟨-, hrenewals, -, -, -, -, hdown, -⟩ := r.register_frame key action
  have hold := h.withdraw (r.pendingOf key)
  constructor
  · intro hd d hmem
    rw [deliveries_register, List.mem_append, List.mem_singleton] at hmem
    rcases hmem with hmem | rfl
    · exact hold.cancelled (hdown ▸ hd) d hmem
    · exact hdown.symm.trans hd
  · rw [hrenewals, (r.register_ticks key action).1]
    exact h.renewals

theorem Dampened.flush (h : Dampened r) : Dampened r.flush.1 :=
  flush_induction (fun _ key _ action h _ => h.register key action) r h

theorem Dampened.section (h : Dampened r) (hs : Section r now event r' calls) : Dampened r' := by
  cases hs with
  | registered key action => exact h.register key action
  | forgotten key =>
    rw [forget_eq]
    exact (h.withdraw (r.pendingOf key)).of_subset rfl rfl id (List.Subset.refl _)
  | flushed => exact h.flush.of_subset rfl rfl id (List.Subset.refl _)
  | ended => exact h.of_subset rfl rfl id fun _ hd => (mem_finish.mp hd).1
  | @queued d =>
    exact (h.updateDelivery d.generation (f := inStage .queued) fun _ => rfl).of_subset rfl rfl id
      (List.Subset.refl _)
  | @died d =>
    obtain ⟨_, _, _, -, hperish⟩ := r.perish_eq_drop d.generation
    rw [hperish]
    exact h.of_subset rfl rfl id fun _ hd => (List.mem_filter.mp hd).1
  | @called d =>
    exact (h.updateDelivery d.generation (f := inStage .calling) fun _ => rfl).of_subset rfl rfl id
      (List.Subset.refl _)
  | woken => exact h.updateDelivery _ fun _ => rfl
  | @renewalGone n =>
    refine h.of_subset rfl rfl (fun hnil => ?_) (List.Subset.refl _)
    show r.renewals.filter _ = []
    rw [hnil, List.filter_nil]
  | renewalDied => exact ⟨h.cancelled, fun _ => rfl⟩
  | renewed =>
    refine h.of_subset rfl rfl (fun hnil => ?_) (List.Subset.refl _)
    show r.renewals.map _ = []
    rw [hnil, List.map_nil]
  | delivered => exact h.of_subset rfl rfl id fun _ hd => (mem_finish.mp hd).1
  | @retried d delay =>
    exact (h.updateDelivery d.generation (f := inBackoff (d.failures + 1)
      (now + delay.timerMillis)) fun _ => rfl).of_subset rfl rfl id (List.Subset.refl _)
  | abandoned => exact h.of_subset rfl rfl id fun _ hd => (mem_finish.mp hd).1
  | renewalOver =>
    refine h.of_subset rfl rfl (fun hnil => ?_) (List.Subset.refl _)
    show r.renewals.filter _ = []
    rw [hnil, List.filter_nil]
  | renewalTicked =>
    rw [renewAll_eq]
    split
    · exact ⟨h.cancelled, fun hnone => by cases hnone⟩
    · exact ⟨h.cancelled, fun hnone => by cases hnone⟩
  | @recoveryTicked due =>
    have htick : Dampened { r with recoveryTick := some (due + r.plan.recovery.timerMillis) } :=
      ⟨h.cancelled, h.renewals⟩
    refine recover_elim _ htick fun _ => ?_
    exact htick.flush.of_subset rfl rfl id (List.Subset.refl _)
  | shutDown =>
    refine ⟨fun _ d hd => ?_, h.renewals⟩
    obtain ⟨_, -, rfl⟩ := List.mem_map.mp hd
    rfl
  | renewalsStopped => exact ⟨h.cancelled, fun _ => rfl⟩
  | recoveryStopped => exact h.of_subset rfl rfl id fun _ hd => (List.mem_filter.mp hd).1

/-- Whether an event lets a delivery go on. -/
def Event.resumes (g : Nat) : Event α → Bool
  | .resume (.delivery g') => g' = g
  | _ => false

/-- How often a cancelled delivery can still go on, from where it stands. -/
def stretches : Delivery.Stage → Nat
  | .ready | .queued => 1
  | .calling | .backoff _ => 2

/-- The delivery of a generation, if it is there or still to come, goes on so often at most. -/
def EndsWithin (g n : Nat) (r : Replicator α) : Prop :=
  (∀ d ∈ r.deliveries, d.generation = g → stretches d.stage ≤ n) ∧ (r.nextGeneration ≤ g → 1 ≤ n)

theorem one_le_stretches (stage : Delivery.Stage) : 1 ≤ stretches stage := by
  cases stage <;> simp [stretches]

/-- A delivery that has ended does not go on any more. -/
theorem EndsWithin.finish {r₁ : Replicator α} {g n : Nat} (hg : g < r₁.nextGeneration)
    (hgone : ∀ d ∈ r₁.deliveries, d.generation ≠ g) : EndsWithin g n r₁ :=
  ⟨fun d hd hdg => absurd hdg (hgone d hd), fun hle => absurd hle (Nat.not_le_of_lt hg)⟩

theorem EndsWithin.section {g n : Nat} (h : EndsWithin g n r) (hsound : Sound r)
    (hcancelled : ∀ d ∈ r.deliveries, d.cancelled = true) (hs : Section r now event r' calls) :
    ∃ n', EndsWithin g n' r' ∧ n' + (if event.resumes g then 1 else 0) = n := by
  have hnext := (frame_of_section hs).2.1
  cases hof : event.isOf g with
  | false =>
    have hresumes : event.resumes g = false := by
      cases event with
      | resume caller => cases caller <;> exact hof
      | _ => rfl
    refine ⟨n, ⟨fun d' hd' hg => ?_, fun hle => h.2 (Nat.le_trans hnext hle)⟩, by simp [hresumes]⟩
    rcases bystander_of_section hs hd' (hg ▸ hof) with ⟨hnew, -, hready⟩ | ⟨d, hd, heq⟩
    · rw [hready]
      exact h.2 (hg ▸ hnew)
    · rw [heq] at hg ⊢
      exact h.1 d hd hg
  | true =>
    -- the delivery is there, and how far it may still go is known from its stage
    have hgone : ∀ {r₁ : Replicator α}, ∀ d ∈ (r₁.finish g).deliveries, d.generation ≠ g :=
      fun d hd => (mem_finish.mp hd).2
    cases hs with
    | @ended d hd =>
      obtain rfl : d.generation = g := of_decide_eq_true hof
      have hd := mem_of_delivery? hd
      have hle := Nat.le_trans (one_le_stretches d.stage) (h.1 d hd rfl)
      exact ⟨n - 1, .finish (hsound.generation_lt d hd) hgone, by simp [Event.resumes]; omega⟩
    | @woken d until_ hd hstage =>
      obtain rfl : d.generation = g := of_decide_eq_true hof
      have hmem := mem_of_delivery? hd
      have hle := h.1 d hmem rfl
      rw [hstage] at hle
      refine ⟨n - 1, ⟨fun d' hd' hg => ?_, fun hlt => ?_⟩, by
        simp [Event.resumes, stretches] at hle ⊢; omega⟩
      · obtain ⟨d₀, hd₀, rfl⟩ := mem_updateDelivery.mp hd'
        by_cases hg₀ : d₀.generation = d.generation
        · rw [if_pos hg₀]
          simp only [inStage, stretches] at hle ⊢
          omega
        · rw [if_neg hg₀] at hg
          exact absurd hg hg₀
      · exact absurd hlt (Nat.not_le_of_lt (hsound.generation_lt d hmem))
    | @queued d hd _ hlive => rw [hcancelled d (mem_of_delivery? hd)] at hlive; cases hlive
    | @died d hd _ _ hlive => rw [hcancelled d (mem_of_delivery? hd)] at hlive; cases hlive
    | @called d _ hd _ _ hlive => rw [hcancelled d (mem_of_delivery? hd)] at hlive; cases hlive
    | @delivered d hd =>
      obtain rfl : d.generation = g := of_decide_eq_true hof
      exact ⟨n, .finish (hsound.generation_lt d (mem_of_delivery? hd)) hgone, rfl⟩
    | @abandoned d hd =>
      obtain rfl : d.generation = g := of_decide_eq_true hof
      exact ⟨n, .finish (hsound.generation_lt d (mem_of_delivery? hd)) hgone, rfl⟩
    | @retried d delay hd hstage =>
      obtain rfl : d.generation = g := of_decide_eq_true hof
      have hmem := mem_of_delivery? hd
      have hle := h.1 d hmem rfl
      rw [hstage] at hle
      refine ⟨n, ⟨fun d' hd' hg => ?_, fun hlt => ?_⟩, rfl⟩
      · obtain ⟨d₀, hd₀, rfl⟩ := mem_updateDelivery.mp hd'
        by_cases hg₀ : d₀.generation = d.generation
        · rw [if_pos hg₀]
          exact hle
        · rw [if_neg hg₀] at hg
          exact absurd hg hg₀
      · exact absurd hlt (Nat.not_le_of_lt (hsound.generation_lt d hmem))
    | _ => cases hof

end Floodgate.Replicator
