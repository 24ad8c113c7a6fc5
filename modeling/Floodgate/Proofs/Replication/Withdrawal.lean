import Floodgate.Proofs.Replication.Attempts
/-!
# Floodgate.Proofs.Replication.Withdrawal

**A write that has been withdrawn is not called any more.** A write is withdrawn when another one is
registered for its key, when the key is forgotten and when the replicator is shut down. Its delivery
belongs to the key for good (`Belongs`), so that withdrawing cancels it if it is left (`Withdrawn`),
and whoever is cancelled starts no call and ends at the next occasion: at rest it is gone, unless
its last call is in progress or another call of the key keeps it in line. A delivery that has gone
with its task is withdrawn, too, and never returns (`Run.dead_for_good`).
-/

namespace Floodgate.Replicator

variable {α : Type} {r r' : Replicator α} {now : Int} {event : Event α} {calls : List (Call α)}

namespace Clocked

variable {plan : ReplicationPlan} {since : Int} {conduct : Conduct α}
  {past later earlier : List (Clocked α × Deed α)} {s s' s₀ : Clocked α} {deed : Deed α}
  {w : Execution α} {key : String} {action : α}

/-- Who starts a call goes on. -/
theorem resume_of_call {c : Call α} (hs : Section r now event r' [c]) :
    event = .resume c.caller := by
  cases hs <;> rfl

/-- A generation that is given out belongs to a key. -/
def Belongs (g : Nat) (key : String) (r : Replicator α) : Prop :=
  g < r.nextGeneration ∧ ∀ d ∈ r.deliveries, d.generation = g → d.key = key

theorem Belongs.section {g : Nat} (h : Belongs g key r) (hsound : Sound r)
    (hs : Section r now event r' calls) : Belongs g key r' := by
  refine ⟨Nat.lt_of_lt_of_le h.1 (frame_of_section hs).2.1, fun d' hd' hg => ?_⟩
  obtain ⟨d, hd, hfollows⟩ := follows_of_section hsound hs hd' (hg ▸ h.1)
  rw [hfollows.key]
  exact h.2 d hd (hfollows.generation.symm.trans hg)

/-- The delivery of a generation, if it is left, has been cancelled. -/
def Withdrawn (g : Nat) (r : Replicator α) : Prop :=
  g < r.nextGeneration ∧ ∀ d ∈ r.deliveries, d.generation = g → d.cancelled = true

theorem Withdrawn.section {g : Nat} (h : Withdrawn g r) (hsound : Sound r)
    (hs : Section r now event r' calls) : Withdrawn g r' := by
  refine ⟨Nat.lt_of_lt_of_le h.1 (frame_of_section hs).2.1, fun d' hd' hg => ?_⟩
  obtain ⟨d, hd, hfollows⟩ := follows_of_section hsound hs hd' (hg ▸ h.1)
  have hcancelled := h.2 d hd (hfollows.generation.symm.trans hg)
  cases hlive : d'.cancelled with
  | true => rfl
  | false => rw [hfollows.cancelled hlive] at hcancelled; cases hcancelled

theorem Withdrawn.caller_ne {g : Nat} (h : Withdrawn g r) {c : Call α}
    (hs : Section r now event r' [c]) : c.caller ≠ .delivery g := by
  cases hs with
  | renewed => simp
  | @called d _ hd _ _ hlive =>
    intro hc
    rw [h.2 d (mem_of_delivery? hd) (Caller.delivery.inj hc)] at hlive
    cases hlive

/-- A write is withdrawn by another write of its key, with its key, and with everything. -/
theorem Belongs.withdrawn {g : Nat} (h : Belongs g key r) (hsound : Sound r)
    (hs : Section r now event r' calls) (hwithdraws : event.withdraws key = true) :
    Withdrawn g r' := by
  have hbelongs := h.section hsound hs
  refine ⟨hbelongs.1, fun d hd hg => ?_⟩
  cases hlive : d.cancelled with
  | true => rfl
  | false =>
    -- the mark of the key would be its own
    have hmark := (hsound.section hs).pendingOf_of_live hd hlive
    rw [hbelongs.2 d hd hg, hg] at hmark
    cases hs with
    | registered k action =>
      obtain rfl : k = key := of_decide_eq_true hwithdraws
      rw [pendingOf_register, if_pos rfl] at hmark
      cases hmark
      exact absurd h.1 (Nat.lt_irrefl _)
    | forgotten k =>
      obtain rfl : k = key := of_decide_eq_true hwithdraws
      rw [pendingOf_forget, if_pos rfl] at hmark
      cases hmark
    | shutDown =>
      obtain ⟨d₀, -, rfl⟩ := List.mem_map.mp hd
      cases hlive
    | _ => cases hwithdraws

/-! ### Runs -/

/-- What sections keep, deeds keep. -/
theorem Acts.keeps {motive : Replicator α → Prop} (h : Acts conduct s deed s')
    (hsound : Sound s.replicator)
    (hsection : ∀ r r' event calls, Sound r → Section r s.now event r' calls → motive r → motive r')
    (hs : motive s.replicator) : motive s'.replicator := by
  cases h with
  | waited => exact hs
  | went _ hstep => exact hsection _ _ _ _ hsound (section_of_step hstep) hs
  | called hstep _ hover =>
    exact hsection _ _ _ _ (hsound.step hstep) (section_of_step hover)
      (hsection _ _ _ _ hsound (section_of_step hstep) hs)
  | began hstep => exact hsection _ _ _ _ hsound (section_of_step hstep) hs
  | returned _ _ _ _ hstep => exact hsection _ _ _ _ hsound (section_of_step hstep) hs

/-- What registering a write leads to. -/
theorem Run.of_register
    (h : Run plan since conduct ((s₀, .go (.register key action)) :: earlier) s) :
    Run plan since conduct earlier s₀ ∧
      s = { s₀ with replicator := (s₀.replicator.register key action).1 } := by
  cases h with
  | next hpast hact =>
    refine ⟨hpast, ?_⟩
    cases acts_of_act hact with
    | went _ hstep =>
      cases hstep
      rfl
    | called hstep => cases hstep
    | began hstep => cases hstep

/-- The generation under which a write is registered belongs to the key of the write for good. -/
theorem Run.belongs
    (h : Run plan since conduct (later ++ (s₀, .go (.register key action)) :: earlier) s) :
    Belongs s₀.replicator.nextGeneration key s.replicator := by
  induction later generalizing s with
  | nil =>
    obtain ⟨hpast, rfl⟩ := h.of_register
    obtain ⟨_, hrun, -⟩ := hpast.history
    refine ⟨by simp, fun d hd hg => ?_⟩
    rw [deliveries_register, List.mem_append, List.mem_singleton] at hd
    rcases hd with hd | rfl
    · obtain ⟨d₀, hd₀, rfl⟩ := List.mem_map.mp hd
      rw [withdrawn_generation] at hg
      exact absurd (hrun.sound.generation_lt d₀ hd₀) (hg ▸ Nat.lt_irrefl _)
    · rfl
  | cons x rest ih =>
    cases h with
    | next hpast hact =>
      obtain ⟨_, hrun, -⟩ := hpast.history
      exact (acts_of_act hact).keeps hrun.sound (fun _ _ _ _ hsound hs h => h.section hsound hs)
        (ih hpast)

/-- The calls of a withdrawn delivery are those that it had made. -/
theorem Withdrawn.records {g : Nat} (h : Withdrawn g s.replicator)
    (hacts : Acts conduct s deed s') :
    (s'.attempts g).map (·.record) = (s.attempts g).map (·.record) := by
  cases hacts with
  | waited => rfl
  | went => rfl
  | called hstep => rw [attempts_note, if_neg (h.caller_ne (section_of_step hstep))]
  | began hstep => rw [attempts_note, if_neg (h.caller_ne (section_of_step hstep))]
  | returned =>
    rw [attempts_return, List.map_map]
    exact List.map_congr_left fun n _ => (return_fields _ _ n).2.2

/-- Once its write has been withdrawn, a delivery makes no further attempt. -/
theorem Run.withdrawn {newer older : List (Clocked α × Deed α)} {s₁ : Clocked α}
    (h : Run plan since conduct (newer ++ (s₁, deed) :: older) s) {g : Nat}
    (hbelongs : Belongs g key s₁.replicator) (hwithdraws : deed.withdraws key = true) :
    Withdrawn g s.replicator ∧
      (s.attempts g).map (·.record) = (s₁.attempts g).map (·.record) := by
  induction newer generalizing s with
  | nil =>
    cases h with
    | next hpast hact =>
      obtain ⟨_, hrun, -⟩ := hpast.history
      cases acts_of_act hact with
      | waited => cases hwithdraws
      | went _ hstep =>
        exact ⟨hbelongs.withdrawn hrun.sound (section_of_step hstep) hwithdraws, rfl⟩
      | called hstep =>
        obtain rfl := resume_of_call (section_of_step hstep)
        cases hwithdraws
      | began hstep =>
        obtain rfl := resume_of_call (section_of_step hstep)
        cases hwithdraws
      | returned => cases hwithdraws
  | cons x rest ih =>
    cases h with
    | next hpast hact =>
      obtain ⟨_, hrun, -⟩ := hpast.history
      obtain ⟨hwithdrawn, hrecords⟩ := ih hpast
      have hacts := acts_of_act hact
      exact ⟨hacts.keeps hrun.sound (fun _ _ _ _ hsound hs h => h.section hsound hs) hwithdrawn,
        (hwithdrawn.records hacts).trans hrecords⟩

/-- A delivery that has gone with its task makes no further attempt and never returns. -/
theorem Run.dead_for_good {newer past : List (Clocked α × Deed α)} {s₁ : Clocked α}
    (h : Run plan since conduct (newer ++ past) s) (h₁ : Run plan since conduct past s₁) {g : Nat}
    (hdead : g ∈ s₁.replicator.dead) (hgone : Withdrawn g s₁.replicator) :
    s.replicator.hasReturned g = false ∧
      (s.attempts g).map (·.record) = (s₁.attempts g).map (·.record) := by
  suffices hall : (g ∈ s.replicator.dead ∧ Withdrawn g s.replicator) ∧
      (s.attempts g).map (·.record) = (s₁.attempts g).map (·.record) by
    refine ⟨Bool.eq_false_iff.mpr fun hreturned => ?_, hall.2⟩
    exact (hasReturned_iff.mp hreturned).2 hall.1.1
  induction newer generalizing s with
  | nil =>
    obtain rfl := h.unique h₁
    exact ⟨⟨hdead, hgone⟩, rfl⟩
  | cons x rest ih =>
    cases h with
    | next hpast hact =>
      obtain ⟨_, hrun, -⟩ := hpast.history
      obtain ⟨hkept, hrecords⟩ := ih hpast
      have hacts := acts_of_act hact
      refine ⟨hacts.keeps (motive := fun r => g ∈ r.dead ∧ Withdrawn g r) hrun.sound ?_ hkept,
        (hkept.2.records hacts).trans hrecords⟩
      intro r r' event calls hsound hs ⟨hmem, hwithdrawn⟩
      obtain ⟨more, hmore, -⟩ := dead_of_section hs
      exact ⟨hmore ▸ List.mem_append_left _ hmem, hwithdrawn.section hsound hs⟩

/-- At rest a withdrawn delivery has ended, unless its last call is in progress or it is held up. -/
theorem Withdrawn.at_rest (h : Withdrawn w.generation s.replicator)
    (hbelongs : Belongs w.generation w.key s.replicator) (hrun : Run plan since conduct past s)
    (hsettled : s.isSettled = true) :
    s.replicator.delivery? w.generation = none ∨
      s.replicator.isCalling (.delivery w.generation) = true ∨ HeldUp w s.replicator := by
  cases hfound : s.replicator.delivery? w.generation with
  | none => exact .inl rfl
  | some d =>
    right
    have hd := mem_of_delivery? hfound
    have hg := delivery?_generation hfound
    have hcancelled := h.2 d hd hg
    have hnone := resume_of_isSettled hsettled hd
    rw [← hg] at hfound
    cases hstage : d.stage with
    | ready =>
      rw [step_gone hfound hstage hcancelled] at hnone
      cases hnone
    | queued =>
      exact .inr (heldUp_of_isSettled hrun hsettled hd hg (hbelongs.2 d hd hg) hstage)
    | calling =>
      refine .inl (List.any_eq_true.mpr ⟨d, hd, ?_⟩)
      simp [hg, hstage]
    | backoff until_ =>
      rw [step_woken hfound hstage (.inl hcancelled)] at hnone
      cases hnone

end Clocked

end Floodgate.Replicator
