import Floodgate.Proofs.Replication.Silence
/-!
# Floodgate.Proofs.Replication.Forget

**Forgetting a key leaves the other keys alone.** A delivery is withdrawn by its generation, not by
its key. So that forgetting a key cannot hit the delivery of another one, a mark has to name
deliveries of its own key only. Every section keeps this (`OwnMarks.section`): a mark and a delivery
of one generation come from one registration.

What remains of forgetting several keys in turn is told key by key: the forgotten keys have no
entry, and the others have the entry and the deliveries that they had.
-/

namespace Floodgate.Replicator

variable {α : Type} {r r' : Replicator α} {now : Int} {event : Event α} {calls : List (Call α)}
  {key k : String} {keys : List String}

/-! ### Marks name deliveries of their own key -/

/-- A delivery of the generation that the mark of a key names is a delivery of that key. -/
def OwnMarks (r : Replicator α) : Prop :=
  ∀ key p, r.pendingOf key = some p → ∀ d ∈ r.deliveries, d.generation = p.generation → d.key = key

theorem OwnMarks.start (plan : ReplicationPlan) (now : Int) :
    OwnMarks (Replicator.start plan now : Replicator α) :=
  fun _ _ _ _ hd => absurd hd List.not_mem_nil

theorem OwnMarks.register (ho : OwnMarks r) (h : Sound r) (key : String) (action : α) :
    OwnMarks (r.register key action).1 := by
  intro k p hp d hd hg
  rw [pendingOf_register] at hp
  rw [deliveries_register, List.mem_append, List.mem_singleton] at hd
  rcases hd with hd | rfl
  · obtain ⟨d₀, hd₀, rfl⟩ := List.mem_map.mp hd
    obtain ⟨hg₀, hkey, -, -, -, -⟩ := withdrawn_fields (r.pendingOf key) d₀
    rw [hg₀] at hg
    split at hp
    · -- the new mark names a new generation
      cases hp
      exact absurd hg (Nat.ne_of_lt (h.generation_lt d₀ hd₀))
    · exact hkey.trans (ho k p hp d₀ hd₀ hg)
  · split at hp
    · next hk => exact hk.symm
    · exact absurd hg.symm (Nat.ne_of_lt (h.pending_lt k p hp))

theorem OwnMarks.flush (ho : OwnMarks r) (h : Sound r) : OwnMarks r.flush.1 :=
  (flush_induction (motive := fun r => Sound r ∧ OwnMarks r)
    (fun _ key _ action hr _ => ⟨hr.1.register key action, hr.2.register hr.1 key action⟩) r
    ⟨h, ho⟩).2

/-- A section that starts no delivery. -/
theorem OwnMarks.of_nextGeneration (ho : OwnMarks r) (h : Sound r)
    (hs : Section r now event r' calls) (hnext : r'.nextGeneration = r.nextGeneration) :
    OwnMarks r' := by
  intro k p hp d' hd' hg
  have hlt : d'.generation < r.nextGeneration := hnext ▸ (h.section hs).generation_lt d' hd'
  obtain ⟨q, hq, hgq⟩ := (pending_generation_of_section hs hp).resolve_right fun hnew =>
    absurd (hg ▸ hlt) (Nat.not_lt.mpr hnew)
  have hfollowed : ∀ d ∈ r.deliveries, Follows d d' → d'.key = k := by
    intro d hd hf
    exact hf.key.trans (ho k q hq d hd (hf.generation.symm.trans (hg.trans hgq.symm)))
  cases delivery_of_section h hs hd' with
  | fresh hnew => exact absurd hlt (Nat.not_lt.mpr hnew)
  | kept hd hf => exact hfollowed _ hd hf
  | called hd hf => exact hfollowed _ hd hf
  | failed hd hf => exact hfollowed _ hd hf

theorem OwnMarks.section (ho : OwnMarks r) (h : Sound r) (hs : Section r now event r' calls) :
    OwnMarks r' := by
  have hold := ho.of_nextGeneration h hs
  cases hs with
  | registered key action => exact ho.register h key action
  | flushed => exact ho.flush h
  | @recoveryTicked due =>
    have htick : Sound { r with recoveryTick := some (due + r.plan.recovery.timerMillis) } :=
      h.congr rfl rfl rfl rfl rfl rfl
    exact recover_elim _ ho fun _ => OwnMarks.flush ho htick
  | forgotten key => exact hold (by rw [forget_eq])
  | @died d =>
    obtain ⟨_, _, _, -, hperish⟩ := r.perish_eq_drop d.generation
    exact hold (by rw [hperish]; rfl)
  | renewalTicked => exact hold (by rw [renewAll_eq]; split <;> rfl)
  | _ => exact hold rfl

/-! ### Other keys -/

/-- The unfinished deliveries of a key. -/
def deliveriesOf (r : Replicator α) (key : String) : List (Delivery α) :=
  r.deliveries.filter (·.key = key)

theorem OwnMarks.deliveriesOf_forget (ho : OwnMarks r) (hk : k ≠ key) :
    (r.forget key).deliveriesOf k = r.deliveriesOf k := by
  have hkey : ∀ d : Delivery α, (withdrawn (r.pendingOf key) d).key = d.key := fun d =>
    (withdrawn_fields (r.pendingOf key) d).2.1
  have hkept : ∀ d ∈ r.deliveriesOf k, withdrawn (r.pendingOf key) d = d := by
    intro d hd
    obtain ⟨hd, hdk⟩ := List.mem_filter.mp hd
    refine if_neg fun hown => ?_
    obtain ⟨p, hp, hg⟩ := Option.map_eq_some_iff.mp hown
    exact hk ((of_decide_eq_true hdk).symm.trans (ho key p hp d hd hg.symm))
  calc (r.forget key).deliveriesOf k
      = (r.deliveries.map (withdrawn (r.pendingOf key))).filter (·.key = k) := by
        rw [deliveriesOf, forget_eq]
    _ = (r.deliveriesOf k).map (withdrawn (r.pendingOf key)) := by
        simp only [List.filter_map, deliveriesOf, Function.comp_def, hkey]
    _ = r.deliveriesOf k := (List.map_congr_left hkept).trans (List.map_id _)

/-! ### Forgetting several keys -/

theorem Sound.forgetAll (h : Sound r) (keys : List String) :
    Sound (keys.foldl Replicator.forget r) := by
  induction keys generalizing r with
  | nil => exact h
  | cons key rest ih => exact ih (h.forget key)

theorem OwnMarks.forgetAll (ho : OwnMarks r) (h : Sound r) (keys : List String) :
    OwnMarks (keys.foldl Replicator.forget r) := by
  induction keys generalizing r with
  | nil => exact ho
  | cons key rest ih =>
    have hs : Section r 0 (.forget key) (r.forget key) [] := .forgotten key
    exact ih (ho.section h hs) (h.forget key)

theorem entryFor?_forgetAll (r : Replicator α) (keys : List String) (k : String) :
    (keys.foldl Replicator.forget r).entryFor? k =
      if k ∈ keys then none else r.entryFor? k := by
  induction keys generalizing r with
  | nil => rfl
  | cons key rest ih =>
    rw [List.foldl_cons, ih, entryFor?_forget]
    by_cases hrest : k ∈ rest
    · rw [if_pos hrest, if_pos (List.mem_cons_of_mem _ hrest)]
    · simp only [List.mem_cons, hrest, or_false, if_false]

theorem OwnMarks.deliveriesOf_forgetAll (ho : OwnMarks r) (h : Sound r) (hk : k ∉ keys) :
    (keys.foldl Replicator.forget r).deliveriesOf k = r.deliveriesOf k := by
  induction keys generalizing r with
  | nil => rfl
  | cons key rest ih =>
    obtain ⟨hkey, hrest⟩ := not_or.mp (mt List.mem_cons.mpr hk)
    have hs : Section r 0 (.forget key) (r.forget key) [] := .forgotten key
    exact (ih (ho.section h hs) (h.forget key) hrest).trans (ho.deliveriesOf_forget hkey)

/-- Forgetting concerns entries and deliveries only. -/
theorem forgetAll_eq (r : Replicator α) (keys : List String) : ∃ entries deliveries,
    keys.foldl Replicator.forget r = { r with entries, deliveries } := by
  induction keys generalizing r with
  | nil => exact ⟨_, _, rfl⟩
  | cons key rest ih =>
    obtain ⟨entries, deliveries, heq⟩ := ih (r.forget key)
    refine ⟨entries, deliveries, ?_⟩
    rw [List.foldl_cons, heq, forget_eq]

end Floodgate.Replicator
