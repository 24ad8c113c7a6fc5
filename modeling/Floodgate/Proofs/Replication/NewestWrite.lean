import Floodgate.Proofs.Replication.Lane
/-!
# Floodgate.Proofs.Replication.NewestWrite

**The newest write wins.** A call of a key that is never forgotten calls the write registered last,
whoever starts it: a first attempt, a retry, a renewal or a delivery of the recovery loop
(`newest_write_wins`). It starts alone, so the calls of a key follow one another: the one before has
ended when the next one starts, and a call that starts later calls a write that was registered no
earlier.
-/

namespace Floodgate.Replicator

variable {α : Type} {r : Replicator α} {plan : ReplicationPlan} {since : Int}
  {history : List (Moment α)} {key : String}

/-- A call of a write of a key starts at a moment. -/
def Moment.starts (m : Moment α) (key : String) (c : Call α) : Prop := c ∈ m.calls ∧ c.key = key

/-- A call of a write of a key comes to its end at a moment. -/
def Moment.ends (m : Moment α) (key : String) (caller : Caller) : Prop :=
  caller ∈ m.before.callersOf key ∧ caller ∉ m.after.callersOf key

/-- A call that was in progress after a moment and is not any more has ended in between. -/
theorem Run.exists_ends {later earlier : List (Moment α)} {m : Moment α} {c : Caller}
    (h : Run plan since (later ++ m :: earlier) r) (hafter : c ∈ m.after.callersOf key)
    (hnow : c ∉ r.callersOf key) : ∃ m' ∈ later, m'.ends key c := by
  induction later generalizing r with
  | nil =>
    cases h
    exact absurd hafter hnow
  | cons m' rest ih =>
    cases h with
    | @next _ r₀ _ now event calls hpast hstep =>
      by_cases hbefore : c ∈ r₀.callersOf key
      · exact ⟨_, List.mem_cons_self, hbefore, hnow⟩
      · obtain ⟨m', hm', hends⟩ := ih hpast hbefore
        exact ⟨m', List.mem_cons_of_mem _ hm', hends⟩

/-- **A call calls the write registered last, and it starts when no other is in progress.** Hence
the calls of a key start and end in the order in which their writes were registered. -/
theorem newest_write_wins (h : Run plan since history r)
    (hkept : ∀ m ∈ history, m.event ≠ .forget key) :
    (∀ later m earlier c, history = later ++ m :: earlier → m.starts key c →
      (writes key earlier).getLast? = some c.action ∧ m.calls = [c] ∧
        m.before.callersOf key = [] ∧ m.after.callersOf key = [c.caller]) ∧
    ∀ later m₂ between m₁ earlier c₁ c₂,
      history = later ++ m₂ :: (between ++ m₁ :: earlier) →
      m₁.starts key c₁ → m₂.starts key c₂ →
      (∃ m ∈ between, m.ends key c₁.caller) ∧
        writes key earlier <+: writes key (between ++ m₁ :: earlier) := by
  have hfirst : ∀ later m earlier c, history = later ++ m :: earlier → m.starts key c →
      (writes key earlier).getLast? = some c.action ∧ m.calls = [c] ∧
        m.before.callersOf key = [] ∧ m.after.callersOf key = [c.caller] := by
    rintro later m earlier c rfl ⟨hc, hkey⟩
    obtain ⟨hearlier, hm, hs⟩ := h.split
    have hkept' : ∀ m' ∈ m :: earlier, m'.event ≠ .forget key := fun m' hm' =>
      hkept m' (List.mem_append_right _ hm')
    have hlane : OneLane key m.before := hearlier.oneLane fun m' hm' hforget =>
      absurd hforget (hkept' m' (List.mem_cons_of_mem _ hm'))
    have hlane' : OneLane key m.after := hm.oneLane fun m' hm' hforget =>
      absurd hforget (hkept' m' hm')
    have hwrite : lastWrite? key earlier = some c.action := by
      rw [← hearlier.current key, ← hkey]
      exact hearlier.sound.current_of_call hs hc
    refine ⟨?_, calls_eq_single hs hc, hlane.callersOf_eq_nil hearlier.sound hs hc hkey, ?_⟩
    · rw [← hwrite, lastWrite?_eq_getLast? fun m' hm' => hkept' m' (List.mem_cons_of_mem _ hm')]
    · exact hlane'.callersOf_eq_single hm.sound (hkey ▸ mem_callersOf_of_call hs hc)
  refine ⟨hfirst, ?_⟩
  rintro later m₂ between m₁ earlier c₁ c₂ rfl ⟨hc₁, hkey₁⟩ hstarts₂
  obtain ⟨hbefore₂, -, -⟩ := h.split
  obtain ⟨-, -, hs₁⟩ := hbefore₂.split
  obtain ⟨-, -, halone, -⟩ := hfirst later m₂ _ c₂ rfl hstarts₂
  constructor
  · refine hbefore₂.exists_ends (hkey₁ ▸ mem_callersOf_of_call hs₁ hc₁) ?_
    rw [halone]
    exact List.not_mem_nil
  · rw [show between ++ m₁ :: earlier = (between ++ [m₁]) ++ earlier by simp, writes_append]
    exact List.prefix_append _ _

/-- A write is registered while the one before it is being called: it is called next. -/
theorem newest_write_wins_of_two : ∃ (history : List (Moment Nat)) (r : Replicator Nat),
    Run quietPlan 0 history r ∧ (∀ m ∈ history, m.event ≠ .forget "k") ∧
      (history.flatMap (·.calls)).map (·.action) = [2, 1] ∧
      ∀ later m earlier c, history = later ++ m :: earlier → m.starts "k" c →
        (writes "k" earlier).getLast? = some c.action ∧ m.before.callersOf "k" = [] := by
  obtain ⟨history, r, hrun, hp⟩ := exists_run_of_replay quietPlan 0
    [(0, .register "k" 1), (0, .resume (.delivery 1)), (0, .resume (.delivery 1)),
      (1, .register "k" 2), (1, .resume (.delivery 2)), (5, .callEnded (.delivery 1) true),
      (5, .resume (.delivery 2)), (9, .callEnded (.delivery 2) true)]
    (fun history _ =>
      history.all (fun m => match m.event with | .forget _ => false | _ => true) &&
        (history.flatMap (·.calls)).map (·.action) == [2, 1])
    (by decide)
  rw [Bool.and_eq_true, List.all_eq_true] at hp
  have hkept : ∀ m ∈ history, m.event ≠ .forget "k" := by
    intro m hm hforget
    have := hp.1 m hm
    rw [hforget] at this
    cases this
  obtain ⟨hstarts, -⟩ := newest_write_wins hrun hkept
  refine ⟨history, r, hrun, hkept, eq_of_beq hp.2, ?_⟩
  intro later m earlier c hhistory hc
  obtain ⟨hlast, -, halone, -⟩ := hstarts later m earlier c hhistory hc
  exact ⟨hlast, halone⟩

end Floodgate.Replicator
