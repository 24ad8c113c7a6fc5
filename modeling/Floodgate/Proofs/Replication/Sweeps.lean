import Mathlib.Logic.Relation
import Floodgate.Proofs.Replication.Pending
/-!
# Floodgate.Proofs.Replication.Sweeps

**Taking up what was given up, when other threads come between.** A sweep collects the keys whose
deliveries have given up. Then it looks at each of them: if the key has not been written since, it
copies the latest write of the key, and registers the copy. Looking and registering are two critical
sections, and `flush` is what a sweep does if nothing comes between its sections
(`Sweep.flush_of_alone`).

A `SweepRun` puts the sections of any number of sweeps and those of the replicator together in any
order. If no key is written or forgotten while a sweep holds a copy for it, then the entry of every
key is what was last asked for: its latest write, or none since it was forgotten
(`SweepRun.current_of_undisturbed`). A copy that is not protected in this way undoes whatever comes
before it is registered: it supersedes a write that is newer (`SweepRun.reverts`), and makes an
entry for a key that has been forgotten (`SweepRun.revives`).

Design points:

* **A sweep is what it has still to do.** Its deliveries are those of the replicator. Which of them
  die together is left out: it matters only when no lease can be named.
* **Requests are kept latest first,** in the order of their critical sections.
-/

namespace Floodgate.Replicator

variable {α : Type}

/-- A sweep between its critical sections. -/
structure Sweep (α : Type) where
  /-- The keys that it has still to look at, with the generations that gave them up. -/
  collected : List (String × Nat)
  /-- The write that it is about to register again, with its key. -/
  copied : Option (String × α)
  /-- The generations of what it has registered again. -/
  started : List Nat

namespace Sweep

/-- A sweep that has collected what was given up. -/
def begin (r : Replicator α) : Sweep α := ⟨r.abandoned, none, []⟩

/-- The next critical section of a sweep, if it has not finished. -/
def step (r : Replicator α) (w : Sweep α) : Option (Replicator α × Sweep α) :=
  match w.copied, w.collected with
  | some (key, action), _ =>
    let (r, generation) := r.register key action
    some (r, { w with copied := none, started := w.started ++ [generation] })
  | none, (key, generation) :: rest =>
    let copied := (r.abandonedWrite? key generation).map (key, ·)
    some (r, { w with collected := rest, copied })
  | none, [] => none

variable {r r' : Replicator α} {w w' : Sweep α}

/-- A section of a sweep registers its copy, or it looks at the next key. -/
theorem step_cases (h : w.step r = some (r', w')) :
    (∃ key action, w.copied = some (key, action) ∧ r' = (r.register key action).1 ∧
      w' = { w with copied := none, started := w.started ++ [r.nextGeneration] }) ∨
    ∃ key generation rest, w.copied = none ∧ w.collected = (key, generation) :: rest ∧ r' = r ∧
      w' = { w with
        collected := rest, copied := (r.abandonedWrite? key generation).map (key, ·) } := by
  unfold step at h
  split at h
  · next _ key action hcopied =>
    cases h
    exact .inl ⟨key, action, hcopied, rfl, rfl⟩
  · next key generation rest hcopied hcollected =>
    cases h
    exact .inr ⟨key, generation, rest, hcopied, hcollected, rfl, rfl⟩
  · cases h

/-- Some sections of a sweep with nothing between them. -/
def Alone : Replicator α × Sweep α → Replicator α × Sweep α → Prop :=
  Relation.ReflTransGen fun x y => step x.1 x.2 = some y

/-- A sweep that is left alone registers all at once. -/
theorem reregisterAll_of_alone (collected : List (String × Nat)) (started : List Nat)
    (r : Replicator α) : Alone (r, ⟨collected, none, started⟩)
      ((r.reregisterAll collected).1, ⟨[], none, started ++ (r.reregisterAll collected).2⟩) := by
  induction collected generalizing r started with
  | nil => rw [reregisterAll, List.append_nil]; exact .refl
  | cons first rest ih =>
    obtain ⟨key, generation⟩ := first
    refine .head rfl ?_
    rw [reregisterAll, reregister]
    cases r.abandonedWrite? key generation with
    | none => exact ih started r
    | some action =>
      refine .head rfl ?_
      have hrest := ih (started ++ [r.nextGeneration]) (r.register key action).1
      rw [List.append_assoc] at hrest
      exact hrest

theorem flush_of_alone (r : Replicator α) :
    Alone (r, begin r) (r.flush.1, ⟨[], none, r.flush.2⟩) :=
  reregisterAll_of_alone r.abandoned [] r

end Sweep

/-! ### Runs -/

/-- Whether an event writes a key or forgets it. -/
def Event.asksFor (key : String) : Event α → Bool
  | .register k _ | .forget k => k == key
  | _ => false

/-- The latest write of a key among some requests, unless the key has been forgotten since. -/
def asked (key : String) (events : List (Event α)) : Option α :=
  events.foldr (fun event => event.latest key) none

/-- The runs of a replicator with sweeps of other threads. If they are to be undisturbed, then no
key is written or forgotten while a sweep holds a copy for it. -/
inductive SweepRun (undisturbed : Prop) (plan : ReplicationPlan) (since : Int) :
    List (Event α) → Replicator α → List (Sweep α) → Prop where
  /-- The replicator starts. -/
  | start : SweepRun undisturbed plan since [] (.start plan since) []
  /-- It carries out a section. -/
  | acts {events : List (Event α)} {r r' : Replicator α} {sweeps : List (Sweep α)} {now : Int}
      {event : Event α} {calls : List (Call α)}
      (h : SweepRun undisturbed plan since events r sweeps)
      (hstep : r.step now event = some (r', calls))
      (hcalm : undisturbed → ∀ w ∈ sweeps, ∀ copy ∈ w.copied, event.asksFor copy.1 = false) :
      SweepRun undisturbed plan since (event :: events) r' sweeps
  /-- A sweep begins. -/
  | begin {events : List (Event α)} {r : Replicator α} {sweeps : List (Sweep α)}
      (h : SweepRun undisturbed plan since events r sweeps) :
      SweepRun undisturbed plan since events r (sweeps ++ [.begin r])
  /-- A sweep goes on. -/
  | sweep {events : List (Event α)} {r r' : Replicator α} {sweeps : List (Sweep α)} {place : Nat}
      {w w' : Sweep α} (h : SweepRun undisturbed plan since events r sweeps)
      (hat : sweeps[place]? = some w) (hstep : w.step r = some (r', w')) :
      SweepRun undisturbed plan since events r' (sweeps.set place w')

variable {undisturbed : Prop} {plan : ReplicationPlan} {since : Int} {events : List (Event α)}
  {r r' : Replicator α} {sweeps : List (Sweep α)} {w w' : Sweep α} {key : String}

/-! ### Sweeps that are not disturbed -/

theorem latest_of_not_asksFor {event : Event α} (h : event.asksFor key = false)
    (before : Option α) : event.latest key before = before := by
  cases event with
  | register k action => exact if_neg (ne_of_beq_false h)
  | forget k => exact if_neg (ne_of_beq_false h)
  | _ => rfl

/-- The latest write of a key, by its entry. -/
def currentOf (r : Replicator α) (key : String) : Option α := (r.entryFor? key).map (·.current)

theorem currentOf_register (r : Replicator α) (key : String) (action : α) (k : String) :
    (r.register key action).1.currentOf k = if k = key then some action else r.currentOf k := by
  rw [currentOf, entryFor?_register]
  split <;> rfl

/-- A copy that is the latest write of its key, if there is one. -/
def Sweep.IsCurrent (r : Replicator α) (w : Sweep α) : Prop :=
  ∀ copy ∈ w.copied, r.currentOf copy.1 = some copy.2

theorem Sweep.IsCurrent.congr (h : w.IsCurrent r) (hsame : ∀ copy ∈ w.copied,
    r'.currentOf copy.1 = r.currentOf copy.1) : w.IsCurrent r' := fun copy hcopy =>
  (hsame copy hcopy).trans (h copy hcopy)

/-- A sweep with a current copy changes the latest write of no key, and its next copy is current. -/
theorem Sweep.IsCurrent.step (h : w.IsCurrent r) (hstep : w.step r = some (r', w')) :
    (∀ k, r'.currentOf k = r.currentOf k) ∧ w'.IsCurrent r' := by
  rcases step_cases hstep with ⟨key, action, hcopied, rfl, rfl⟩ | ⟨key, g, rest, -, -, rfl, rfl⟩
  · refine ⟨fun k => ?_, by simp [IsCurrent]⟩
    rw [currentOf_register]
    split
    · next hk => rw [hk, h _ hcopied]
    · rfl
  · refine ⟨fun _ => rfl, fun copy hcopy => ?_⟩
    obtain ⟨action, hwrite, rfl⟩ := Option.map_eq_some_iff.mp hcopy
    obtain ⟨e, he, -, hcurrent⟩ := abandonedWrite?_eq_some_iff.mp hwrite
    rw [currentOf, he, Option.map_some, hcurrent]

/-- **If no key is written or forgotten while a sweep holds a copy for it, then the entry of every
key holds its latest write, and there is none for a key that has been forgotten and not been written
since.** -/
theorem SweepRun.current_of_undisturbed (h : SweepRun True plan since events r sweeps) :
    (∀ key, r.currentOf key = asked key events) ∧ ∀ w ∈ sweeps, w.IsCurrent r := by
  induction h with
  | start => exact ⟨fun _ => rfl, by simp⟩
  | @acts events r r' sweeps now event calls _ hstep hcalm ih =>
    have hcurrent (k : String) : r'.currentOf k = event.latest k (r.currentOf k) :=
      current_of_section (section_of_step hstep) k
    refine ⟨fun k => ?_, fun w hw => (ih.2 w hw).congr fun copy hcopy => ?_⟩
    · rw [hcurrent, ih.1]
      rfl
    · rw [hcurrent, latest_of_not_asksFor (hcalm trivial w hw copy hcopy)]
  | @begin events r sweeps _ ih =>
    refine ⟨ih.1, fun w hw => ?_⟩
    rcases List.mem_append.mp hw with hw | hw
    · exact ih.2 w hw
    · rw [List.mem_singleton.mp hw]
      simp [Sweep.begin, Sweep.IsCurrent]
  | @sweep events r r' sweeps place w w' _ hat hstep ih =>
    obtain ⟨hsame, hnext⟩ := (ih.2 w (List.mem_of_getElem? hat)).step hstep
    refine ⟨fun k => (hsame k).trans (ih.1 k), fun x hx => ?_⟩
    rcases List.mem_or_eq_of_mem_set hx with hx | rfl
    · exact (ih.2 x hx).congr fun copy _ => hsame copy.1
    · exact hnext

/-! ### Sweeps that are disturbed -/

/-- A run without sweeps of other threads is one of these runs. -/
theorem SweepRun.of_run {history : List (Moment α)} (h : Run plan since history r) :
    SweepRun undisturbed plan since (history.map (·.event)) r [] := by
  induction h with
  | start => exact .start
  | next _ hstep ih => exact ih.acts hstep fun _ => by simp

/-- Whenever a write has been given up, a sweep can come to hold a copy of it. -/
theorem SweepRun.copies (h : SweepRun undisturbed plan since events r sweeps) {generation : Nat}
    {rest : List (String × Nat)} {action : α} (hgiven : r.abandoned = (key, generation) :: rest)
    (hwrite : r.abandonedWrite? key generation = some action) :
    ∃ w, w.copied = some (key, action) ∧
      SweepRun undisturbed plan since events r (sweeps ++ [w]) := by
  have hat : (sweeps ++ [Sweep.begin r])[sweeps.length]? = some (Sweep.begin r) := by simp
  have hlook : (Sweep.begin r).step r = some (r, ⟨rest, some (key, action), []⟩) := by
    rw [Sweep.begin, hgiven]
    simp only [Sweep.step, hwrite, Option.map_some]
  have hnext := h.begin.sweep hat hlook
  rw [List.set_append_right sweeps.length _ (Nat.le_refl _), Nat.sub_self] at hnext
  exact ⟨_, rfl, hnext⟩

/-- What comes before a copy is registered does not stop the sweep from registering it. -/
theorem SweepRun.registers {event : Event α} {calls : List (Call α)} {now : Int} {place : Nat}
    {action : α} (h : SweepRun False plan since events r sweeps) (hat : sweeps[place]? = some w)
    (hcopy : w.copied = some (key, action)) (hstep : r.step now event = some (r', calls)) :
    ∃ sweeps', SweepRun False plan since (event :: events) (r'.register key action).1 sweeps' := by
  have hregister : w.step r' = some ((r'.register key action).1,
      { w with copied := none, started := w.started ++ [r'.nextGeneration] }) := by
    simp only [Sweep.step, hcopy]
    rfl
  exact ⟨_, (h.acts hstep False.elim).sweep hat hregister⟩

/-- **A sweep with a copy supersedes a newer write with an older one:** the entry of the key is back
at the older write, and the delivery of the newer one is cancelled. -/
theorem SweepRun.reverts {place : Nat} {older : α} (h : SweepRun False plan since events r sweeps)
    (hat : sweeps[place]? = some w) (hcopy : w.copied = some (key, older)) (newer : α) :
    ∃ r' sweeps', SweepRun False plan since (.register key newer :: events) r' sweeps' ∧
      asked key (.register key newer :: events) = some newer ∧ r'.currentOf key = some older ∧
      ∀ d ∈ r'.deliveries, d.generation = r.nextGeneration → d.cancelled = true := by
  have hstep : r.step since (.register key newer) = some ((r.register key newer).1, []) := rfl
  obtain ⟨sweeps', hrun⟩ := h.registers hat hcopy hstep
  refine ⟨_, sweeps', hrun, if_pos rfl, ?_, fun d hd hnewer => ?_⟩
  · rw [currentOf_register, if_pos rfl]
  · rw [deliveries_register, List.mem_append, List.mem_singleton] at hd
    rcases hd with hd | rfl
    · obtain ⟨d₀, -, rfl⟩ := List.mem_map.mp hd
      rw [withdrawn_generation] at hnewer
      rw [pendingOf_register, if_pos rfl, withdrawn, if_pos (by rw [Option.map_some, hnewer])]
    · have hnext : (r.register key newer).1.nextGeneration = r.nextGeneration := hnewer
      rw [nextGeneration_register] at hnext
      exact absurd hnext (Nat.succ_ne_self _)

/-- **A sweep with a copy revives a key that has been forgotten:** the key has an entry again, with
a write that is to be delivered. -/
theorem SweepRun.revives {place : Nat} {action : α} (h : SweepRun False plan since events r sweeps)
    (hat : sweeps[place]? = some w) (hcopy : w.copied = some (key, action)) :
    ∃ r' sweeps', SweepRun False plan since (.forget key :: events) r' sweeps' ∧
      asked key (.forget key :: events) = none ∧ r'.currentOf key = some action ∧
      r'.isPending key = true := by
  have hstep : r.step since (.forget key) = some (r.forget key, []) := rfl
  obtain ⟨sweeps', hrun⟩ := h.registers hat hcopy hstep
  refine ⟨_, sweeps', hrun, if_pos rfl, ?_, ?_⟩
  · rw [currentOf_register, if_pos rfl]
  · rw [isPending_eq_true_iff, pendingOf_register, if_pos rfl]
    rfl

/-- A write is called and given up. -/
def givenUp : List (Int × Event Nat) :=
  [(0, .register "k" 1), (0, .resume (.delivery 1)), (0, .resume (.delivery 1)),
    (0, .callEnded (.delivery 1) false)]

/-- A sweep brings back the first write of a key although a second one has been registered, and
although the key has been forgotten. -/
theorem sweep_undoes_requests :
    (∃ events r sweeps, SweepRun False quietPlan 0 events r sweeps ∧
      asked "k" events = some 2 ∧ r.currentOf "k" = some 1) ∧
    ∃ events r sweeps, SweepRun False quietPlan 0 events r sweeps ∧
      asked "k" events = none ∧ r.currentOf "k" = some 1 := by
  obtain ⟨history, r, hrun, hgiven⟩ := exists_run_of_replay quietPlan 0 givenUp
    (fun _ r => r.abandoned == [("k", 1)] && r.abandonedWrite? "k" 1 == some 1) (by decide)
  rw [Bool.and_eq_true, beq_iff_eq, beq_iff_eq] at hgiven
  obtain ⟨w, hcopy, hswept⟩ := (SweepRun.of_run hrun).copies hgiven.1 hgiven.2
  have hat : ([] ++ [w])[0]? = some w := rfl
  obtain ⟨r₁, sweeps₁, hrun₁, hasked₁, hcurrent₁, -⟩ := hswept.reverts hat hcopy 2
  obtain ⟨r₂, sweeps₂, hrun₂, hasked₂, hcurrent₂, -⟩ := hswept.revives hat hcopy
  exact ⟨⟨_, r₁, sweeps₁, hrun₁, hasked₁, hcurrent₁⟩, _, r₂, sweeps₂, hrun₂, hasked₂, hcurrent₂⟩

end Floodgate.Replicator
