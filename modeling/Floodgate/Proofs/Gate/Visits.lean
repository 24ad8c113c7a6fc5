import Floodgate.Proofs.Gate.Calls
import Floodgate.Simulation.GateScene
/-!
# Floodgate.Proofs.Gate.Visits

**A waiter is released by the first opening after its arrival.** A waiter arrives when it looks at
the gate for the first time, in one section with the gate: it passes at once, or it takes up the
generation that blocks the gate. Generations are numbered as they are armed, so an opening resolves
that generation for good, and blocking the gate again does not touch it.

A `Run` puts calls of the gate together with waiters that come, do their stretches of work and are
dropped, in any order, on a clock that moves only while no waiter can do anything. Each `Visit`
keeps what its waiter found when it arrived and when the gate has been opened since. Where a waiter
without callbacks can stand is said once (`Visit.Stands`) and kept by every step.

Main statement: `released_by_first_opening`. Whatever a `GateScene` does next is part of a run
(`Run.work`).
-/

namespace Floodgate

/-! ### Calls of waiters -/

/-- The calls that a callback makes at its end. -/
def Callback.Act.calls : Callback.Act → List GateCall
  | .nothing => []
  | .unblock => [.unblock]
  | .reblock data => [.unblock, .block data]

namespace Waiter

variable {w : Waiter} {now : Int} {house : Gatehouse} {out : Outcome}

/-- A waiter without callbacks. -/
structure IsPlain (w : Waiter) : Prop where
  onBlocked : w.onBlocked = none
  whileBlocked : w.whileBlocked = none

/-- The calls that a waiter makes in its next stretch of work. -/
def calls (w : Waiter) (now : Int) : List GateCall :=
  match w.stage with
  | .greeting _ until_ => if until_ ≤ now then (actOf w.onBlocked).calls else []
  | .polling _ until_ _ => if until_ ≤ now then (actOf w.whileBlocked).calls else []
  | .arriving | .pausing _ _ | .parked _ => []

theorem act_eq (house : Gatehouse) (a : Callback.Act) : act house a = house.callAll a.calls := by
  cases a <;> rfl

/-- A stretch of work drives the gate by the calls of the waiter, and by nothing else. -/
theorem house_of_step (h : w.step now house = some out) :
    out.house = house.callAll (w.calls now) := by
  unfold step at h
  unfold calls
  cases hstage : w.stage with
  | arriving =>
    simp only [hstage] at h
    split at h
    · cases h
      rfl
    · split at h <;> cases h <;> rfl
  | greeting generation until_ =>
    simp only [hstage] at h
    split at h
    · next hdone =>
      cases h
      simp only [if_pos hdone]
      exact act_eq house _
    · cases h
  | polling generation until_ last =>
    simp only [hstage] at h
    split at h
    · next hdone =>
      cases h
      simp only [if_pos hdone]
      exact act_eq house _
    · cases h
  | pausing generation until_ =>
    simp only [hstage] at h
    split at h
    · cases h
      rfl
    · cases h
  | parked generation =>
    simp only [hstage] at h
    split at h
    · cases h
      rfl
    · cases h

theorem IsPlain.calls_eq (h : w.IsPlain) (now : Int) : w.calls now = [] := by
  unfold calls
  split
  · simp [h.onBlocked, actOf, Callback.Act.calls]
  · simp [h.whileBlocked, actOf, Callback.Act.calls]
  · rfl
  · rfl
  · rfl

/-- A waiter without callbacks passes an open gate, and takes up the generation of a blocked one. -/
theorem IsPlain.step_arriving (h : w.IsPlain) (hstage : w.stage = .arriving) (now : Int)
    (house : Gatehouse) :
    w.step now house = match house.gate.generation with
      | none => some ⟨house, none, [.passed false]⟩
      | some generation => some ⟨house, some { w with stage := .parked generation }, []⟩ := by
  unfold step
  cases hgeneration : house.gate.generation with
  | none => simp only [hstage]
  | some generation => simp only [hstage, h.onBlocked, poll, h.whileBlocked]

theorem step_parked {generation : Nat} (hstage : w.stage = .parked generation) (now : Int)
    (house : Gatehouse) :
    w.step now house = if house.gate.generation = some generation then none
      else some ⟨house, none, [.passed true]⟩ := by
  simp only [step, hstage, Gate.isResolved]
  by_cases hblocks : house.gate.generation = some generation <;> simp [hblocks]

end Waiter

/-! ### Visits -/

/-- What has become of a waiter. -/
inductive Visit.Fate where
  /-- It is there, and stands so. -/
  | waiting (w : Waiter)
  /-- It has left by itself, with these last notes. -/
  | left (time : Int) (notes : List WaiterNote)
  /-- It has been dropped. -/
  | dropped
  deriving DecidableEq, Repr

/-- What there is to say of one waiter. -/
structure Visit where
  /-- The waiter as it came. -/
  guest : Waiter
  /-- When it arrived, that is looked at the gate for the first time, and the gate that it found. -/
  arrival : Option (Int × Gate)
  /-- When the gate has been opened since it arrived, while it was there, latest first. -/
  openings : List Int
  fate : Visit.Fate
  deriving DecidableEq, Repr

namespace Visit

/-- The waiter, if it is there. -/
def waiter? (v : Visit) : Option Waiter :=
  match v.fate with
  | .waiting w => some w
  | .left _ _ | .dropped => none

/-- The gate has been opened. -/
def hear (v : Visit) (now : Int) : Visit :=
  if v.arrival.isSome && v.waiter?.isSome then { v with openings := now :: v.openings } else v

/-- The waiter has done a stretch of work. -/
def after (v : Visit) (now : Int) (found : Gate) (out : Waiter.Outcome) : Visit :=
  { v with
    arrival := v.arrival.or (some (now, found))
    fate := match out.waiter with
      | some w => .waiting w
      | none => .left now out.notes }

/-- The waiter is dropped, if it is still there. -/
def drop (v : Visit) : Visit :=
  match v.fate with
  | .waiting _ => { v with fate := .dropped }
  | .left _ _ | .dropped => v

end Visit

/-- A gate with the waiters that have come to it. -/
structure Visits where
  house : Gatehouse
  /-- In the order in which they came. -/
  visits : List Visit
  deriving DecidableEq, Repr

namespace Visits

variable {p : Visits} {now later : Int}

/-- Some task makes a call. -/
def call (p : Visits) (now : Int) (c : GateCall) : Visits :=
  let (house, flipped) := p.house.call c
  { house, visits := p.visits.map fun v => if flipped && !c.blocks then v.hear now else v }

def callAll (p : Visits) (now : Int) (calls : List GateCall) : Visits :=
  calls.foldl (·.call now ·) p

/-- A handler run that has been started begins. -/
def begin (p : Visits) (place : Nat) : Visits :=
  { p with house := { p.house with started := p.house.started.eraseIdx place } }

/-- A waiter comes, and has not looked at the gate yet. -/
def come (p : Visits) (w : Waiter) : Visits :=
  { p with visits := p.visits ++ [⟨w, none, [], .waiting w⟩] }

/-- A waiter does a stretch of work. -/
def stretch (p : Visits) (now : Int) (place : Nat) (w : Waiter) (out : Waiter.Outcome) : Visits :=
  let called := p.callAll now (w.calls now)
  { called with visits := called.visits.modify place (·.after now p.house.gate out) }

def drop (p : Visits) (place : Nat) : Visits :=
  { p with visits := p.visits.modify place Visit.drop }

/-- The runs of a gate with its waiters, up to an instant. -/
inductive Run : Int → Visits → Prop
  | fresh (now : Int) (handlers : Handlers) : Run now ⟨.fresh handlers, []⟩
  | call {now : Int} {p : Visits} (h : Run now p) (c : GateCall) : Run now (p.call now c)
  | begin {now : Int} {p : Visits} (h : Run now p) (place : Nat) : Run now (p.begin place)
  | come {now : Int} {p : Visits} (h : Run now p) (w : Waiter) (hstage : w.stage = .arriving) :
      Run now (p.come w)
  | stretch {now : Int} {p : Visits} {v : Visit} {w : Waiter} {out : Waiter.Outcome}
      (h : Run now p) (place : Nat) (hat : p.visits[place]? = some v) (hthere : v.waiter? = some w)
      (hstep : w.step now p.house = some out) : Run now (p.stretch now place w out)
  | drop {now : Int} {p : Visits} (h : Run now p) (place : Nat) : Run now (p.drop place)
  /-- Time passes, while no waiter can do anything. -/
  | wait {now later : Int} {p : Visits} (h : Run now p) (hlater : now ≤ later)
      (hidle : ∀ v ∈ p.visits, ∀ w ∈ v.waiter?, ∀ t, now ≤ t → t < later →
        w.step t p.house = none) : Run later p

end Visits

/-! ### Where a waiter without callbacks can stand -/

/-- Where a waiter without callbacks can stand, at an instant and a gate. -/
inductive Visit.Stands (now : Int) (gate : Gate) : Visit → Prop
  /-- It has not arrived. -/
  | coming {guest : Waiter} (hstage : guest.stage = .arriving) :
      Stands now gate ⟨guest, none, [], .waiting guest⟩
  /-- It found the gate open and has passed at once. -/
  | passed {guest : Waiter} {came : Int} {found : Gate} (hopen : found.isBlocked = false) :
      Stands now gate ⟨guest, some (came, found), [], .left came [.passed false]⟩
  /-- It waits for the generation that it found, which still blocks the gate, or has been resolved
  by an opening at this instant. -/
  | parked {guest : Waiter} {came : Int} {found : Gate} {generation : Nat} {openings : List Int}
      (hfound : found.generation = some generation) (hnumber : generation < found.armed)
      (harmed : found.armed ≤ gate.armed)
      (hopenings : openings = [] ∧ gate.generation = some generation ∨
        openings.getLast? = some now ∧ gate.generation ≠ some generation) :
      Stands now gate ⟨guest, some (came, found), openings,
        .waiting { guest with stage := .parked generation }⟩
  /-- It found the gate blocked, and the first opening since then has released it. -/
  | released {guest : Waiter} {came opened : Int} {found : Gate} {openings : List Int}
      (hblocked : found.isBlocked = true) (hopened : openings.getLast? = some opened) :
      Stands now gate ⟨guest, some (came, found), openings, .left opened [.passed true]⟩
  /-- It has been dropped, which can happen to no waiter that has found the gate open. -/
  | gone {guest : Waiter} {arrival : Option (Int × Gate)} {openings : List Int}
      (hblocked : ∀ came found, arrival = some (came, found) → found.isBlocked = true) :
      Stands now gate ⟨guest, arrival, openings, .dropped⟩

/-- The generation that blocks a gate is one that it has armed. -/
def Gate.Numbered (g : Gate) : Prop := ∀ generation, g.generation = some generation →
  generation < g.armed

theorem Gate.Numbered.call {h : Gatehouse} (hnumbered : h.gate.Numbered) (c : GateCall) :
    (h.call c).1.gate.Numbered := by
  rcases h.call_cases c with ⟨data, -, -, hcall⟩ | ⟨-, -, hcall⟩ | ⟨-, hcall⟩
  · rw [hcall]
    rintro _ ⟨⟩
    exact Nat.lt_succ_self _
  · rw [hcall]
    intro _ hnone
    cases hnone
  · rw [hcall]
    exact hnumbered

namespace Visit.Stands

variable {now later : Int} {gate : Gate} {house : Gatehouse} {v : Visit} {w : Waiter}
  {out : Waiter.Outcome}

/-- A call that opens the gate resolves the generation that the waiter waits for; no other call
touches what it waits for. -/
theorem call (h : v.Stands now house.gate) (c : GateCall) :
    (if (house.call c).2 && !c.blocks then v.hear now else v).Stands now
      (house.call c).1.gate := by
  rcases house.call_cases c with ⟨data, rfl, hopen, hcall⟩ | ⟨rfl, -, hcall⟩ | ⟨-, hcall⟩
  · rw [hcall]
    cases h with
    | coming hstage => exact .coming hstage
    | passed hopen => exact .passed hopen
    | @parked guest came found generation openings hfound hnumber harmed hopenings =>
      refine .parked hfound hnumber (Nat.le_succ_of_le harmed) (.inr ?_)
      rcases hopenings with ⟨-, hblocks⟩ | ⟨hopened, -⟩
      · rw [Gate.isBlocked_eq_isSome, hblocks] at hopen
        cases hopen
      · -- the new generation has a number that was not given out when the waiter arrived
        refine ⟨hopened, fun hnew => ?_⟩
        cases hnew
        exact absurd (Nat.lt_of_lt_of_le hnumber harmed) (Nat.lt_irrefl _)
    | released hblocked hopened => exact .released hblocked hopened
    | gone hblocked => exact .gone hblocked
  · rw [hcall]
    cases h with
    | coming hstage => exact .coming hstage
    | passed hopen => exact .passed hopen
    | @parked guest came found generation openings hfound hnumber harmed hopenings =>
      refine .parked hfound hnumber harmed (.inr ⟨?_, fun hsome => by cases hsome⟩)
      rcases hopenings with ⟨rfl, -⟩ | ⟨hopened, -⟩
      · rfl
      · rw [List.getLast?_cons, hopened, Option.getD_some]
    | released hblocked hopened => exact .released hblocked hopened
    | @gone _ arrival _ hblocked => cases arrival <;> exact .gone hblocked
  · rw [hcall]
    exact h

theorem isPlain_waiter (h : v.Stands now gate) (hplain : v.guest.IsPlain)
    (hthere : v.waiter? = some w) : w.IsPlain := by
  cases h with
  | coming hstage =>
    cases hthere
    exact hplain
  | parked =>
    cases hthere
    exact ⟨hplain.onBlocked, hplain.whileBlocked⟩
  | _ => cases hthere

/-- A waiter that can work arrives, or is released at the instant of the first opening. -/
theorem after (h : v.Stands now house.gate) (hnumbered : house.gate.Numbered)
    (hplain : v.guest.IsPlain) (hthere : v.waiter? = some w)
    (hstep : w.step now house = some out) : (v.after now house.gate out).Stands now house.gate := by
  cases h with
  | coming hstage =>
    cases hthere
    rw [hplain.step_arriving hstage] at hstep
    cases hgate : house.gate.generation with
    | none =>
      rw [hgate] at hstep
      cases hstep
      exact .passed (by rw [Gate.isBlocked_eq_isSome, hgate]; rfl)
    | some generation =>
      rw [hgate] at hstep
      cases hstep
      exact .parked hgate (hnumbered generation hgate) (Nat.le_refl _) (.inl ⟨rfl, hgate⟩)
  | @parked guest came found generation openings hfound hnumber harmed hopenings =>
    cases hthere
    rw [Waiter.step_parked rfl] at hstep
    split at hstep
    · cases hstep
    · next hresolved =>
      cases hstep
      rcases hopenings with ⟨-, hblocks⟩ | ⟨hopened, -⟩
      · exact absurd hblocks hresolved
      · exact .released (by rw [Gate.isBlocked_eq_isSome, hfound]; rfl) hopened
  | _ => cases hthere

theorem drop (h : v.Stands now gate) : v.drop.Stands now gate := by
  cases h with
  | coming hstage => exact .gone nofun
  | passed hopen => exact .passed hopen
  | parked hfound hnumber harmed hopenings =>
    refine .gone fun _ _ harrival => ?_
    cases harrival
    rw [Gate.isBlocked_eq_isSome, hfound]
    rfl
  | released hblocked hopened => exact .released hblocked hopened
  | gone hblocked => exact .gone hblocked

/-- Time does not pass between the first opening and the moment at which the waiter leaves. -/
theorem wait (h : v.Stands now house.gate) (hlater : now ≤ later)
    (hidle : ∀ w ∈ v.waiter?, ∀ t, now ≤ t → t < later → w.step t house = none) :
    v.Stands later house.gate := by
  cases h with
  | coming hstage => exact .coming hstage
  | passed hopen => exact .passed hopen
  | @parked guest came found generation openings hfound hnumber harmed hopenings =>
    refine .parked hfound hnumber harmed ?_
    rcases hopenings with hopenings | ⟨hopened, hresolved⟩
    · exact .inl hopenings
    · rcases Int.lt_or_eq_of_le hlater with hlt | rfl
      · have hnone := hidle _ rfl now (Int.le_refl _) hlt
        rw [Waiter.step_parked rfl, if_neg hresolved] at hnone
        cases hnone
      · exact .inr ⟨hopened, hresolved⟩
  | released hblocked hopened => exact .released hblocked hopened
  | gone hblocked => exact .gone hblocked

/-! #### What that says of a waiter that has arrived -/

variable {came : Int} {found : Gate}

theorem passed_of_open (h : v.Stands now gate) (harrival : v.arrival = some (came, found))
    (hopen : found.isBlocked = false) : v.fate = .left came [.passed false] := by
  cases h with
  | coming => cases harrival
  | passed =>
    cases harrival
    rfl
  | parked hfound =>
    cases harrival
    rw [Gate.isBlocked_eq_isSome, hfound] at hopen
    cases hopen
  | released hblocked =>
    cases harrival
    exact absurd hblocked (by simp [hopen])
  | gone hblocked => exact absurd (hblocked came found harrival) (by simp [hopen])

theorem released_of_blocked (h : v.Stands now gate) (harrival : v.arrival = some (came, found))
    (hblocked : found.isBlocked = true) {left : Int} {notes : List WaiterNote}
    (hleft : v.fate = .left left notes) :
    notes = [.passed true] ∧ v.openings.getLast? = some left := by
  cases h with
  | passed hopen =>
    cases harrival
    exact absurd hblocked (by simp [hopen])
  | released _ hopened =>
    cases hleft
    exact ⟨rfl, hopened⟩
  | _ => cases hleft

theorem parked_of_waiting (h : v.Stands now gate) (harrival : v.arrival = some (came, found))
    (hwaiting : v.fate = .waiting w) :
    ∃ generation, w.stage = .parked generation ∧ found.generation = some generation ∧
      generation < found.armed ∧ (v.openings = [] ∧ gate.generation = some generation ∨
        v.openings.getLast? = some now ∧ gate.generation ≠ some generation) := by
  cases h with
  | coming => cases harrival
  | @parked _ _ _ generation _ hfound hnumber _ hopenings =>
    cases harrival
    cases hwaiting
    exact ⟨generation, rfl, hfound, hnumber, hopenings⟩
  | _ => cases hwaiting

end Visit.Stands

namespace Visits

variable {p : Visits} {now later : Int}

/-- The gate's generation is one that it has armed, and every waiter without callbacks stands where
such a waiter can stand. -/
structure Sound (now : Int) (p : Visits) : Prop where
  numbered : p.house.gate.Numbered
  stands : ∀ v ∈ p.visits, v.guest.IsPlain → v.Stands now p.house.gate

theorem guest_hear (v : Visit) (now : Int) (opens : Bool) :
    (if opens then v.hear now else v).guest = v.guest := by
  unfold Visit.hear
  split
  · split <;> rfl
  · rfl

theorem waiter?_hear (v : Visit) (now : Int) (opens : Bool) :
    (if opens then v.hear now else v).waiter? = v.waiter? := by
  unfold Visit.hear
  split
  · split <;> rfl
  · rfl

theorem house_callAll (p : Visits) (now : Int) (calls : List GateCall) :
    (p.callAll now calls).house = p.house.callAll calls := by
  induction calls generalizing p with
  | nil => rfl
  | cons c rest ih => exact ih (p.call now c)

/-- Calls leave every waiter where it stands. -/
theorem visits_callAll (p : Visits) (now : Int) (calls : List GateCall) :
    ∃ f : Visit → Visit, (∀ v, (f v).guest = v.guest ∧ (f v).waiter? = v.waiter?) ∧
      (p.callAll now calls).visits = p.visits.map f := by
  induction calls generalizing p with
  | nil => exact ⟨id, fun _ => ⟨rfl, rfl⟩, (List.map_id _).symm⟩
  | cons c rest ih =>
    obtain ⟨f, hf, heq⟩ := ih (p.call now c)
    refine ⟨f ∘ fun v => if (p.house.call c).2 && !c.blocks then v.hear now else v,
      fun v => ?_, heq.trans List.map_map⟩
    rw [Function.comp_apply, (hf _).1, (hf _).2]
    exact ⟨guest_hear v now _, waiter?_hear v now _⟩

theorem mem_modify {l : List Visit} {place : Nat} {f : Visit → Visit} {v : Visit}
    (hv : v ∈ l.modify place f) : v ∈ l ∨ ∃ v₀, l[place]? = some v₀ ∧ v = f v₀ := by
  obtain ⟨i, hi⟩ := List.mem_iff_getElem?.mp hv
  rw [List.getElem?_modify] at hi
  obtain ⟨v₀, hv₀, heq⟩ := Option.map_eq_some_iff.mp hi
  by_cases hplace : place = i
  · subst hplace
    exact .inr ⟨v₀, hv₀, by rw [← heq, if_pos rfl]⟩
  · rw [if_neg hplace] at heq
    exact .inl (heq ▸ List.mem_of_getElem? hv₀)

namespace Sound

theorem fresh (now : Int) (handlers : Handlers) : Sound now ⟨.fresh handlers, []⟩ where
  numbered := fun _ hnone => by cases hnone
  stands := fun _ hv => by cases hv

theorem call (h : Sound now p) (c : GateCall) : Sound now (p.call now c) := by
  refine ⟨h.numbered.call c, fun v hv hplain => ?_⟩
  obtain ⟨v₀, hv₀, rfl⟩ := List.mem_map.mp hv
  rw [guest_hear] at hplain
  exact (h.stands v₀ hv₀ hplain).call c

theorem callAll (h : Sound now p) (calls : List GateCall) : Sound now (p.callAll now calls) := by
  induction calls generalizing p with
  | nil => exact h
  | cons c rest ih => exact ih (h.call c)

/-- A change of one waiter that keeps it where such a waiter can stand. -/
theorem modify (h : Sound now p) {place : Nat} {f : Visit → Visit}
    (hguest : ∀ v, (f v).guest = v.guest)
    (hf : ∀ v, p.visits[place]? = some v → v.guest.IsPlain → v.Stands now p.house.gate →
      (f v).Stands now p.house.gate) :
    Sound now { p with visits := p.visits.modify place f } := by
  refine ⟨h.numbered, fun v hv hplain => ?_⟩
  rcases mem_modify hv with hv | ⟨v₀, hat, rfl⟩
  · exact h.stands v hv hplain
  · rw [hguest] at hplain
    exact hf v₀ hat hplain (h.stands v₀ (List.mem_of_getElem? hat) hplain)

theorem stretch (h : Sound now p) {place : Nat} {v : Visit} {w : Waiter} {out : Waiter.Outcome}
    (hat : p.visits[place]? = some v) (hthere : v.waiter? = some w)
    (hstep : w.step now p.house = some out) : Sound now (p.stretch now place w out) := by
  refine (h.callAll (w.calls now)).modify (fun _ => rfl) fun v₁ hat₁ hplain₁ hstands₁ => ?_
  -- A waiter without callbacks makes no calls, so it does its work at the gate as it is.
  obtain ⟨f, hf, hvisits⟩ := visits_callAll p now (w.calls now)
  have hheard := hat₁
  rw [hvisits, List.getElem?_map, hat, Option.map_some, Option.some.injEq] at hheard
  rw [← hheard, (hf v).1] at hplain₁
  have hstands := h.stands v (List.mem_of_getElem? hat) hplain₁
  have hnone := (hstands.isPlain_waiter hplain₁ hthere).calls_eq now
  rw [hnone] at hat₁ ⊢
  cases hat.symm.trans hat₁
  exact hstands.after h.numbered hplain₁ hthere hstep

theorem come (h : Sound now p) {w : Waiter} (hstage : w.stage = .arriving) :
    Sound now (p.come w) := by
  refine ⟨h.numbered, fun v hv hplain => ?_⟩
  rcases List.mem_append.mp hv with hv | hv
  · exact h.stands v hv hplain
  · rw [List.mem_singleton.mp hv]
    exact .coming hstage

end Sound

theorem guest_drop (v : Visit) : v.drop.guest = v.guest := by
  unfold Visit.drop
  split <;> rfl

theorem Run.sound (h : Run now p) : Sound now p := by
  induction h with
  | fresh => exact .fresh _ _
  | call _ c ih => exact ih.call c
  | begin _ _ ih => exact ⟨ih.numbered, ih.stands⟩
  | come _ _ hstage ih => exact ih.come hstage
  | stretch _ _ hat hthere hstep ih => exact ih.stretch hat hthere hstep
  | drop _ _ ih => exact ih.modify guest_drop fun _ _ _ hstands => hstands.drop
  | wait _ hlater hidle ih =>
    exact ⟨ih.numbered, fun v hv hplain => (ih.stands v hv hplain).wait hlater (hidle v hv)⟩

/-! ### Scenes -/

/-- The gate with the waiters that are there. -/
def scene (p : Visits) : GateScene := ⟨p.house, p.visits.filterMap (·.waiter?)⟩

theorem Run.callAll (h : Run now p) (calls : List GateCall) : Run now (p.callAll now calls) := by
  induction calls generalizing p with
  | nil => exact h
  | cons c rest ih => exact ih (h.call c)

theorem scene_callAll (p : Visits) (now : Int) (calls : List GateCall) :
    (p.callAll now calls).scene = { p.scene with house := p.house.callAll calls } := by
  obtain ⟨f, hf, hvisits⟩ := visits_callAll p now calls
  rw [scene, house_callAll, hvisits, List.filterMap_map]
  simp only [Function.comp_def, (hf _).2, scene]

theorem exists_of_firstMove {house house' : Gatehouse} {waiters waiters' : List Waiter}
    {seen : List (String × GateNote)}
    (h : GateScene.firstMove now house waiters = some (house', waiters', seen)) :
    ∃ before w rest out, waiters = before ++ w :: rest ∧ w.step now house = some out ∧
      house' = out.house ∧ waiters' = before ++ (out.waiter.toList ++ rest) := by
  induction waiters generalizing waiters' with
  | nil => cases h
  | cons w rest ih =>
    unfold GateScene.firstMove at h
    split at h
    · next out hstep =>
      cases h
      exact ⟨[], w, rest, out, rfl, hstep, rfl, rfl⟩
    · obtain ⟨⟨_, moved, _⟩, hmove, heq⟩ := Option.map_eq_some_iff.mp h
      cases heq
      obtain ⟨before, w', rest', out, rfl, hstep, hhouse, rfl⟩ := ih hmove
      exact ⟨w :: before, w', rest', out, rfl, hstep, hhouse, rfl⟩

theorem exists_of_firstTimeout {waiters waiters' : List Waiter} {seen : List (String × GateNote)}
    (h : GateScene.firstTimeout now waiters = some (waiters', seen)) :
    ∃ before w rest, waiters = before ++ w :: rest ∧ w.hasTimedOut now = true ∧
      waiters' = before ++ rest := by
  induction waiters generalizing waiters' with
  | nil => cases h
  | cons w rest ih =>
    unfold GateScene.firstTimeout at h
    split at h
    · next hlate =>
      cases h
      exact ⟨[], w, rest, rfl, hlate, rfl⟩
    · obtain ⟨⟨left, _⟩, htimeout, heq⟩ := Option.map_eq_some_iff.mp h
      cases heq
      obtain ⟨before, w', rest', rfl, hlate, rfl⟩ := ih htimeout
      exact ⟨w :: before, w', rest', rfl, hlate, rfl⟩

/-- A waiter of the scene is there for a visit. -/
theorem exists_visit (p : Visits) {before rest : List Waiter} {w : Waiter}
    (h : p.scene.waiters = before ++ w :: rest) :
    ∃ earlier v later, p.visits = earlier ++ v :: later ∧ v.waiter? = some w ∧
      earlier.filterMap (·.waiter?) = before ∧ later.filterMap (·.waiter?) = rest := by
  obtain ⟨earlier, others, hvisits, hbefore, hothers⟩ := List.filterMap_eq_append_iff.mp h
  obtain ⟨gone, v, later, rfl, hgone, hthere, hrest⟩ := List.filterMap_eq_cons_iff.mp hothers
  refine ⟨earlier ++ gone, v, later, by rw [hvisits, List.append_assoc], hthere, ?_, hrest⟩
  rw [List.filterMap_append, hbefore, List.filterMap_eq_nil_iff.mpr hgone, List.append_nil]

theorem waiter?_after (v : Visit) (found : Gate) (out : Waiter.Outcome) :
    (v.after now found out).waiter? = out.waiter := by
  cases hwaiter : out.waiter <;> simp [Visit.after, Visit.waiter?, hwaiter]

theorem waiter?_drop (v : Visit) : v.drop.waiter? = none := by
  unfold Visit.drop
  split <;> simp_all [Visit.waiter?]

/-- Changing one visit changes what becomes of its waiter. -/
theorem filterMap_modify (earlier later : List Visit) (v : Visit) (f : Visit → Visit) :
    ((earlier ++ v :: later).modify earlier.length f).filterMap (·.waiter?) =
      earlier.filterMap (·.waiter?) ++
        ((f v).waiter?.toList ++ later.filterMap (·.waiter?)) := by
  induction earlier with
  | nil =>
    rw [List.nil_append, List.length_nil, List.modify_zero_cons, List.filterMap_cons]
    cases (f v).waiter? <;> rfl
  | cons first earlier ih =>
    rw [List.cons_append, List.length_cons, List.modify_succ_cons, List.filterMap_cons, ih,
      List.filterMap_cons]
    cases first.waiter? <;> rfl

/-- **Whatever the scene of a gate does next is part of a run.** -/
theorem Run.work (h : Run now p) {s' : GateScene} {seen : List (String × GateNote)}
    (hwork : p.scene.work now = some (s', seen)) : ∃ p', Run now p' ∧ p'.scene = s' := by
  unfold GateScene.work at hwork
  split at hwork
  · next house run notes hnext =>
    cases hwork
    obtain ⟨-, hhouse⟩ := Gatehouse.of_runNext hnext
    refine ⟨(p.begin 0).callAll now run.handler.calls, (h.begin 0).callAll _, ?_⟩
    rw [scene_callAll, hhouse]
    rfl
  · split at hwork
    · next house waiters notes hmove =>
      cases hwork
      obtain ⟨before, w, rest, out, hwaiters, hstep, hhouse, rfl⟩ := exists_of_firstMove hmove
      obtain ⟨earlier, v, later, hvisits, hthere, rfl, rfl⟩ := p.exists_visit hwaiters
      have hat : p.visits[earlier.length]? = some v := by simp [hvisits]
      refine ⟨_, h.stretch earlier.length hat hthere hstep, ?_⟩
      obtain ⟨f, hf, hcalled⟩ := visits_callAll p now (w.calls now)
      have hkept (l : List Visit) : (l.map f).filterMap (·.waiter?) = l.filterMap (·.waiter?) := by
        rw [List.filterMap_map]
        simp only [Function.comp_def, (hf _).2]
      rw [hvisits, List.map_append, List.map_cons] at hcalled
      rw [scene, Visits.stretch, hcalled, ← List.length_map f, filterMap_modify, waiter?_after,
        hkept, hkept, house_callAll, hhouse, Waiter.house_of_step hstep]
      rfl
    · obtain ⟨⟨waiters, notes⟩, htimeout, heq⟩ := Option.map_eq_some_iff.mp hwork
      cases heq
      obtain ⟨before, w, rest, hwaiters, -, rfl⟩ := exists_of_firstTimeout htimeout
      obtain ⟨earlier, v, later, hvisits, hthere, rfl, rfl⟩ := p.exists_visit hwaiters
      refine ⟨_, h.drop earlier.length, ?_⟩
      rw [scene, Visits.drop, hvisits, filterMap_modify, waiter?_drop]
      rfl

theorem step_eq_none_of_firstMove {house : Gatehouse} {waiters : List Waiter}
    (h : GateScene.firstMove now house waiters = none) :
    ∀ w ∈ waiters, w.step now house = none := by
  induction waiters with
  | nil => exact List.forall_mem_nil _
  | cons w rest ih =>
    unfold GateScene.firstMove at h
    split at h
    · cases h
    · next hstep => exact List.forall_mem_cons.mpr ⟨hstep, ih (Option.map_eq_none_iff.mp h)⟩

/-- When nothing is left to do in the scene, no waiter can do anything. -/
theorem step_eq_none_of_work (hsettled : p.scene.work now = none) {v : Visit} {w : Waiter}
    (hv : v ∈ p.visits) (hthere : v.waiter? = some w) : w.step now p.house = none := by
  unfold GateScene.work at hsettled
  split at hsettled
  · cases hsettled
  · split at hsettled
    · cases hsettled
    · next hmove =>
      exact step_eq_none_of_firstMove hmove w (List.mem_filterMap.mpr ⟨v, hv, hthere⟩)

/-! ### Release -/

/-- **Whatever else is done to the gate and its waiters, a waiter without callbacks that finds the
gate open when it arrives passes at once. One that finds it blocked waits for the generation that it
found, never for one armed later. Until the gate has been opened for the first time since it arrived
it can do nothing; from then on it can leave, with the answer that it was blocked, in whatever state
the gate is meanwhile, and the clock does not move before it has left: when the scene has nothing to
do, it is gone. If it leaves by itself, it leaves at the instant of that opening.** -/
theorem released_by_first_opening (h : Run now p) {v : Visit} (hv : v ∈ p.visits)
    (hplain : v.guest.IsPlain) {came : Int} {found : Gate}
    (harrival : v.arrival = some (came, found)) :
    (found.isBlocked = false → v.fate = .left came [.passed false]) ∧
    (found.isBlocked = true →
      (∀ left notes, v.fate = .left left notes →
        notes = [.passed true] ∧ v.openings.getLast? = some left) ∧
      ∀ w, v.fate = .waiting w →
        (∃ generation, w.stage = .parked generation ∧ found.generation = some generation ∧
          generation < found.armed) ∧
        (v.openings = [] → w.step now p.house = none) ∧
        (∀ opened, v.openings.getLast? = some opened →
          now = opened ∧ w.step now p.house = some ⟨p.house, none, [.passed true]⟩) ∧
        (p.scene.work now = none → v.openings = [])) := by
  have hstands := h.sound.stands v hv hplain
  refine ⟨hstands.passed_of_open harrival, fun hblocked =>
    ⟨fun _ _ => hstands.released_of_blocked harrival hblocked, fun w hwaiting => ?_⟩⟩
  have hthere : v.waiter? = some w := by rw [Visit.waiter?, hwaiting]
  obtain ⟨generation, hstage, hfound, hnumber, hopenings⟩ :=
    hstands.parked_of_waiting harrival hwaiting
  have hstep := Waiter.step_parked hstage now p.house
  refine ⟨⟨generation, hstage, hfound, hnumber⟩, ?_⟩
  rcases hopenings with ⟨hnone, hblocks⟩ | ⟨hfirst, hresolved⟩
  · rw [if_pos hblocks] at hstep
    refine ⟨fun _ => hstep, fun opened hopened => ?_, fun _ => hnone⟩
    rw [hnone] at hopened
    cases hopened
  · rw [if_neg hresolved] at hstep
    refine ⟨fun hnone => ?_, fun opened hopened => ?_, fun hsettled => ?_⟩
    · rw [hnone] at hfirst
      cases hfirst
    · exact ⟨Option.some.inj (hfirst.symm.trans hopened), hstep⟩
    · rw [step_eq_none_of_work hsettled hv hthere] at hstep
      cases hstep

/-- A waiter without callbacks. -/
def passerby : Waiter := ⟨"a", none, none, 10, none, .arriving⟩

/-- It has come to a blocked gate, which has been opened and blocked again before it could leave. -/
def reblocked : Visits :=
  let p : Visits := ⟨.fresh {}, []⟩
  let p := (p.call 0 (.block (some "job"))).come passerby
  let p := p.stretch 0 0 passerby ⟨p.house, some { passerby with stage := .parked 0 }, []⟩
  (p.call 7 .unblock).call 7 (.block (some "next"))

theorem run_reblocked : Run 7 reblocked := by
  have hcome := ((Run.fresh 0 {}).call (.block (some "job"))).come passerby rfl
  have hparked := hcome.stretch 0 rfl rfl rfl
  refine ((hparked.wait (by decide) fun v hv w hw t _ _ => ?_).call .unblock).call
    (.block (some "next"))
  cases List.mem_singleton.mp hv
  cases hw
  exact (Waiter.step_parked rfl t _).trans (if_pos rfl)

/-- It leaves at that instant, though the gate is blocked. -/
theorem released_by_first_opening_of_reblocked :
    reblocked.house.gate.isBlocked = true ∧
    ∃ v ∈ reblocked.visits, v.openings = [7] ∧ ∃ w, v.fate = .waiting w ∧
      w.step 7 reblocked.house = some ⟨reblocked.house, none, [.passed true]⟩ := by
  have hmem : (⟨passerby, some (0, ⟨.blocked 0 (some "job"), 1⟩), [7],
      .waiting { passerby with stage := .parked 0 }⟩ : Visit) ∈ reblocked.visits := by decide
  obtain ⟨-, hblocked⟩ := released_by_first_opening run_reblocked hmem ⟨rfl, rfl⟩ rfl
  exact ⟨by decide, _, hmem, rfl, _, rfl, (((hblocked rfl).2 _ rfl).2.2.1 7 rfl).2⟩

end Visits

end Floodgate
