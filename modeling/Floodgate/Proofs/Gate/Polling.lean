import Mathlib.Data.Nat.Find
import Floodgate.Proofs.Gate.Visits
/-!
# Floodgate.Proofs.Gate.Polling

**When a polling waiter runs its callbacks, and when it passes.** A waiter that finds a gate blocked
greets once and then runs its polling callback, pauses, and runs it again, at instants that lie one
callback and one pause apart (`pollStart`). Between two runs it looks at the generation that it
found. So the first opening of the gate is noticed at the next of these instants, wherever within
the greeting, a callback or a pause it falls; the callback is then run once more, and the waiter
passes when it ends. Blocking the gate again makes no difference, as in
`Visits.released_by_first_opening`.

A `Stay` keeps when the gate was first opened since the waiter looked at it, and what the waiter has
let others see. It goes on (`Leads`) by calls of any tasks at any time, the callbacks of the waiter
among them, and by stretches of the waiter's work; the clock moves only while the waiter can do
nothing. Where the waiter can stand is said once (`Stands`) and kept by every step.

Main statement: `polls_until_opened`. Whatever a `GateScene` with the waiter does next is part of a
stay (`Leads.scene_work`).
-/

namespace Floodgate

/-! ### The timeline -/

namespace Waiter

/-- How long the greeting callback takes; a missing one takes no time. -/
def greetMillis (w : Waiter) : Nat := (w.onBlocked.map (·.millis)).getD 0

/-- How long the polling callback takes. -/
def callMillis (w : Waiter) : Nat := (w.whileBlocked.map (·.millis)).getD 0

/-- When a waiter that came at an instant starts its polling callback, counted from zero, as long as
it has to go on. -/
def pollStart (w : Waiter) (came : Int) (n : Nat) : Int :=
  came + w.greetMillis + n * (w.pollMillis + w.callMillis : Nat)

/-- What is seen of the greeting. -/
def greeting (w : Waiter) (came : Int) : List (Int × WaiterNote) :=
  w.onBlocked.toList.map fun _ => (came, .onBlocked)

/-- What is seen of the first runs of the polling callback, in order. -/
def polls (w : Waiter) (came : Int) (n : Nat) : List (Int × WaiterNote) :=
  (List.range n).map fun j => (w.pollStart came j, .whileBlocked)

/-- What is seen of a waiter whose callback runs for the last time at the `n`-th of its instants, in
order. -/
def timeline (w : Waiter) (came : Int) (n : Nat) : List (Int × WaiterNote) :=
  w.greeting came ++ w.polls came (n + 1) ++ [(w.pollStart came n + w.callMillis, .passed true)]

variable {w : Waiter} {came : Int} {j n : Nat}

theorem pollStart_zero (w : Waiter) (came : Int) : w.pollStart came 0 = came + w.greetMillis := by
  simp [pollStart]

/-- From one start to the next it takes a run of the callback and a pause. -/
theorem pollStart_succ (w : Waiter) (came : Int) (j : Nat) :
    w.pollStart came (j + 1) = w.pollStart came j + w.callMillis + w.pollMillis := by
  unfold pollStart
  rw [Int.natCast_succ, Int.add_mul, Int.one_mul]
  omega

theorem pollStart_mono (w : Waiter) (came : Int) {i j : Nat} (h : i ≤ j) :
    w.pollStart came i ≤ w.pollStart came j := by
  induction h with
  | refl => exact Int.le_refl _
  | step _ ih =>
    rw [pollStart_succ]
    omega

/-- With a pause the starts come to any instant. -/
theorem exists_lt_pollStart (hpause : 0 < w.pollMillis) (t : Int) :
    ∃ n, t < w.pollStart came n := by
  refine ⟨(t - came).toNat + 1, ?_⟩
  have hperiod : 1 ≤ w.pollMillis + w.callMillis := by omega
  have hmul := Nat.mul_le_mul_left ((t - came).toNat + 1) hperiod
  unfold pollStart
  rw [← Int.natCast_mul]
  omega

theorem polls_succ (w : Waiter) (came : Int) (j : Nat) :
    w.polls came (j + 1) = w.polls came j ++ [(w.pollStart came j, .whileBlocked)] := by
  rw [polls, List.range_succ, List.map_append]
  rfl

/-- What has been seen when the callback has been started `j` times, and what is still to come. -/
theorem exists_upcoming (w : Waiter) (came : Int) (hle : j ≤ n) :
    ∃ rest, w.greeting came ++ w.polls came j ++ rest = w.timeline came n ∧ rest ≠ [] ∧
      ∀ e ∈ rest, w.pollStart came j ≤ e.1 := by
  obtain ⟨d, rfl⟩ := Nat.exists_eq_add_of_le hle
  refine ⟨(List.range (d + 1)).map (fun i => (w.pollStart came (j + i), .whileBlocked)) ++
    [(w.pollStart came (j + d) + w.callMillis, .passed true)], ?_, by simp, ?_⟩
  · have hcount : List.range (j + d + 1) =
        List.range j ++ (List.range (d + 1)).map (j + ·) := by
      rw [Nat.add_assoc, List.range_add]
    rw [timeline, polls, polls, hcount, List.map_append, List.map_map]
    simp only [List.append_assoc, Function.comp_def]
  · intro e he
    rcases List.mem_append.mp he with he | he
    · obtain ⟨i, -, rfl⟩ := List.mem_map.mp he
      exact w.pollStart_mono came (Nat.le_add_right j i)
    · rw [List.mem_singleton.mp he]
      have hmono : w.pollStart came j ≤ w.pollStart came (j + d) :=
        w.pollStart_mono came (Nat.le_add_right j d)
      dsimp only
      omega

/-- The starts so far are no later than the latest of them. -/
theorem le_of_mem_seen {e : Int × WaiterNote}
    (he : e ∈ w.greeting came ++ w.polls came (j + 1)) : e.1 ≤ w.pollStart came j := by
  rcases List.mem_append.mp he with he | he
  · obtain ⟨_, -, rfl⟩ := List.mem_map.mp he
    have hmono : w.pollStart came 0 ≤ w.pollStart came j :=
      w.pollStart_mono came (Nat.zero_le j)
    rw [pollStart_zero] at hmono
    dsimp only
    omega
  · obtain ⟨i, hi, rfl⟩ := List.mem_map.mp he
    exact w.pollStart_mono came (Nat.le_of_lt_succ (List.mem_range.mp hi))

/-- Passing comes last. -/
theorem le_of_mem_timeline {e : Int × WaiterNote} (he : e ∈ w.timeline came n) :
    e.1 ≤ w.pollStart came n + w.callMillis := by
  rcases List.mem_append.mp he with he | he
  · have hstart := le_of_mem_seen he
    omega
  · obtain rfl := List.mem_singleton.mp he
    exact Int.le_refl _

/-- An instant at which the callback is not started lies between two starts, or before the first. -/
theorem exists_first_pollStart (hpause : 0 < w.pollMillis) {t : Int}
    (hapart : ∀ j, t ≠ w.pollStart came j) :
    ∃ n, t < w.pollStart came n ∧ ∀ j < n, w.pollStart came j < t := by
  have hexists : ∃ n, t < w.pollStart came n := exists_lt_pollStart hpause t
  refine ⟨Nat.find hexists, Nat.find_spec hexists, fun j hj => ?_⟩
  have hle := Int.not_lt.mp (Nat.find_min hexists hj)
  have hne := hapart j
  omega

/-! ### Stretches of a polling waiter's work -/

variable {now : Int} {house : Gatehouse} {generation : Nat} {until_ : Int} {last : Bool}

/-- A look at the generation starts the polling callback, for the last time if the generation is
resolved. -/
theorem poll_eq (hpolls : w.whileBlocked.isSome = true) (now : Int) (house : Gatehouse)
    (generation : Nat) :
    w.poll now house generation =
      ({ w with
        stage := .polling generation (now + w.callMillis) (house.gate.isResolved generation) },
        [.whileBlocked]) := by
  obtain ⟨callback, hcallback⟩ := Option.isSome_iff_exists.mp hpolls
  simp only [poll, callMillis, hcallback, Option.map_some, Option.getD_some]

theorem step_greeting (hstage : w.stage = .greeting generation until_) (now : Int)
    (house : Gatehouse) :
    w.step now house =
      if until_ ≤ now then
        let house' := house.callAll (w.calls now)
        let (w', notes) := w.poll now house' generation
        some ⟨house', some w', notes⟩
      else none := by
  simp only [step, hstage, calls]
  split
  · rw [act_eq]
  · rfl

theorem step_polling (hstage : w.stage = .polling generation until_ last) (now : Int)
    (house : Gatehouse) :
    w.step now house =
      if until_ ≤ now then
        let stage := if last then .parked generation else .pausing generation (now + w.pollMillis)
        some ⟨house.callAll (w.calls now), some { w with stage }, []⟩
      else none := by
  simp only [step, hstage, calls]
  split
  · rw [act_eq]
  · rfl

theorem step_pausing (hstage : w.stage = .pausing generation until_) (now : Int)
    (house : Gatehouse) :
    w.step now house =
      if until_ ≤ now then
        let (w', notes) := w.poll now house generation
        some ⟨house, some w', notes⟩
      else none := by
  simp only [step, hstage]

/-- When the waiter can do its next stretch of work, if it waits for a timer. -/
def due? (w : Waiter) : Option Int :=
  match w.stage with
  | .greeting _ until_ | .polling _ until_ _ | .pausing _ until_ => some until_
  | .arriving | .parked _ => none

theorem isSome_step_iff (hdue : w.due? = some until_) (now : Int) (house : Gatehouse) :
    (w.step now house).isSome = true ↔ until_ ≤ now := by
  unfold due? at hdue
  cases hstage : w.stage with
  | arriving => simp [hstage] at hdue
  | parked generation => simp [hstage] at hdue
  | greeting generation u =>
    simp only [hstage, Option.some.injEq] at hdue
    rw [step_greeting hstage, ← hdue]
    split <;> simp_all
  | polling generation u last =>
    simp only [hstage, Option.some.injEq] at hdue
    rw [step_polling hstage, ← hdue]
    split <;> simp_all
  | pausing generation u =>
    simp only [hstage, Option.some.injEq] at hdue
    rw [step_pausing hstage, ← hdue]
    split <;> simp_all

/-- Before its timer fires a waiter can do nothing. -/
theorem step_eq_none (hdue : w.due? = some until_) {i : Int} (hlt : i < until_)
    (house : Gatehouse) : w.step i house = none := by
  rw [← Option.not_isSome_iff_eq_none, isSome_step_iff hdue]
  exact Int.not_le.mpr hlt

theorem lt_of_step_eq_none (hdue : w.due? = some until_) (hnone : w.step now house = none) :
    now < until_ := by
  rw [← Option.not_isSome_iff_eq_none, isSome_step_iff hdue] at hnone
  exact Int.not_le.mp hnone

/-- A waiter that can do nothing before an instant has no timer that fires before it. -/
theorem le_of_idle (hdue : w.due? = some until_) (hle : now ≤ until_) {later : Int}
    (hidle : ∀ i, now ≤ i → i < later → w.step i house = none) : later ≤ until_ := by
  refine Int.not_lt.mp fun hlt => ?_
  have hsome := (isSome_step_iff hdue until_ house).mpr (Int.le_refl _)
  rw [hidle until_ hle hlt] at hsome
  cases hsome

/-- A measure of the work that is left for a waiter up to an instant: the time from its timer on,
and its stage. -/
def ahead (later : Int) : Option Waiter → Nat
  | none => 0
  | some w =>
    4 * (later - w.due?.getD later).toNat +
      match w.stage with
      | .arriving | .greeting _ _ | .pausing _ _ => 3
      | .polling _ _ _ => 2
      | .parked _ => 1

/-- A stretch of work that is done when it is due leaves less of it. -/
theorem ahead_lt {out : Outcome} {later : Int} (hpolls : w.whileBlocked.isSome = true)
    (hpause : 0 < w.pollMillis) (hstage : w.stage ≠ .arriving) (hdue : w.due?.getD now = now)
    (hlt : now < later) (hstep : w.step now house = some out) :
    ahead later out.waiter < ahead later (some w) := by
  unfold due? at hdue
  cases hwhere : w.stage with
  | arriving => exact absurd hwhere hstage
  | parked generation =>
    rw [step_parked hwhere] at hstep
    split at hstep
    · cases hstep
    · cases hstep
      simp only [ahead, hwhere]
      omega
  | greeting generation u =>
    simp only [hwhere, Option.getD_some] at hdue
    rw [step_greeting hwhere, if_pos (Int.le_of_eq hdue)] at hstep
    dsimp only at hstep
    rw [poll_eq hpolls] at hstep
    cases hstep
    simp only [ahead, due?, hwhere, Option.getD_some, hdue]
    omega
  | polling generation u last =>
    simp only [hwhere, Option.getD_some] at hdue
    rw [step_polling hwhere, if_pos (Int.le_of_eq hdue)] at hstep
    cases hstep
    cases last
    · simp only [ahead, due?, hwhere, Option.getD_some, hdue, Bool.false_eq_true, if_false]
      omega
    · simp only [ahead, due?, hwhere, Option.getD_some, Option.getD_none, hdue, if_true]
      omega
  | pausing generation u =>
    simp only [hwhere, Option.getD_some] at hdue
    rw [step_pausing hwhere, if_pos (Int.le_of_eq hdue)] at hstep
    dsimp only at hstep
    rw [poll_eq hpolls] at hstep
    cases hstep
    simp only [ahead, due?, hwhere, Option.getD_some, hdue]
    omega

end Waiter

/-! ### Stays -/

/-- The stay of one waiter at a gate that it found blocked. -/
structure Stay where
  house : Gatehouse
  /-- The waiter, until it passes. -/
  waiter : Option Waiter
  /-- When the gate was opened for the first time since the waiter looked at it. -/
  opened : Option Int
  /-- What the waiter has let others see and when, latest first. -/
  notes : List (Int × WaiterNote)
  deriving DecidableEq, Repr

namespace Stay

/-- Some task makes a call. -/
def call (s : Stay) (now : Int) (c : GateCall) : Stay :=
  let (house, flipped) := s.house.call c
  { s with house, opened := if flipped && !c.blocks then s.opened.or (some now) else s.opened }

def callAll (s : Stay) (now : Int) (calls : List GateCall) : Stay :=
  calls.foldl (·.call now ·) s

/-- A handler run that has been started begins. -/
def begin (s : Stay) (place : Nat) : Stay :=
  { s with house := { s.house with started := s.house.started.eraseIdx place } }

/-- The waiter has come to stand so, and has let others see something. -/
def goOn (s : Stay) (now : Int) (w : Option Waiter) (notes : List WaiterNote) : Stay :=
  { s with waiter := w, notes := (notes.map (now, ·)).reverse ++ s.notes }

/-- The waiter does a stretch of work. -/
def work (s : Stay) (now : Int) (w : Waiter) (out : Waiter.Outcome) : Stay :=
  (s.callAll now (w.calls now)).goOn now out.waiter out.notes

/-- The stay from one instant on leads to another. -/
inductive Leads (from_ : Int) (s : Stay) : Int → Stay → Prop
  | refl : Leads from_ s from_ s
  | call {now : Int} {t : Stay} (h : Leads from_ s now t) (c : GateCall) :
      Leads from_ s now (t.call now c)
  | begin {now : Int} {t : Stay} (h : Leads from_ s now t) (place : Nat) :
      Leads from_ s now (t.begin place)
  | work {now : Int} {t : Stay} {w : Waiter} {out : Waiter.Outcome} (h : Leads from_ s now t)
      (hthere : t.waiter = some w) (hstep : w.step now t.house = some out) :
      Leads from_ s now (t.work now w out)
  /-- Time passes, while the waiter can do nothing. -/
  | wait {now later : Int} {t : Stay} (h : Leads from_ s now t) (hle : now ≤ later)
      (hidle : ∀ w ∈ t.waiter, ∀ i, now ≤ i → i < later → w.step i t.house = none) :
      Leads from_ s later t

/-- The stays of a waiter that came at an instant and found a gate blocked, up to another. -/
inductive Run (guest : Waiter) (came : Int) : Int → Stay → Prop
  | come {now : Int} {s : Stay} {house : Gatehouse} {out : Waiter.Outcome}
      (hstage : guest.stage = .arriving) (hnumbered : house.gate.Numbered)
      (hblocked : house.gate.isBlocked = true) (hstep : guest.step came house = some out)
      (hleads : Leads came ((⟨house, some guest, none, []⟩ : Stay).goOn came out.waiter out.notes)
        now s) : Run guest came now s

/-- The waiter has nothing to do at an instant. -/
def IsSettled (now : Int) (s : Stay) : Prop := ∀ w ∈ s.waiter, w.step now s.house = none

/-! ### Where the waiter can stand -/

variable {guest w : Waiter} {came now later opened : Int} {generation j : Nat} {s t : Stay}
  {out : Waiter.Outcome}

/-- What the waiter has let others see when its callback has been started so many times, latest
first. -/
def seen (guest : Waiter) (came : Int) (j : Nat) : List (Int × WaiterNote) :=
  (guest.greeting came ++ guest.polls came j).reverse

theorem seen_succ (guest : Waiter) (came : Int) (j : Nat) :
    seen guest came (j + 1) = (guest.pollStart came j, .whileBlocked) :: seen guest came j := by
  rw [seen, Waiter.polls_succ, ← List.append_assoc, List.reverse_append]
  rfl

/-- An opening is noticed at the `j`-th start of the callback. -/
def NoticedAt (guest : Waiter) (came opened : Int) (j : Nat) : Prop :=
  opened ≤ guest.pollStart came j ∧ ∀ i < j, guest.pollStart came i ≤ opened

/-- Where the waiter can stand at an instant, when the gate has been opened, and what it has let
others see. -/
inductive Stands (guest : Waiter) (came : Int) (generation : Nat) (now : Int) :
    Option Waiter → Option Int → List (Int × WaiterNote) → Prop
  | greeting {opened : Option Int} (hcame : came ≤ now) (hle : now ≤ guest.pollStart came 0) :
      Stands guest came generation now
        (some { guest with stage := .greeting generation (guest.pollStart came 0) }) opened
        (seen guest came 0)
  | polling {opened : Option Int} {j : Nat} (hfrom : guest.pollStart came j ≤ now)
      (hle : now ≤ guest.pollStart came j + guest.callMillis)
      (hopened : ∀ i ∈ opened, guest.pollStart came j ≤ i) :
      Stands guest came generation now
        (some { guest with
          stage := .polling generation (guest.pollStart came j + guest.callMillis) false }) opened
        (seen guest came (j + 1))
  | pausing {opened : Option Int} {j : Nat} (hfrom : guest.pollStart came j ≤ now)
      (hle : now ≤ guest.pollStart came (j + 1))
      (hopened : ∀ i ∈ opened, guest.pollStart came j ≤ i) :
      Stands guest came generation now
        (some { guest with stage := .pausing generation (guest.pollStart came (j + 1)) }) opened
        (seen guest came (j + 1))
  /-- The callback runs for the last time. -/
  | finishing {opened : Int} {j : Nat} (hfrom : guest.pollStart came j ≤ now)
      (hle : now ≤ guest.pollStart came j + guest.callMillis)
      (hnoticed : NoticedAt guest came opened j) :
      Stands guest came generation now
        (some { guest with
          stage := .polling generation (guest.pollStart came j + guest.callMillis) true })
        (some opened) (seen guest came (j + 1))
  /-- The callback has ended, and the waiter has not passed yet. -/
  | parked {opened : Int} {j : Nat} (hnow : now = guest.pollStart came j + guest.callMillis)
      (hnoticed : NoticedAt guest came opened j) :
      Stands guest came generation now (some { guest with stage := .parked generation })
        (some opened) (seen guest came (j + 1))
  | passed {opened : Int} {j : Nat} (hle : guest.pollStart came j + guest.callMillis ≤ now)
      (hnoticed : NoticedAt guest came opened j) :
      Stands guest came generation now none (some opened)
        ((guest.pollStart came j + guest.callMillis, .passed true) :: seen guest came (j + 1))

/-- The generation that the waiter found blocks the gate until the gate is opened, and never again
after that. -/
structure Holds (generation : Nat) (now : Int) (s : Stay) : Prop where
  number : generation < s.house.gate.armed
  blocks_iff : s.house.gate.generation = some generation ↔ s.opened = none
  opened_le : ∀ i ∈ s.opened, i ≤ now

/-- What every stay keeps. -/
structure Sound (guest : Waiter) (came : Int) (generation : Nat) (now : Int) (s : Stay) :
    Prop extends Holds generation now s where
  stands : Stands guest came generation now s.waiter s.opened s.notes

theorem waiter_callAll (s : Stay) (now : Int) (calls : List GateCall) :
    (s.callAll now calls).waiter = s.waiter := by
  induction calls generalizing s with
  | nil => rfl
  | cons c rest ih => exact ih (s.call now c)

theorem house_callAll (s : Stay) (now : Int) (calls : List GateCall) :
    (s.callAll now calls).house = s.house.callAll calls := by
  induction calls generalizing s with
  | nil => rfl
  | cons c rest ih => exact ih (s.call now c)

/-- The first opening is at the present instant or has been before. -/
theorem Stands.opens {waiter : Option Waiter} {notes : List (Int × WaiterNote)}
    (h : Stands guest came generation now waiter none notes) :
    Stands guest came generation now waiter (some now) notes := by
  cases h with
  | greeting hcame hle => exact .greeting hcame hle
  | polling hfrom hle _ => exact .polling hfrom hle fun _ hi => Option.some.inj hi ▸ hfrom
  | pausing hfrom hle _ => exact .pausing hfrom hle fun _ hi => Option.some.inj hi ▸ hfrom

namespace Holds

theorem isResolved_iff (h : Holds generation now s) :
    s.house.gate.isResolved generation = true ↔ s.opened.isSome = true := by
  rw [Gate.isResolved, bne_iff_ne, ne_eq, h.blocks_iff, Option.isSome_iff_ne_none]

/-- The gate stays as it is when the waiter comes to stand elsewhere. -/
theorem goOn (h : Holds generation now s) {waiter : Option Waiter} {notes : List WaiterNote}
    (hstands : Stands guest came generation now waiter s.opened (s.goOn now waiter notes).notes) :
    Sound guest came generation now (s.goOn now waiter notes) :=
  ⟨⟨h.number, h.blocks_iff, h.opened_le⟩, hstands⟩

/-- When the waiter looks at its generation at the instant of the next start of the callback, it
starts the callback, for the last time if the gate has been opened. -/
theorem poll (h : Holds generation now s) (hpolls : guest.whileBlocked.isSome = true)
    (hnow : now = guest.pollStart came j) (hnotes : s.notes = seen guest came j)
    (hbefore : ∀ i ∈ s.opened, ∀ k < j, guest.pollStart came k ≤ i) :
    Sound guest came generation now
      (s.goOn now (some (guest.poll now s.house generation).1)
        (guest.poll now s.house generation).2) := by
  rw [Waiter.poll_eq hpolls]
  subst hnow
  have hseen : (guest.pollStart came j, WaiterNote.whileBlocked) :: s.notes =
      seen guest came (j + 1) := by rw [hnotes, seen_succ]
  refine h.goOn ?_
  change Stands guest came generation _ _ s.opened ((_, .whileBlocked) :: s.notes)
  rw [hseen]
  have hresolved := h.isResolved_iff
  cases hopened : s.opened with
  | none =>
    rw [hopened, Option.isSome_none, Bool.false_eq_true, iff_false, Bool.not_eq_true] at hresolved
    rw [hresolved]
    exact .polling (Int.le_refl _) (by omega) nofun
  | some opened =>
    rw [hopened, Option.isSome_some, eq_self, iff_true] at hresolved
    rw [hresolved]
    exact .finishing (Int.le_refl _) (by omega) ⟨h.opened_le _ hopened, hbefore _ hopened⟩

end Holds

namespace Sound

/-- A call that opens the gate resolves the generation of the waiter, unless that has been done; no
other call touches it. -/
theorem call (h : Sound guest came generation now s) (c : GateCall) :
    Sound guest came generation now (s.call now c) := by
  obtain ⟨⟨number, blocks_iff, opened_le⟩, stands⟩ := h
  unfold Stay.call
  rcases s.house.call_cases c with ⟨data, rfl, hopen, hcall⟩ | ⟨rfl, hblocked, hcall⟩ | ⟨-, hcall⟩
  · rw [hcall]
    refine ⟨⟨Nat.lt_succ_of_lt number, ⟨fun hnew => ?_, fun hnone => ?_⟩, opened_le⟩, stands⟩
    · -- the new generation has a number that was not given out when the waiter came
      cases hnew
      exact absurd number (Nat.lt_irrefl _)
    · rw [Gate.isBlocked_eq_isSome, blocks_iff.mpr hnone] at hopen
      cases hopen
  · rw [hcall]
    cases hopened : s.opened with
    | none =>
      rw [hopened] at stands
      refine ⟨⟨number, ⟨nofun, nofun⟩, fun i hi => ?_⟩, stands.opens⟩
      cases hi
      exact Int.le_refl _
    | some first =>
      rw [hopened] at opened_le stands
      exact ⟨⟨number, ⟨nofun, nofun⟩, opened_le⟩, stands⟩
  · rw [hcall]
    exact ⟨⟨number, blocks_iff, opened_le⟩, stands⟩

theorem callAll (h : Sound guest came generation now s) (calls : List GateCall) :
    Sound guest came generation now (s.callAll now calls) := by
  induction calls generalizing s with
  | nil => exact h
  | cons c rest ih => exact ih (h.call c)

/-- A stretch of work takes the waiter from one stand to the next. -/
theorem work (h : Sound guest came generation now s) (hpolls : guest.whileBlocked.isSome = true)
    (hthere : s.waiter = some w) (hstep : w.step now s.house = some out) :
    Sound guest came generation now (s.work now w out) := by
  -- what matters is how the waiter stands after the calls that it makes in this stretch
  have hcalled := h.callAll (w.calls now)
  have hhouse := s.house_callAll now (w.calls now)
  have hwaiter := (s.waiter_callAll now (w.calls now)).trans hthere
  unfold Stay.work
  generalize s.callAll now (w.calls now) = t at hcalled hhouse hwaiter ⊢
  have hstands := hcalled.stands
  rw [hwaiter] at hstands
  generalize hopened : t.opened = opened at hstands
  generalize hnotes : t.notes = notes at hstands
  cases hstands with
  | greeting hcame hle =>
    rw [Waiter.step_greeting rfl, ← hhouse] at hstep
    split at hstep
    · next hdue =>
      cases hstep
      exact hcalled.poll hpolls (Int.le_antisymm hle hdue) hnotes nofun
    · cases hstep
  | @polling opened j hfrom hle hbefore =>
    rw [Waiter.step_polling rfl, ← hhouse] at hstep
    split at hstep
    · next hdue =>
      cases hstep
      have hnow := Int.le_antisymm hle hdue
      have hnext : now + guest.pollMillis = guest.pollStart came (j + 1) := by
        rw [Waiter.pollStart_succ, hnow]
      refine hcalled.goOn ?_
      change Stands guest came generation now
        (some { guest with stage := .pausing generation (now + guest.pollMillis) }) t.opened t.notes
      rw [hopened, hnotes, hnext]
      exact .pausing hfrom (by omega) hbefore
    · cases hstep
  | @pausing opened j hfrom hle hbefore =>
    -- a pause ends without a call
    have hgate : t.house = s.house := hhouse
    rw [Waiter.step_pausing rfl, ← hgate] at hstep
    split at hstep
    · next hdue =>
      cases hstep
      refine hcalled.poll hpolls (Int.le_antisymm hle hdue) hnotes fun i hi k hk => ?_
      rw [hopened] at hi
      have hmono : guest.pollStart came k ≤ guest.pollStart came j :=
        guest.pollStart_mono came (Nat.le_of_lt_succ hk)
      exact Int.le_trans hmono (hbefore i hi)
    · cases hstep
  | finishing hfrom hle hnoticed =>
    rw [Waiter.step_polling rfl, ← hhouse] at hstep
    split at hstep
    · next hdue =>
      cases hstep
      refine hcalled.goOn ?_
      change Stands guest came generation now (some { guest with stage := .parked generation })
        t.opened t.notes
      rw [hopened, hnotes]
      exact .parked (Int.le_antisymm hle hdue) hnoticed
    · cases hstep
  | parked hnow hnoticed =>
    rw [Waiter.step_parked rfl] at hstep
    split at hstep
    · cases hstep
    · cases hstep
      refine hcalled.goOn ?_
      change Stands guest came generation now none t.opened ((now, .passed true) :: t.notes)
      rw [hopened, hnotes, hnow]
      exact .passed (Int.le_refl _) hnoticed

/-- Time passes until the next timer of the waiter, and none passes before a waiter that can pass
has passed. -/
theorem wait (h : Sound guest came generation now s) (hle : now ≤ later)
    (hidle : ∀ w ∈ s.waiter, ∀ i, now ≤ i → i < later → w.step i s.house = none) :
    Sound guest came generation later s := by
  refine ⟨⟨h.number, h.blocks_iff, fun i hi => Int.le_trans (h.opened_le i hi) hle⟩, ?_⟩
  have hstands := h.stands
  have hresolved := h.blocks_iff
  generalize s.waiter = waiter at hstands hidle ⊢
  generalize s.opened = opened at hstands hresolved ⊢
  generalize s.notes = notes at hstands ⊢
  rcases Int.lt_or_eq_of_le hle with hlt | rfl
  · cases hstands with
    | greeting hcame hle =>
      exact .greeting (by omega) (Waiter.le_of_idle rfl hle (hidle _ rfl))
    | polling hfrom hle hbefore =>
      exact .polling (by omega) (Waiter.le_of_idle rfl hle (hidle _ rfl)) hbefore
    | pausing hfrom hle hbefore =>
      exact .pausing (by omega) (Waiter.le_of_idle rfl hle (hidle _ rfl)) hbefore
    | finishing hfrom hle hnoticed =>
      exact .finishing (by omega) (Waiter.le_of_idle rfl hle (hidle _ rfl)) hnoticed
    | parked hnow hnoticed =>
      have hnone := hidle _ rfl now (Int.le_refl _) hlt
      rw [Waiter.step_parked rfl, if_neg (mt hresolved.mp nofun)] at hnone
      cases hnone
    | passed hle hnoticed => exact .passed (by omega) hnoticed
  · exact hstands

end Sound

/-- What is said of every stay that one stay leads to. -/
theorem Leads.sound (hpolls : guest.whileBlocked.isSome = true) (h : Leads now s later t)
    (hsound : Sound guest came generation now s) : Sound guest came generation later t := by
  induction h with
  | refl => exact hsound
  | call _ c ih => exact ih.call c
  | begin _ _ ih => exact ⟨⟨ih.number, ih.blocks_iff, ih.opened_le⟩, ih.stands⟩
  | work _ hthere hstep ih => exact ih.work hpolls hthere hstep
  | wait _ hle hidle ih => exact ih.wait hle hidle

/-- A waiter that finds the gate blocked takes up its generation and greets, or polls at once. -/
theorem Sound.come {house : Gatehouse} (hpolls : guest.whileBlocked.isSome = true)
    (hstage : guest.stage = .arriving) (hnumbered : house.gate.Numbered)
    (hblocked : house.gate.isBlocked = true) (hstep : guest.step came house = some out) :
    ∃ generation, Sound guest came generation came
      ((⟨house, some guest, none, []⟩ : Stay).goOn came out.waiter out.notes) := by
  rw [Gate.isBlocked_eq_isSome] at hblocked
  obtain ⟨generation, hgeneration⟩ := Option.isSome_iff_exists.mp hblocked
  have hholds : Holds generation came ⟨house, some guest, none, []⟩ :=
    ⟨hnumbered generation hgeneration, ⟨fun _ => rfl, fun _ => hgeneration⟩, nofun⟩
  refine ⟨generation, ?_⟩
  unfold Waiter.step at hstep
  simp only [hstage, hgeneration] at hstep
  split at hstep
  · next callback hcallback =>
    cases hstep
    have hstart : came + callback.millis = guest.pollStart came 0 := by
      simp [Waiter.pollStart_zero, Waiter.greetMillis, hcallback]
    have hseen : [(came, .onBlocked)] = seen guest came 0 := by
      simp [seen, Waiter.greeting, Waiter.polls, hcallback]
    refine hholds.goOn ?_
    change Stands guest came generation came
      (some { guest with stage := .greeting generation (came + callback.millis) }) none
      [(came, .onBlocked)]
    rw [hstart, hseen]
    exact .greeting (Int.le_refl _) (by omega)
  · next hnone =>
    cases hstep
    have hstart : came = guest.pollStart came 0 := by
      simp [Waiter.pollStart_zero, Waiter.greetMillis, hnone]
    have hseen : [] = seen guest came 0 := by
      simp [seen, Waiter.greeting, Waiter.polls, hnone]
    exact hholds.poll hpolls hstart hseen nofun

theorem Run.sound (hpolls : guest.whileBlocked.isSome = true) (h : Run guest came now s) :
    ∃ generation, Sound guest came generation now s := by
  obtain ⟨hstage, hnumbered, hblocked, hstep, hleads⟩ := h
  obtain ⟨generation, hsound⟩ := Sound.come hpolls hstage hnumbered hblocked hstep
  exact ⟨generation, hleads.sound hpolls hsound⟩

/-! ### The timeline is followed -/

/-- What has been seen by an instant and what is still to come make up a timeline, and the waiter
has passed when nothing is to come. -/
structure Follows (now : Int) (s : Stay) (all rest : List (Int × WaiterNote)) : Prop where
  append : s.notes.reverse ++ rest = all
  seen_le : ∀ e ∈ s.notes, e.1 ≤ now
  le_rest : ∀ e ∈ rest, now ≤ e.1
  /-- What is due has been done when the waiter has nothing to do. -/
  lt_rest : s.IsSettled now → ∀ e ∈ rest, now < e.1
  passed_iff : s.waiter = none ↔ rest = []

theorem le_of_mem_seen {e : Int × WaiterNote} (he : e ∈ seen guest came (j + 1)) :
    e.1 ≤ guest.pollStart came j :=
  Waiter.le_of_mem_seen (List.mem_reverse.mp he)

theorem eq_of_mem_seen {e : Int × WaiterNote} (he : e ∈ seen guest came 0) : e.1 = came := by
  obtain ⟨_, -, rfl⟩ := List.mem_map.mp (List.append_nil _ ▸ List.mem_reverse.mp he)
  rfl

/-- While the callback has not been run for the last time there are further starts to come. -/
theorem Follows.of_due {n : Nat} {until_ : Int} (hthere : s.waiter = some w)
    (hdue : w.due? = some until_) (hnotes : s.notes = seen guest came j)
    (hseen : ∀ e ∈ seen guest came j, e.1 ≤ now) (hle : now ≤ until_)
    (hnext : until_ ≤ guest.pollStart came j) (hn : j ≤ n) :
    ∃ rest, Follows now s (guest.timeline came n) rest := by
  obtain ⟨rest, happend, hne, hrest⟩ := guest.exists_upcoming came hn
  refine ⟨rest, ?_, hnotes ▸ hseen, fun e he => ?_, fun hsettled e he => ?_, ?_⟩
  · rw [hnotes, seen, List.reverse_reverse, happend]
  · exact Int.le_trans hle (Int.le_trans hnext (hrest e he))
  · have hlt := Waiter.lt_of_step_eq_none hdue (hsettled w hthere)
    exact Int.lt_of_lt_of_le hlt (Int.le_trans hnext (hrest e he))
  · rw [hthere]
    exact ⟨nofun, fun hnil => absurd hnil hne⟩

/-- When the callback has been started for the last time, passing is to come. -/
theorem Follows.of_last (hthere : s.waiter = some w) (hnotes : s.notes = seen guest came (j + 1))
    (hfrom : guest.pollStart came j ≤ now) (hle : now ≤ guest.pollStart came j + guest.callMillis)
    (hlt : s.IsSettled now → now < guest.pollStart came j + guest.callMillis) :
    ∃ rest, Follows now s (guest.timeline came j) rest := by
  refine ⟨[(guest.pollStart came j + guest.callMillis, .passed true)], ?_, fun e he => ?_,
    fun e he => ?_, fun hsettled e he => ?_, ?_⟩
  · rw [hnotes, seen, List.reverse_reverse]
    rfl
  · exact Int.le_trans (le_of_mem_seen (hnotes ▸ he)) hfrom
  · rw [List.mem_singleton.mp he]
    exact hle
  · rw [List.mem_singleton.mp he]
    exact hlt hsettled
  · rw [hthere]
    exact ⟨nofun, nofun⟩

/-- The opening is noticed at the first start of the callback that is later. -/
theorem NoticedAt.eq {n : Nat} (h : NoticedAt guest came opened j)
    (hfirst : opened < guest.pollStart came n)
    (hearlier : ∀ i < n, guest.pollStart came i < opened) : j = n := by
  rcases Nat.lt_trichotomy j n with hlt | heq | hgt
  · exact absurd (hearlier j hlt) (Int.not_lt.mpr h.1)
  · exact heq
  · exact absurd (h.2 n hgt) (Int.not_le.mpr hfirst)

theorem Sound.exists_rest {n : Nat} (h : Sound guest came generation now s)
    (hopened : s.opened = some opened) (hfirst : opened < guest.pollStart came n)
    (hearlier : ∀ i < n, guest.pollStart came i < opened) :
    ∃ rest, Follows now s (guest.timeline came n) rest := by
  have hstands := h.stands
  have hresolved := h.blocks_iff
  -- a callback that has been started before the opening is not the last one
  have hmore (j : Nat) (hj : guest.pollStart came j ≤ opened) : j + 1 ≤ n := by
    refine Nat.not_le.mp fun hle => ?_
    have hmono : guest.pollStart came n ≤ guest.pollStart came j := guest.pollStart_mono came hle
    omega
  rw [hopened] at hstands
  generalize hwaiter : s.waiter = waiter at hstands
  generalize hnotes : s.notes = notes at hstands
  cases hstands with
  | greeting hcame hle =>
    refine Follows.of_due hwaiter rfl hnotes (fun e he => ?_) hle (Int.le_refl _) (Nat.zero_le n)
    rw [eq_of_mem_seen he]
    exact hcame
  | @polling _ j hfrom hle hbefore =>
    refine Follows.of_due hwaiter rfl hnotes (fun e he => ?_) hle ?_ (hmore j (hbefore _ rfl))
    · exact Int.le_trans (le_of_mem_seen he) hfrom
    · rw [Waiter.pollStart_succ]
      omega
  | @pausing _ j hfrom hle hbefore =>
    refine Follows.of_due hwaiter rfl hnotes (fun e he => ?_) hle (Int.le_refl _)
      (hmore j (hbefore _ rfl))
    exact Int.le_trans (le_of_mem_seen he) hfrom
  | @finishing _ j hfrom hle hnoticed =>
    obtain rfl := hnoticed.eq hfirst hearlier
    refine Follows.of_last hwaiter hnotes hfrom hle fun hsettled => ?_
    exact Waiter.lt_of_step_eq_none rfl (hsettled _ hwaiter)
  | @parked _ j hnow hnoticed =>
    obtain rfl := hnoticed.eq hfirst hearlier
    refine Follows.of_last hwaiter hnotes (by omega) (Int.le_of_eq hnow) fun hsettled => ?_
    have hnone := hsettled _ hwaiter
    rw [Waiter.step_parked rfl, if_neg (by rw [hresolved, hopened]; nofun)] at hnone
    cases hnone
  | @passed _ j hle hnoticed =>
    obtain rfl := hnoticed.eq hfirst hearlier
    refine ⟨[], ?_, fun e he => ?_, nofun, fun _ => nofun, ?_⟩
    · rw [List.append_nil, hnotes, List.reverse_cons, seen, List.reverse_reverse]
      rfl
    · rw [hnotes] at he
      rcases List.mem_cons.mp he with rfl | he
      · exact hle
      · have hstart := le_of_mem_seen he
        omega
    · rw [hwaiter]
      exact ⟨fun _ => rfl, fun _ => rfl⟩

/-! ### The stay goes on -/

theorem Leads.trans {u : Stay} {last : Int} (h : Leads now s later t)
    (h' : Leads later t last u) : Leads now s last u := by
  induction h' with
  | refl => exact h
  | call _ c ih => exact ih.call c
  | begin _ place ih => exact ih.begin place
  | work _ hthere hstep ih => exact ih.work hthere hstep
  | wait _ hle hidle ih => exact ih.wait hle hidle

/-- The clock may move to the timer of the waiter. -/
theorem Leads.wait_timer {until_ last : Int} (h : Leads now s later t) (hthere : t.waiter = some w)
    (hdue : w.due? = some until_) (hle : later ≤ last) (hlast : last ≤ until_) :
    Leads now s last t := by
  refine h.wait hle fun w' hw' i _ hlt => ?_
  cases hthere.symm.trans hw'
  exact Waiter.step_eq_none hdue (Int.lt_of_lt_of_le hlt hlast) _

theorem opened_callAll (h : s.opened = some opened) (now : Int) (calls : List GateCall) :
    (s.callAll now calls).opened = some opened := by
  induction calls generalizing s with
  | nil => exact h
  | cons c rest ih =>
    refine ih ?_
    unfold Stay.call
    dsimp only
    split
    · rw [h, Option.some_or]
    · exact h

/-- The first opening remains the first. -/
theorem Leads.opened_eq (h : Leads now s later t) (hopened : s.opened = some opened) :
    t.opened = some opened := by
  induction h with
  | refl => exact hopened
  | call _ c ih => exact opened_callAll ih _ [c]
  | begin _ _ ih => exact ih
  | work _ _ _ ih => exact opened_callAll ih _ _
  | wait _ _ _ ih => exact ih

/-- A waiter that stands somewhere has a timer that fires at some time, or can pass at once. -/
theorem Sound.exists_due (h : Sound guest came generation now s) (hthere : s.waiter = some w) :
    ∃ due, now ≤ due ∧ w.due?.getD due = due ∧ w.stage ≠ .arriving ∧
      (∀ i, now ≤ i → i < due → w.step i s.house = none) ∧
      (w.step due s.house).isSome = true ∧ ∃ stage, w = { guest with stage } := by
  have hstands := h.stands
  have hresolved := h.blocks_iff
  rw [hthere] at hstands
  generalize hopened : s.opened = opened at hstands
  generalize s.notes = notes at hstands
  cases hstands with
  | parked hnow hnoticed =>
    refine ⟨now, Int.le_refl _, rfl, nofun, fun i hle hlt => by omega, ?_, _, rfl⟩
    rw [Waiter.step_parked rfl, if_neg (by rw [hresolved, hopened]; nofun)]
    rfl
  | greeting hcame hle =>
    exact ⟨_, hle, rfl, nofun, fun i _ hlt => Waiter.step_eq_none rfl hlt _,
      (Waiter.isSome_step_iff rfl _ _).mpr (Int.le_refl _), _, rfl⟩
  | polling hfrom hle hbefore =>
    exact ⟨_, hle, rfl, nofun, fun i _ hlt => Waiter.step_eq_none rfl hlt _,
      (Waiter.isSome_step_iff rfl _ _).mpr (Int.le_refl _), _, rfl⟩
  | pausing hfrom hle hbefore =>
    exact ⟨_, hle, rfl, nofun, fun i _ hlt => Waiter.step_eq_none rfl hlt _,
      (Waiter.isSome_step_iff rfl _ _).mpr (Int.le_refl _), _, rfl⟩
  | finishing hfrom hle hnoticed =>
    exact ⟨_, hle, rfl, nofun, fun i _ hlt => Waiter.step_eq_none rfl hlt _,
      (Waiter.isSome_step_iff rfl _ _).mpr (Int.le_refl _), _, rfl⟩

/-- Whatever the waiter waits for, the clock comes to every later instant. -/
theorem Sound.exists_leads (hpolls : guest.whileBlocked.isSome = true)
    (hpause : 0 < guest.pollMillis) (h : Sound guest came generation now s) (hle : now ≤ later) :
    ∃ t, Leads now s later t := by
  -- by induction on what is ahead of the waiter
  induction hahead : Waiter.ahead later s.waiter using Nat.strongRecOn generalizing now s with
  | _ n ih =>
    cases hthere : s.waiter with
    | none => exact ⟨s, .wait .refl hle fun w hw => by rw [hthere] at hw; cases hw⟩
    | some w =>
      obtain ⟨due, hdue, htimer, hstage, hidle, hstep, _, rfl⟩ := h.exists_due hthere
      rcases Int.lt_or_le due later with hlt | hge
      · obtain ⟨out, hout⟩ := Option.isSome_iff_exists.mp hstep
        have hwait : Leads now s due s :=
          .wait .refl hdue fun w hw => by rw [hthere] at hw; cases hw; exact hidle
        have hnext := hwait.work hthere hout
        have hsound := hnext.sound hpolls h
        have hless : Waiter.ahead later out.waiter < n := by
          rw [← hahead, hthere]
          exact Waiter.ahead_lt hpolls hpause hstage htimer hlt hout
        obtain ⟨t, ht⟩ := ih _ hless hsound (Int.le_of_lt hlt) rfl
        exact ⟨t, hnext.trans ht⟩
      · refine ⟨s, .wait .refl hle fun w hw i hi hilt => ?_⟩
        rw [hthere] at hw
        cases hw
        exact hidle i hi (Int.lt_of_lt_of_le hilt hge)

theorem Run.leads (h : Run guest came now s) (h' : Leads now s later t) :
    Run guest came later t := by
  obtain ⟨hstage, hnumbered, hblocked, hstep, hleads⟩ := h
  exact .come hstage hnumbered hblocked hstep (hleads.trans h')

/-- A timeline that lies in the past, or has come to its end with nothing left to do, has been
followed to its end. -/
theorem Follows.eq_nil {n : Nat} {rest : List (Int × WaiterNote)}
    (h : Follows now s (guest.timeline came n) rest)
    (hlast : guest.pollStart came n + guest.callMillis < now ∨
      guest.pollStart came n + guest.callMillis = now ∧ s.IsSettled now) : rest = [] := by
  refine List.eq_nil_iff_forall_not_mem.mpr fun e he => ?_
  have hle := Waiter.le_of_mem_timeline (h.append ▸ List.mem_append_right _ he)
  rcases hlast with hpast | ⟨hend, hsettled⟩
  · have hfuture := h.le_rest e he
    omega
  · have hfuture := h.lt_rest hsettled e he
    omega

/-! ### Scenes -/

theorem Leads.callAll (h : Leads now s later t) (calls : List GateCall) :
    Leads now s later (t.callAll later calls) := by
  induction calls generalizing t with
  | nil => exact h
  | cons c rest ih => exact ih (h.call c)

/-- A waiter of a scene stands before the one that is looked at, is it, or stands behind it. -/
theorem waiters_cases {before rest before' rest' : List Waiter} {waiter : Option Waiter}
    (h : before ++ (waiter.toList ++ rest) = before' ++ w :: rest') :
    (∃ between, before = before' ++ w :: between ∧ rest' = between ++ (waiter.toList ++ rest)) ∨
    (waiter = some w ∧ before = before' ∧ rest = rest') ∨
    ∃ between, before' = before ++ (waiter.toList ++ between) ∧ rest = between ++ w :: rest' := by
  rcases List.append_eq_append_iff.mp h with ⟨between, rfl, hrest⟩ | ⟨between, rfl, hrest⟩
  · cases waiter with
    | none => exact .inr (.inr ⟨between, rfl, hrest⟩)
    | some w' =>
      cases between with
      | nil =>
        cases hrest
        exact .inr (.inl ⟨rfl, (List.append_nil _).symm, rfl⟩)
      | cons w'' between =>
        cases hrest
        exact .inr (.inr ⟨between, rfl, rfl⟩)
  · cases between with
    | nil =>
      cases waiter with
      | none => exact .inr (.inr ⟨[], by simp, hrest.symm⟩)
      | some w' =>
        cases hrest
        exact .inr (.inl ⟨rfl, List.append_nil _, rfl⟩)
    | cons w' between =>
      cases hrest
      exact .inl ⟨between, rfl, rfl⟩

/-- **Whatever the scene of a gate does next, with the waiter among others, is part of a stay of the
waiter, as long as it has no deadline.** -/
theorem Leads.scene_work (h : Leads now s later t) {before rest : List Waiter} {scene : GateScene}
    {seen : List (String × GateNote)} (hpatient : ∀ w ∈ t.waiter, w.deadline = none)
    (hwork : GateScene.work later ⟨t.house, before ++ (t.waiter.toList ++ rest)⟩ =
      some (scene, seen)) :
    ∃ u before' rest', Leads now s later u ∧
      scene = ⟨u.house, before' ++ (u.waiter.toList ++ rest')⟩ := by
  unfold GateScene.work at hwork
  split at hwork
  · next house run notes hnext =>
    cases hwork
    obtain ⟨-, hhouse⟩ := Gatehouse.of_runNext hnext
    refine ⟨(t.begin 0).callAll later run.handler.calls, before, rest, (h.begin 0).callAll _, ?_⟩
    rw [waiter_callAll, house_callAll, hhouse]
    rfl
  · split at hwork
    · next house waiters notes hmove =>
      cases hwork
      obtain ⟨before', w, rest', out, hwaiters, hstep, rfl, rfl⟩ :=
        Visits.exists_of_firstMove hmove
      rcases waiters_cases hwaiters with ⟨between, rfl, rfl⟩ | ⟨hthere, rfl, rfl⟩ |
        ⟨between, rfl, rfl⟩
      · refine ⟨t.callAll later (w.calls later), before' ++ (out.waiter.toList ++ between), rest,
          h.callAll _, ?_⟩
        rw [waiter_callAll, house_callAll, ← Waiter.house_of_step hstep]
        simp only [List.append_assoc]
      · refine ⟨t.work later w out, before, rest, h.work hthere hstep, ?_⟩
        rw [Waiter.house_of_step hstep, ← house_callAll]
        rfl
      · refine ⟨t.callAll later (w.calls later), before, between ++ (out.waiter.toList ++ rest'),
          h.callAll _, ?_⟩
        rw [waiter_callAll, house_callAll, ← Waiter.house_of_step hstep]
        simp only [List.append_assoc]
    · obtain ⟨⟨waiters, notes⟩, htimeout, heq⟩ := Option.map_eq_some_iff.mp hwork
      cases heq
      obtain ⟨before', w, rest', hwaiters, hlate, rfl⟩ := Visits.exists_of_firstTimeout htimeout
      rcases waiters_cases hwaiters with ⟨between, rfl, rfl⟩ | ⟨hthere, rfl, rfl⟩ |
        ⟨between, rfl, rfl⟩
      · exact ⟨t, before' ++ between, rest, h, by simp only [List.append_assoc]⟩
      · simp only [Waiter.hasTimedOut, hpatient w hthere, Bool.false_eq_true] at hlate
      · exact ⟨t, before, between ++ rest', h, by simp only [List.append_assoc]⟩

/-! ### Opening -/

/-- **The stay of a polling waiter that finds a gate blocked can go on to any later instant,
whatever else is done to the gate. If the gate is opened for the first time at an instant at which
no run of the polling callback is due to start, then the waiter greets once when it comes, starts
the callback at each of these instants up to and including the first one after the opening, and
passes when that run of it ends: at every moment of the stay, what has been seen and what is to come
make up this timeline, and nothing that is due is left out when the waiter has nothing to do. Once
the last run of the callback has ended, the waiter has passed, and has been seen to do so at that
instant.** -/
theorem polls_until_opened (hpolls : guest.whileBlocked.isSome = true)
    (hpause : 0 < guest.pollMillis) (h : Run guest came now s) :
    (∀ later, now ≤ later → ∃ t, Leads now s later t) ∧
    ∀ opened, s.opened = some opened → (∀ j, opened ≠ guest.pollStart came j) →
      ∃ n, opened < guest.pollStart came n ∧ (∀ j < n, guest.pollStart came j < opened) ∧
        ∀ later t, Leads now s later t →
          (∃ rest, Follows later t (guest.timeline came n) rest) ∧
          (guest.pollStart came n + guest.callMillis < later ∨
            guest.pollStart came n + guest.callMillis = later ∧ t.IsSettled later →
            t.waiter = none ∧ t.notes.reverse = guest.timeline came n) := by
  obtain ⟨generation, hsound⟩ := h.sound hpolls
  refine ⟨fun later hle => hsound.exists_leads hpolls hpause hle, fun opened hopened hapart => ?_⟩
  obtain ⟨n, hfirst, hearlier⟩ := Waiter.exists_first_pollStart hpause hapart
  refine ⟨n, hfirst, hearlier, fun later t hleads => ?_⟩
  have hfollows := (hleads.sound hpolls hsound).exists_rest (hleads.opened_eq hopened) hfirst
    hearlier
  refine ⟨hfollows, fun hlast => ?_⟩
  obtain ⟨rest, hrest⟩ := hfollows
  obtain rfl := hrest.eq_nil hlast
  exact ⟨hrest.passed_iff.mpr rfl, by rw [← hrest.append, List.append_nil]⟩

/-- A waiter that greets for 5 ms and then polls for 3 ms at a time, with pauses of 10 ms. -/
def poller : Waiter := ⟨"a", some ⟨5, .nothing⟩, some ⟨3, .nothing⟩, 10, none, .arriving⟩

/-- It found the gate blocked at 0. -/
def greeted : Stay :=
  (⟨(Gatehouse.fresh {}).callAll [.block (some "job")], some poller, none, []⟩ : Stay).goOn 0
    (some { poller with stage := .greeting 0 5 }) [.onBlocked]

/-- While it polled for the first time, the gate has been opened and blocked again. -/
def polled : Stay :=
  (greeted.goOn 5 (some { poller with stage := .polling 0 8 false }) [.whileBlocked]).callAll 7
    [.unblock, .block (some "next")]

theorem run_polled : Run poller 0 7 polled := by
  have hnumbered : ((Gatehouse.fresh {}).callAll [.block (some "job")]).gate.Numbered :=
    Gate.Numbered.call (fun _ hnone => by cases hnone) _
  have hgreeted : Leads 0 greeted 5 greeted :=
    Leads.refl.wait_timer rfl rfl (by decide) (Int.le_refl 5)
  have hpolling := (hgreeted.work rfl rfl).wait_timer rfl rfl (by decide : (5 : Int) ≤ 7)
    (by decide)
  exact .come rfl hnumbered rfl rfl ((hpolling.call .unblock).call (.block (some "next")))

/-- It polls once more at 18, and passes at 21. -/
theorem polls_until_opened_of_reblocked :
    poller.whileBlocked.isSome = true ∧ 0 < poller.pollMillis ∧ Run poller 0 7 polled ∧
    polled.house.gate.isBlocked = true ∧
    ∃ t, Leads 7 polled 22 t ∧ t.waiter = none ∧ t.notes.reverse =
      [(0, .onBlocked), (5, .whileBlocked), (18, .whileBlocked), (21, .passed true)] := by
  obtain ⟨hon, htimeline⟩ := polls_until_opened rfl (by decide) run_polled
  have hapart (j : Nat) : (7 : Int) ≠ poller.pollStart 0 j := by
    change (7 : Int) ≠ 0 + 5 + j * 13
    omega
  obtain ⟨n, hfirst, hearlier, hleads⟩ := htimeline 7 rfl hapart
  obtain rfl : n = 1 := by
    have hmore : ¬ 1 < n := fun hn => absurd (hearlier 1 hn) (by decide)
    have hsome : n ≠ 0 := fun hzero => absurd (hzero ▸ hfirst) (by decide)
    omega
  obtain ⟨t, ht⟩ := hon 22 (by decide)
  exact ⟨rfl, by decide, run_polled, rfl, t, ht, (hleads 22 t ht).2 (.inl (by decide))⟩

end Stay

end Floodgate
