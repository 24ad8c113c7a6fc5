import Mathlib.Logic.Function.Iterate
import Floodgate.Proofs.Replication.Clock
/-!
# Floodgate.Proofs.Replication.KeyView

**One key by itself.** What a replicator does for a key can be told without the other keys: the
latest write of the key and how it is getting on, whether the lane of the key is taken and until
when, and the calls so far (`KeyView`). On a clock such a view has one way to go on. At an instant
it takes the steps that are possible then, a call that returns or one that starts
(`KeyView.next`); when there is none the instant passes (`Spot.move`). So a view that starts and is
asked for the same things at the same times goes through the same states (`Path.unique`).

When a request comes in is said by its instant and, if the key is not at rest then, by its place
among what the key does at that instant (`Place`): how many calls have started, and whether the lane
is taken. Every step at an instant changes the place (`rank_lt_of_next`).
-/

namespace Floodgate.Replicator

variable {α : Type}

/-- How the latest write of a key is getting on. -/
inductive Progress where
  | delivered
  | abandoned
  /-- So many attempts have failed, and the next one may start at the instant. -/
  | waiting (failures : Nat) (from_ : Int)
  /-- So many attempts have failed, and another one is in progress. -/
  | calling (failures : Nat)
  deriving DecidableEq, Repr

/-- What becomes of the latest write when a call on the lane of its key returns. The call is that of
a write before it, unless it is being called itself. -/
def Progress.returned (plan : ReplicationPlan) (now : Int) (ok : Bool) : Progress → Progress
  | .calling failures =>
    if ok then .delivered
    else
      match plan.retry.delayAfter (failures + 1) with
      | some delay => .waiting (failures + 1) (now + delay.timerMillis)
      | none => .abandoned
  | p => p

/-- What a replicator does for one key. -/
structure KeyView (α : Type) where
  /-- The latest write and how it is getting on. -/
  write : Option (α × Progress)
  /-- If the lane of the key is taken, when the call that holds it is to end, and how. -/
  lane : Option (Option (Int × Bool))
  /-- The calls of the key, the newest first. -/
  calls : List (CallRecord α)

/-- What can be asked of a replicator that has to do with a key. -/
inductive Request (α : Type) where
  | register (action : α)
  | forget
  | flush
  deriving DecidableEq

namespace KeyView

variable {plan : ReplicationPlan} {conduct : List (α × Int) → Manner}

def start : KeyView α := ⟨none, none, []⟩

/-- What a request makes of a view. -/
def ask (now : Int) (v : KeyView α) : Request α → KeyView α
  | .register action => { v with write := some (action, .waiting 0 now) }
  | .forget => { v with write := none, lane := none }
  | .flush =>
    match v.write with
    | some (action, .abandoned) => { v with write := some (action, .waiting 0 now) }
    | _ => v

/-- Starts a call. One that ends where it starts returns at the next step. -/
def call (conduct : List (α × Int) → Manner) (now : Int) (v : KeyView α) (action : α)
    (failures : Nat) (lease : Timestamp) : KeyView α :=
  let ends :=
    (conduct ((action, now) :: v.calls.map fun c => (c.action, c.time))).ends now
  ⟨some (action, .calling failures), some ends, ⟨action, now, lease, ends⟩ :: v.calls⟩

/-- What the view does by itself now, if anything. -/
def next (plan : ReplicationPlan) (conduct : List (α × Int) → Manner) (now : Int)
    (v : KeyView α) : Option (KeyView α) :=
  match v.lane, v.write with
  | some (some (due, ok)), write =>
    if due ≤ now then
      some { v with write := write.map fun (a, p) => (a, p.returned plan now ok), lane := none }
    else none
  | some none, _ => none
  | none, some (action, .waiting failures from_) =>
    if from_ ≤ now then (plan.leaseDeadline now).map (v.call conduct now action failures)
    else none
  | none, _ => none

/-- How many calls have started at an instant. -/
def started (now : Int) (v : KeyView α) : Nat := v.calls.countP fun c => c.time = now

/-- How far a view has got at an instant. -/
def rank (now : Int) (v : KeyView α) : Nat :=
  2 * v.started now + if v.lane.isNone then 1 else 0

/-- What a view does by itself, it does not do twice at an instant. -/
theorem rank_lt_of_next {now : Int} {v v' : KeyView α} (h : v.next plan conduct now = some v') :
    v.rank now < v'.rank now := by
  unfold next at h
  split at h
  · -- a return frees the lane
    rename_i due ok write hlane
    split at h
    · cases h
      simp [rank, started, hlane]
    · cases h
  · cases h
  · -- a start takes it, but is one call more
    rename_i action failures from_ hlane hwrite
    split at h
    · obtain ⟨lease, -, rfl⟩ := Option.map_eq_some_iff.mp h
      simp [rank, started, call, hlane]
      omega
    · cases h
  · cases h

end KeyView

/-! ### On the way -/

/-- A view at an instant. -/
structure Spot (α : Type) where
  now : Int
  view : KeyView α

namespace Spot

variable (plan : ReplicationPlan) (conduct : List (α × Int) → Manner)

/-- Goes on: with what the view does by itself, or to the next instant. -/
def move (x : Spot α) : Spot α :=
  match x.view.next plan conduct x.now with
  | some view => { x with view }
  | none => { x with now := x.now + 1 }

/-- Whether the view does nothing by itself now. -/
def isQuiet (x : Spot α) : Prop := x.view.next plan conduct x.now = none

theorem now_or_rank_lt_of_move (x : Spot α) : x.now < (x.move plan conduct).now ∨
    (x.move plan conduct).now = x.now ∧
      x.view.rank x.now < (x.move plan conduct).view.rank x.now := by
  unfold move
  split
  · rename_i view hnext
    exact .inr ⟨rfl, KeyView.rank_lt_of_next hnext⟩
  · exact .inl (Int.lt_succ x.now)

theorem now_or_rank_lt_of_iterate (n : Nat) (x : Spot α) :
    x.now < ((move plan conduct)^[n + 1] x).now ∨
      ((move plan conduct)^[n + 1] x).now = x.now ∧
        x.view.rank x.now < ((move plan conduct)^[n + 1] x).view.rank x.now := by
  induction n with
  | zero => exact x.now_or_rank_lt_of_move plan conduct
  | succ n ih =>
    rw [Function.iterate_succ_apply']
    rcases now_or_rank_lt_of_move plan conduct
      ((move plan conduct)^[n + 1] x) with hnow | ⟨hnow, hrank⟩
    · rcases ih with ih | ⟨ih, -⟩
      · exact .inl (Int.lt_trans ih hnow)
      · exact .inl (ih ▸ hnow)
    · rcases ih with ih | ⟨ih, ihrank⟩
      · exact .inl (hnow ▸ ih)
      · exact .inr ⟨hnow.trans ih, Nat.lt_trans ihrank (ih ▸ hrank)⟩

variable {plan conduct}

/-- From where nothing is left to do the instant passes. -/
theorem now_lt_of_isQuiet {x : Spot α} (h : x.isQuiet plan conduct) (n : Nat) :
    x.now < ((move plan conduct)^[n + 1] x).now := by
  have hmove : x.move plan conduct = { x with now := x.now + 1 } := by
    unfold move
    rw [h]
  rw [Function.iterate_succ_apply, hmove]
  cases n with
  | zero => exact Int.lt_succ x.now
  | succ n =>
    rcases now_or_rank_lt_of_iterate plan conduct n
      { x with now := x.now + 1 } with hlt | ⟨heq, -⟩
    · exact Int.lt_trans (Int.lt_succ x.now) hlt
    · rw [heq]
      exact Int.lt_succ x.now

end Spot

/-- When a request comes in, within its instant. -/
abbrev Place := Option (Nat × Bool)

/-- A request as it came in. -/
structure Asked (α : Type) where
  now : Int
  /-- None if the key was at rest; otherwise how many of its calls had started at the instant, and
  whether its lane was taken. -/
  place : Place
  request : Request α
  deriving DecidableEq

section Path

variable (plan : ReplicationPlan) (conduct : List (α × Int) → Manner)

/-- Whether a spot is where a request came in. -/
def Spot.isAt (x : Spot α) : Place → Prop
  | none => x.isQuiet plan conduct
  | some (started, taken) => x.view.started x.now = started ∧ x.view.lane.isSome = taken

/-- The way of a view from a start that is asked, at times, for things; those asked last come
first. -/
inductive Path (since : Int) : List (Asked α) → Spot α → Prop where
  | start : Path since [] ⟨since, .start⟩
  /-- The view goes on by itself, or an instant passes. -/
  | move {asked : List (Asked α)} {x : Spot α} (h : Path since asked x) :
      Path since asked (x.move plan conduct)
  /-- Something is asked for. -/
  | ask {asked : List (Asked α)} {x : Spot α} {place : Place} (request : Request α)
      (h : Path since asked x) (hplace : x.isAt plan conduct place) :
      Path since (⟨x.now, place, request⟩ :: asked) { x with view := x.view.ask x.now request }

variable {plan conduct} {since : Int} {asked : List (Asked α)} {x y : Spot α}

/-- Spots that are at the same place at the same time, and of which one leads to the other, are
one. -/
theorem Spot.eq_of_isAt {n : Nat} (hxy : (move plan conduct)^[n] x = y) (hnow : x.now = y.now)
    {place : Place} (hx : x.isAt plan conduct place) (hy : y.isAt plan conduct place) : x = y := by
  cases n with
  | zero => exact hxy
  | succ n =>
    exfalso
    cases place with
    | none =>
      have hlt := now_lt_of_isQuiet hx n
      rw [hxy, hnow] at hlt
      exact Int.lt_irrefl _ hlt
    | some place =>
      rcases now_or_rank_lt_of_iterate plan conduct n x with
        hlt | ⟨-, hlt⟩
      · rw [hxy, hnow] at hlt
        exact Int.lt_irrefl _ hlt
      · obtain ⟨hstarted, htaken⟩ := hx
        obtain ⟨hstarted', htaken'⟩ := hy
        have hlane : x.view.lane.isNone = y.view.lane.isNone := by
          rw [← Option.not_isSome, ← Option.not_isSome, htaken, htaken']
        rw [hxy, hnow] at hlt
        rw [hnow] at hstarted
        simp only [KeyView.rank, hstarted, hstarted', hlane, Nat.lt_irrefl] at hlt

variable (plan conduct since) in
/-- A spot at which the view stood when it had just been asked for the last time. -/
def Anchor : List (Asked α) → Spot α → Prop
  | [], y => y = ⟨since, .start⟩
  | a :: rest, y => ∃ z, Path plan conduct since rest z ∧ z.now = a.now ∧
      z.isAt plan conduct a.place ∧ y = { z with view := z.view.ask z.now a.request }

theorem Path.anchor (h : Path plan conduct since asked x) :
    ∃ (y : Spot α) (n : Nat), (Spot.move plan conduct)^[n] y = x ∧
      Anchor plan conduct since asked y := by
  induction h with
  | start => exact ⟨_, 0, rfl, rfl⟩
  | move _ ih =>
    obtain ⟨y, n, rfl, hy⟩ := ih
    exact ⟨y, n + 1, Function.iterate_succ_apply' .., hy⟩
  | ask request h hplace => exact ⟨_, 0, rfl, _, h, rfl, hplace, rfl⟩

/-- Of two spots that one spot leads to one leads to the other. -/
theorem Spot.comparable {z : Spot α} {m n : Nat} (hx : (move plan conduct)^[m] z = x)
    (hy : (move plan conduct)^[n] z = y) :
    (∃ n, (move plan conduct)^[n] x = y) ∨ ∃ n, (move plan conduct)^[n] y = x := by
  subst hx hy
  rcases Nat.le_total m n with hle | hle
  · refine .inl ⟨n - m, ?_⟩
    rw [← Function.iterate_add_apply, Nat.sub_add_cancel hle]
  · refine .inr ⟨m - n, ?_⟩
    rw [← Function.iterate_add_apply, Nat.sub_add_cancel hle]

/-- So it is with two spots on the way with the same requests. -/
theorem Path.comparable (hx : Path plan conduct since asked x)
    (hy : Path plan conduct since asked y) :
    (∃ n, (Spot.move plan conduct)^[n] x = y) ∨ ∃ n, (Spot.move plan conduct)^[n] y = x := by
  -- after the last request both go on from one anchor, which the requests before it fix
  induction asked generalizing x y with
  | nil =>
    obtain ⟨_, m, hm, rfl⟩ := hx.anchor
    obtain ⟨_, n, hn, rfl⟩ := hy.anchor
    exact Spot.comparable hm hn
  | cons a rest ih =>
    obtain ⟨_, m, hm, z, hz, hznow, hzat, rfl⟩ := hx.anchor
    obtain ⟨_, n, hn, z', hz', hznow', hzat', rfl⟩ := hy.anchor
    -- the last request came in at one spot
    have hsame : z = z' := by
      rcases ih hz hz' with ⟨k, hk⟩ | ⟨k, hk⟩
      · exact Spot.eq_of_isAt hk (hznow.trans hznow'.symm) hzat hzat'
      · exact (Spot.eq_of_isAt hk (hznow'.trans hznow.symm) hzat' hzat).symm
    subst hsame
    exact Spot.comparable hm hn

/-- **A view that is asked for the same things at the same times is the same** at every instant at
which nothing is left for it to do. -/
theorem Path.unique (hx : Path plan conduct since asked x) (hy : Path plan conduct since asked y)
    (hnow : x.now = y.now) (hquiet : x.isQuiet plan conduct) (hquiet' : y.isQuiet plan conduct) :
    x = y := by
  rcases hx.comparable hy with ⟨n, hn⟩ | ⟨n, hn⟩
  · exact Spot.eq_of_isAt hn hnow (show x.isAt plan conduct none from hquiet) hquiet'
  · exact (Spot.eq_of_isAt hn hnow.symm (show y.isAt plan conduct none from hquiet') hquiet).symm

theorem Path.next {now : Int} {view view' : KeyView α}
    (h : Path plan conduct since asked ⟨now, view⟩)
    (hnext : view.next plan conduct now = some view') :
    Path plan conduct since asked ⟨now, view'⟩ := by
  have hmove := h.move
  simp only [Spot.move, hnext] at hmove
  exact hmove

/-- Time passes as long as nothing is left to do. -/
theorem Path.wait {now later : Int} {view : KeyView α}
    (h : Path plan conduct since asked ⟨now, view⟩) (hle : now ≤ later)
    (hquiet : ∀ t, now ≤ t → t < later → view.next plan conduct t = none) :
    Path plan conduct since asked ⟨later, view⟩ := by
  obtain ⟨n, rfl⟩ := Int.le.dest hle
  clear hle
  induction n with
  | zero => simpa using h
  | succ n ih =>
    have hold := ih fun t hle hlt => hquiet t hle (by omega)
    have hmove := hold.move
    have hnone := hquiet (now + n) (by omega) (by omega)
    simp only [Spot.move, hnone] at hmove
    have hsucc : now + ((n + 1 : Nat) : Int) = now + n + 1 := by omega
    rw [hsucc]
    exact hmove

end Path

end Floodgate.Replicator
