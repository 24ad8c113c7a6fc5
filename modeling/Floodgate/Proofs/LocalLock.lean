import Floodgate.Proofs.Counter
import Floodgate.Proofs.Verdict
import Floodgate.Registry
import Mathlib.Data.List.Infix
/-!
# Floodgate.Proofs.LocalLock

**A local lock is blocked for whole busy periods.** A busy period begins when the count reaches the
threshold, and lasts until the count is zero again, however often the count crosses the threshold in
between. The counter knows nothing of periods: with a threshold above one it reports the instance
busy at each crossing, and it reports it idle also if it has never been busy. It is the gate that
makes one period of these reports, because it keeps the first blocker's data and starts handlers
only when it flips.

The calls of a controller are kept latest first, so that a moment is the calls up to it, a suffix of
them all. What one call does is said once, by the period (`Steady.use_cases`): either the lock stays
as busy as it was and its gatehouse is left alone, or a period begins or ends with a flip of the
gate.

Main statement: `LockLog.hysteresis`.
-/

namespace Floodgate

/-- A call of the controller of a lock. -/
inductive Usage where
  | increment (data : Option String)
  | decrement (amount : UInt64)
  deriving DecidableEq, Repr

namespace Usage

variable {threshold : Nat} {usages earlier : List Usage} {u : Usage} {flip : Flip}

def isIncrement : Usage → Bool
  | increment _ => true
  | decrement _ => false

/-- What the call makes of the count. Counting down stops at zero. -/
def apply : Usage → Nat → Nat
  | increment _, count => count + 1
  | decrement amount, count => count - amount.toNat

/-! ### Histories of calls, latest first -/

/-- The count after some calls. -/
def countAfter (usages : List Usage) : Nat := usages.foldr apply 0

/-- The moments since the count was last zero, latest first. -/
def sinceZero (usages : List Usage) : List (List Usage) :=
  usages.tails.takeWhile (countAfter · ≠ 0)

/-- The moments since the count was last zero at which it was at the threshold or above it. -/
def reaching (threshold : Nat) (usages : List Usage) : List (List Usage) :=
  (sinceZero usages).filter (threshold ≤ countAfter ·)

/-- Whether the count has reached the threshold since it was last zero. -/
def isBusy (threshold : Nat) (usages : List Usage) : Bool := !(reaching threshold usages).isEmpty

/-- Whether a busy period has just begun (for the flip that blocks), or just ended. -/
def turns (threshold : Nat) (usages : List Usage) : Flip → Bool
  | .locked => isBusy threshold usages && !isBusy threshold usages.tail
  | .unlocked => !isBusy threshold usages && isBusy threshold usages.tail

/-- How many busy periods have begun (for the flip that blocks), or have ended. -/
def periods (threshold : Nat) (flip : Flip) (usages : List Usage) : Nat :=
  usages.tails.countP (turns threshold · flip)

theorem countAfter_cons : countAfter (u :: earlier) = u.apply (countAfter earlier) := rfl

theorem reaching_cons : reaching threshold (u :: earlier) =
    if countAfter (u :: earlier) = 0 then []
    else if threshold ≤ countAfter (u :: earlier) then
      (u :: earlier) :: reaching threshold earlier
    else reaching threshold earlier := by
  rw [reaching, sinceZero, List.tails_cons, List.takeWhile_cons]
  by_cases hzero : countAfter (u :: earlier) = 0
  · simp [hzero]
  · by_cases hle : threshold ≤ countAfter (u :: earlier)
    · simp [hzero, hle, reaching, sinceZero]
    · simp [hzero, hle, reaching, sinceZero]

theorem isBusy_cons : isBusy threshold (u :: earlier) =
    (countAfter (u :: earlier) ≠ 0 &&
      (threshold ≤ countAfter (u :: earlier) || isBusy threshold earlier)) := by
  rw [isBusy, reaching_cons]
  by_cases hzero : countAfter (u :: earlier) = 0
  · simp [hzero]
  · by_cases hle : threshold ≤ countAfter (u :: earlier)
    · simp [hzero, hle]
    · simp [hzero, hle, isBusy]

theorem isBusy_of_le (hpos : 0 < threshold) (hle : threshold ≤ countAfter usages) :
    isBusy threshold usages = true := by
  cases usages with
  | nil => exact absurd hle (Nat.not_le_of_lt hpos)
  | cons u earlier =>
    have hne : countAfter (u :: earlier) ≠ 0 := by omega
    simp [isBusy_cons, hne, hle]

theorem isBusy_of_zero (hzero : countAfter usages = 0) : isBusy threshold usages = false := by
  cases usages with
  | nil => rfl
  | cons u earlier => simp [isBusy_cons, hzero]

/-- Counting one more makes the lock busy if the count is now at the threshold: it cannot get past
the threshold without being at it. -/
theorem isBusy_increment (hpos : 0 < threshold) (data : Option String) :
    isBusy threshold (.increment data :: earlier) =
      (countAfter earlier + 1 = threshold || isBusy threshold earlier) := by
  rw [isBusy_cons, countAfter_cons, apply]
  by_cases hle : threshold ≤ countAfter earlier
  · simp [isBusy_of_le hpos hle]
  · have hiff : threshold ≤ countAfter earlier + 1 ↔ countAfter earlier + 1 = threshold := by omega
    simp [hiff]

/-- Counting less makes the lock idle only at zero. -/
theorem isBusy_decrement (hpos : 0 < threshold) (amount : UInt64) :
    isBusy threshold (.decrement amount :: earlier) =
      (countAfter earlier - amount.toNat ≠ 0 && isBusy threshold earlier) := by
  rw [isBusy_cons, countAfter_cons, apply]
  by_cases hle : threshold ≤ countAfter earlier
  · simp [isBusy_of_le hpos hle]
  · have hlower : ¬ threshold ≤ countAfter earlier - amount.toNat := by omega
    simp [hlower]

/-- The moment at which a period has begun, once it has. -/
theorem getLast?_reaching_of_begun (hwas : isBusy threshold earlier = false)
    (hbusy : isBusy threshold (u :: earlier) = true) :
    (reaching threshold (u :: earlier)).getLast? = some (u :: earlier) := by
  have hnone : reaching threshold earlier = [] := by simpa [isBusy] using hwas
  rw [isBusy_cons, hwas, Bool.or_false, Bool.and_eq_true, decide_eq_true_eq,
    decide_eq_true_eq] at hbusy
  rw [reaching_cons, if_neg hbusy.1, if_pos hbusy.2, hnone, List.getLast?_singleton]

/-- Within a period it is the same for all later moments. -/
theorem getLast?_reaching_of_busy (hwas : isBusy threshold earlier = true)
    (hbusy : isBusy threshold (u :: earlier) = true) :
    (reaching threshold (u :: earlier)).getLast? = (reaching threshold earlier).getLast? := by
  have hsome : reaching threshold earlier ≠ [] := by simpa [isBusy] using hwas
  rw [isBusy_cons, Bool.and_eq_true, decide_eq_true_eq] at hbusy
  rw [reaching_cons, if_neg hbusy.1]
  split
  · exact List.getLast?_cons_of_ne_nil hsome
  · rfl

theorem turns_of_same (hsame : isBusy threshold (u :: earlier) = isBusy threshold earlier) :
    turns threshold (u :: earlier) flip = false := by
  cases flip <;> simp [turns, hsame]

/-- A period begins or ends, and not the other way round, if the call leaves the lock as it was
not. -/
theorem turns_of_flip {c : GateCall} (hbusy : isBusy threshold (u :: earlier) = c.blocks)
    (hwas : isBusy threshold earlier = !c.blocks) :
    turns threshold (u :: earlier) flip = decide (c.flip = flip) := by
  cases c <;> cases flip <;> simp [turns, hbusy, hwas, GateCall.blocks, GateCall.flip]

theorem periods_cons : periods threshold flip (u :: earlier) =
    periods threshold flip earlier + if turns threshold (u :: earlier) flip then 1 else 0 := by
  rw [periods, List.tails_cons, List.countP_cons]
  rfl

theorem periods_nil : periods threshold flip [] = 0 := by
  cases flip <;> rfl

/-- There is nothing to count but what has been counted up. -/
theorem countAfter_le (usages : List Usage) :
    countAfter usages ≤ usages.countP (·.isIncrement) := by
  induction usages with
  | nil => exact Nat.le_refl 0
  | cons u earlier ih =>
    rw [List.countP_cons]
    cases u with
    | increment data => exact Nat.succ_le_succ ih
    | decrement amount => exact Nat.le_trans (Nat.sub_le ..) ih

end Usage

open Usage

/-! ### One call -/

/-- The update that a call makes of the count, with the edge that it is. -/
def UsageCounter.use (c : UsageCounter) : Usage → UsageCounter × Option StatusEdge
  | .increment data => c.raise data
  | .decrement amount => c.lower amount

/-- What a report makes a task do to the gate of a local lock. -/
def StatusEdge.call : StatusEdge → GateCall
  | busy data => .block data
  | idle => .unblock

/-- Makes a call of the controller. -/
def LocalLock.use (l : LocalLock) : Usage → LocalLock
  | .increment data => (l.increment data).2
  | .decrement amount => (l.decrement amount).2

theorem LocalLock.use_eq (l : LocalLock) (u : Usage) : l.use u =
    ⟨match (l.counter.use u).2 with
      | some edge => (l.house.call edge.call).1
      | none => l.house, (l.counter.use u).1⟩ := by
  have hreport (name : String) (house : Gatehouse) (edge : Option StatusEdge) :
      (UsageCounter.report localStore name house edge).2 =
        match edge with
        | some edge => (house.call edge.call).1
        | none => house := by
    rcases edge with _ | _ | _ <;> rfl
  cases u with
  | increment data => rw [← hreport l.counter.instanceName]; rfl
  | decrement amount => rw [← hreport l.counter.instanceName]; rfl

namespace UsageCounter

variable {c : UsageCounter} {u : Usage} {earlier : List Usage} {edge : StatusEdge}

@[simp] theorem threshold_use : (c.use u).1.threshold = c.threshold := by
  cases u <;> rfl

theorem toNat_count_use (hroom : u.apply c.count.toNat < UInt64.size) :
    (c.use u).1.count.toNat = u.apply c.count.toNat := by
  cases u with
  | increment data =>
    rw [use, raise, UInt64.toNat_add]
    exact Nat.mod_eq_of_lt hroom
  | decrement amount =>
    simp only [use, lower, apply]
    split
    · next hle => exact UInt64.toNat_sub_of_le _ _ hle
    · next hle =>
      rw [UInt64.le_iff_toNat_le] at hle
      exact (Nat.sub_eq_zero_of_le (Nat.le_of_not_le hle)).symm

/-- An edge is a report of what the lock has become: a call that blocks is made with the data of the
call that it comes from. -/
theorem isBusy_of_edge (hpos : 0 < c.threshold.toNat) (hcount : c.count.toNat = countAfter earlier)
    (hroom : u.apply c.count.toNat < UInt64.size) (hedge : (c.use u).2 = some edge) :
    isBusy c.threshold.toNat (u :: earlier) = edge.call.blocks ∧
      (edge.call.blocks = true → u = .increment edge.call.data) := by
  have htoNat := toNat_count_use hroom
  cases u with
  | increment data =>
    simp only [use, raise, Option.ite_none_right_eq_some, Option.some.injEq] at hedge htoNat
    obtain ⟨hat, rfl⟩ := hedge
    rw [hat, hcount] at htoNat
    refine ⟨?_, fun _ => rfl⟩
    rw [isBusy_increment hpos, htoNat, apply, decide_eq_true rfl]
    rfl
  | decrement amount =>
    simp only [use, lower, Option.ite_none_right_eq_some, Option.some.injEq] at hedge htoNat
    obtain ⟨⟨-, hzero⟩, rfl⟩ := hedge
    have hnone : countAfter (.decrement amount :: earlier) = 0 := by
      rw [countAfter_cons, ← hcount, ← htoNat, hzero]
      rfl
    exact ⟨isBusy_of_zero hnone, fun hblocks => absurd hblocks Bool.false_ne_true⟩

/-- A call that is no edge leaves the lock as busy as it was. -/
theorem isBusy_of_no_edge (hpos : 0 < c.threshold.toNat)
    (hcount : c.count.toNat = countAfter earlier) (hroom : u.apply c.count.toNat < UInt64.size)
    (hedge : (c.use u).2 = none) :
    isBusy c.threshold.toNat (u :: earlier) = isBusy c.threshold.toNat earlier := by
  have htoNat := toNat_count_use hroom
  cases u with
  | increment data =>
    simp only [use, raise, ite_eq_right_iff, reduceCtorEq, imp_false] at hedge htoNat
    have hne : countAfter earlier + 1 ≠ c.threshold.toNat := by
      rw [← hcount]
      exact fun hat => hedge (UInt64.toNat_inj.mp (htoNat.trans hat))
    simp [isBusy_increment hpos, hne]
  | decrement amount =>
    rw [isBusy_decrement hpos, ← hcount]
    by_cases hzero : c.count.toNat = 0
    · -- There was nothing to count down, so the lock has been idle all the time.
      rw [isBusy_of_zero (hcount.symm.trans hzero), Bool.and_false]
    · have hleft : c.count.toNat - amount.toNat ≠ 0 := fun hleft => by
        have hcounted : 0 < c.count ∧ (c.lower amount).1.count = 0 :=
          ⟨UInt64.lt_iff_toNat_lt.mpr (Nat.pos_of_ne_zero hzero),
            UInt64.toNat_inj.mp (htoNat.trans hleft)⟩
        have hidle : (c.lower amount).2 = some .idle := if_pos hcounted
        rw [use, hidle] at hedge
        cases hedge
      simp [hleft]

end UsageCounter

/-! ### Handler runs -/

/-- Whether the run is one of a handler, given with its flip and its place. -/
def HandlerRun.isOf (run : HandlerRun) (flip : Flip) (index : Nat) (handler : Handler) : Bool :=
  run.flip = flip ∧ run.index = index ∧ run.handler = handler

/-- What is made of the members of a list by their places can be told apart by the place. -/
theorem countP_mapIdx {α β : Type} {p : β → Bool} {xs : List α} {f : Nat → α → β} {index : Nat}
    {x : α} (hat : xs[index]? = some x) (hp : ∀ i y, p (f i y) = true ↔ i = index ∧ y = x) :
    (xs.mapIdx f).countP p = 1 := by
  induction xs generalizing f index with
  | nil => cases hat
  | cons y rest ih =>
    rw [List.mapIdx_cons, List.countP_cons]
    cases index with
    | zero =>
      cases hat
      have hrest : (rest.mapIdx fun i => f (i + 1)).countP p = 0 :=
        List.countP_eq_zero.mpr fun b hb => by
          obtain ⟨i, _, rfl⟩ := List.mem_mapIdx.mp hb
          simp [hp]
      simp [hrest, hp]
    | succ index =>
      rw [ih hat fun i z => by simp [hp]]
      simp [hp]

/-- A flip starts each handler of its kind once, and no other. -/
theorem Handlers.countP_runs {handlers : Handlers} {flip : Flip} {index : Nat} {handler : Handler}
    (hat : (handlers.of flip)[index]? = some handler) (other : Flip) (data : Option String) :
    (handlers.runs other data).countP (·.isOf flip index handler) =
      if other = flip then 1 else 0 := by
  split
  · next heq =>
    subst heq
    exact countP_mapIdx hat fun i y => by simp [HandlerRun.isOf]
  · next hne =>
    refine List.countP_eq_zero.mpr fun run hrun => ?_
    obtain ⟨i, _, rfl⟩ := List.mem_mapIdx.mp hrun
    simp [HandlerRun.isOf, hne]

/-! ### Runs -/

/-- The lock of a key that has just been registered. -/
theorem Registry.lock_registerLocal {r r' : Registry} {key instanceName : String}
    {threshold : UInt64} {handlers : Handlers}
    (hregister : r.registerLocal key instanceName threshold handlers = .ok r') :
    0 < threshold ∧ r'.lock key = .ok ⟨.fresh handlers, instanceName, threshold, 0⟩ := by
  unfold registerLocal at hregister
  cases hcreate : UsageCounter.create instanceName threshold with
  | error e =>
    rw [hcreate] at hregister
    cases hregister
  | ok counter =>
    obtain ⟨rfl, hpos⟩ := UsageCounter.of_create hcreate
    rw [hcreate] at hregister
    simp only [Except.mapError, bind, Except.bind, register] at hregister
    split at hregister
    · cases hregister
    · next hnew =>
      cases hregister
      have hfind : r.names.lookup key = none := Option.not_isSome_iff_eq_none.mp hnew
      simp [lock, find, List.lookup_append, hfind, hpos, bind, Except.bind]

/-- A lock with what has been done to it. -/
structure LockLog where
  lock : LocalLock
  /-- The calls of its controller, latest first. -/
  usages : List Usage
  /-- The handler runs that have begun, latest first. -/
  begun : List HandlerRun

namespace LockLog

variable {threshold : UInt64} {handlers : Handlers} {l : LockLog} {u : Usage}

/-- A call of the controller. -/
def use (l : LockLog) (u : Usage) : LockLog :=
  { l with lock := l.lock.use u, usages := u :: l.usages }

/-- A handler run that has been started is carried out. -/
def begin (l : LockLog) (place : Nat) (run : HandlerRun) : LockLog :=
  let house := { l.lock.house with started := l.lock.house.started.eraseIdx place }
  { l with lock.house := (house.carryOut run).1, begun := run :: l.begun }

/-- The runs of a lock that a registry has made and of which only the controller drives the gate: no
handler that is carried out does. -/
inductive Run (threshold : UInt64) (handlers : Handlers) : LockLog → Prop
  | register {r r' : Registry} {key instanceName : String} {lock : LocalLock}
      (hregister : r.registerLocal key instanceName threshold handlers = .ok r')
      (hlock : r'.lock key = .ok lock) : Run threshold handlers ⟨lock, [], []⟩
  | use {l : LockLog} (h : Run threshold handlers l) (u : Usage) : Run threshold handlers (l.use u)
  | begin {l : LockLog} (h : Run threshold handlers l) (place : Nat) (run : HandlerRun)
      (hat : l.lock.house.started[place]? = some run) (hpassive : run.handler.isPassive = true) :
      Run threshold handlers (l.begin place run)

/-- The counter counts the calls, the gate is blocked exactly in a busy period and holds the data of
the call that has begun it, and each handler has been started once for each period. -/
structure Steady (threshold : UInt64) (handlers : Handlers) (l : LockLog) : Prop where
  threshold_eq : l.lock.counter.threshold = threshold
  pos : 0 < threshold.toNat
  handlers_eq : l.lock.house.handlers = handlers
  count : l.lock.counter.count.toNat = countAfter l.usages
  isBlocked : l.lock.house.gate.isBlocked = isBusy threshold.toNat l.usages
  lockData : l.lock.house.gate.isBlocked = true → ∃ earlier,
    (reaching threshold.toNat l.usages).getLast? =
      some (.increment l.lock.house.gate.lockData :: earlier)
  runs : ∀ {flip : Flip} {index : Nat} {handler : Handler},
    (handlers.of flip)[index]? = some handler →
      (l.begun ++ l.lock.house.started).countP (·.isOf flip index handler) =
        periods threshold.toNat flip l.usages

namespace Steady

/-- **What one call does.** It leaves the lock as busy as it was and its gatehouse alone, or it
begins or ends a period with a flip of the gate, and begins it with its own data. -/
theorem use_cases (h : Steady threshold handlers l)
    (hroom : countAfter (u :: l.usages) < UInt64.size) :
    ((l.lock.use u).house = l.lock.house ∧
      isBusy threshold.toNat (u :: l.usages) = isBusy threshold.toNat l.usages) ∨
    ∃ c : GateCall, l.lock.house.Flipped c (l.lock.use u).house ∧
      isBusy threshold.toNat (u :: l.usages) = c.blocks ∧
      (c.blocks = true → u = .increment c.data) := by
  rw [countAfter_cons, ← h.count] at hroom
  have hpos := h.pos
  rw [← h.threshold_eq] at hpos ⊢
  have hblocked := h.isBlocked
  rw [← h.threshold_eq] at hblocked
  rw [LocalLock.use_eq]
  cases hedge : (l.lock.counter.use u).2 with
  | none => exact .inl ⟨rfl, UsageCounter.isBusy_of_no_edge hpos h.count hroom hedge⟩
  | some edge =>
    obtain ⟨hbusy, hdata⟩ := UsageCounter.isBusy_of_edge hpos h.count hroom hedge
    cases hflip : (l.lock.house.call edge.call).2 with
    | true => exact .inr ⟨edge.call, Gatehouse.flipped_of_call hflip, hbusy, hdata⟩
    | false =>
      refine .inl ⟨Gatehouse.eq_self_of_call hflip, ?_⟩
      rw [hbusy, ← hblocked, Gatehouse.isBlocked_of_call hflip]

theorem use (h : Steady threshold handlers l)
    (hroom : countAfter (u :: l.usages) < UInt64.size) : Steady threshold handlers (l.use u) where
  threshold_eq := by
    rw [LockLog.use, LocalLock.use_eq, UsageCounter.threshold_use, h.threshold_eq]
  pos := h.pos
  handlers_eq := by
    rcases h.use_cases hroom with ⟨hsame, -⟩ | ⟨c, hflipped, -, -⟩
    · rw [LockLog.use, hsame, h.handlers_eq]
    · rw [LockLog.use, hflipped.handlers_eq, h.handlers_eq]
  count := by
    rw [countAfter_cons, ← h.count] at hroom
    rw [LockLog.use, LocalLock.use_eq, UsageCounter.toNat_count_use hroom, h.count]
    rfl
  isBlocked := by
    rcases h.use_cases hroom with ⟨hsame, hbusy⟩ | ⟨c, hflipped, hbusy, -⟩
    · rw [LockLog.use, hsame, hbusy, h.isBlocked]
    · rw [LockLog.use, hflipped.isBlocked, hbusy]
  lockData := by
    rcases h.use_cases hroom with ⟨hsame, hbusy⟩ | ⟨c, hflipped, hbusy, hdata⟩
    · rw [LockLog.use, hsame]
      intro hblocked
      have hwas := h.isBlocked.symm.trans hblocked
      rw [getLast?_reaching_of_busy hwas (hbusy.trans hwas)]
      exact h.lockData hblocked
    · rw [LockLog.use, hflipped.isBlocked, hflipped.lockData]
      intro hblocks
      have hwas : isBusy threshold.toNat l.usages = false := by
        rw [← h.isBlocked, hflipped.was, hblocks]
        rfl
      rw [getLast?_reaching_of_begun hwas (hbusy.trans hblocks), hdata hblocks]
      exact ⟨l.usages, rfl⟩
  runs {flip index handler} hat := by
    rw [LockLog.use, periods_cons, ← h.runs hat]
    rcases h.use_cases hroom with ⟨hsame, hbusy⟩ | ⟨c, hflipped, hbusy, -⟩
    · rw [hsame, turns_of_same hbusy]
      rfl
    · rw [hflipped.started, ← List.append_assoc, List.countP_append,
        h.handlers_eq, Handlers.countP_runs hat,
        turns_of_flip hbusy (h.isBlocked.symm.trans hflipped.was)]
      simp only [decide_eq_true_eq]

theorem begin (h : Steady threshold handlers l) {place : Nat} {run : HandlerRun}
    (hat : l.lock.house.started[place]? = some run) (hpassive : run.handler.isPassive = true) :
    Steady threshold handlers (l.begin place run) := by
  rw [LockLog.begin, Gatehouse.carryOut_of_isPassive _ hpassive]
  refine ⟨h.threshold_eq, h.pos, h.handlers_eq, h.count, h.isBlocked, h.lockData,
    fun {flip index handler} hhandler => ?_⟩
  rw [← h.runs hhandler]
  exact (perm_eraseIdx_of_getElem? hat).countP_eq _

end Steady

theorem Run.steady (h : Run threshold handlers l)
    (hfew : l.usages.countP (·.isIncrement) < UInt64.size) : Steady threshold handlers l := by
  induction h with
  | register hregister hlock =>
    obtain ⟨hpos, hnew⟩ := Registry.lock_registerLocal hregister
    rw [hnew] at hlock
    cases hlock
    exact ⟨rfl, UInt64.lt_iff_toNat_lt.mp hpos, rfl, rfl, rfl, nofun, fun _ => periods_nil.symm⟩
  | @use l _ u ih =>
    have hearlier : l.usages.countP (·.isIncrement) ≤ (u :: l.usages).countP (·.isIncrement) :=
      (List.sublist_cons_self u l.usages).countP_le
    exact (ih (Nat.lt_of_le_of_lt hearlier hfew)).use (Nat.lt_of_le_of_lt (countAfter_le _) hfew)
  | begin _ place run hat hpassive ih => exact (ih hfew).begin hat hpassive

/-- **After any calls of the controller of a local lock, with fewer increments than the count has
room for: the count is what the calls have made of it, one after the other; the gate is blocked
exactly if the count has reached the threshold since it was last zero; while it is blocked it holds
the data of the increment that was the first to reach it; and every handler has been started once
for each busy period that has begun, or that has ended.** -/
theorem hysteresis (h : Run threshold handlers l)
    (hfew : l.usages.countP (·.isIncrement) < UInt64.size) :
    l.lock.counter.count.toNat = countAfter l.usages ∧
    l.lock.house.gate.isBlocked = isBusy threshold.toNat l.usages ∧
    (l.lock.house.gate.isBlocked = true → ∃ earlier,
      (reaching threshold.toNat l.usages).getLast? =
        some (.increment l.lock.house.gate.lockData :: earlier)) ∧
    ∀ (flip : Flip) (index : Nat) (handler : Handler),
      (handlers.of flip)[index]? = some handler →
        (l.begun ++ l.lock.house.started).countP (·.isOf flip index handler) =
          periods threshold.toNat flip l.usages :=
  have hsteady := h.steady hfew
  ⟨hsteady.count, hsteady.isBlocked, hsteady.lockData, fun _ _ _ => hsteady.runs⟩

/-- Handlers that leave the gate alone. -/
def noteHandlers : Handlers := ⟨[.record], [.record, .panic]⟩

/-- A lock with threshold 2 that has been counted to the threshold, one down, and to the threshold
again. -/
def recrossedLog : LockLog :=
  let l : LockLog := ⟨⟨.fresh noteHandlers, "a", 2, 0⟩, [], []⟩
  let l := (l.use (.increment (some "first"))).use (.increment (some "second"))
  let l := l.begin 0 ⟨.locked, 0, .record, some "second"⟩
  (l.use (.decrement 1)).use (.increment (some "third"))

theorem run_recrossedLog : Run 2 noteHandlers recrossedLog := by
  have hregistered : Run 2 noteHandlers _ := @Run.register _ _ .empty _ "k" "a" _ rfl rfl
  have hblocked := (hregistered.use (.increment (some "first"))).use (.increment (some "second"))
  have hbegun := hblocked.begin 0 ⟨.locked, 0, .record, some "second"⟩ (by decide) rfl
  exact (hbegun.use (.decrement 1)).use (.increment (some "third"))

/-- The second crossing is within the first period, which keeps its data. -/
theorem hysteresis_of_recrossed :
    recrossedLog.usages.countP (·.isIncrement) < UInt64.size ∧
    recrossedLog.lock.house.gate.isBlocked = isBusy 2 recrossedLog.usages ∧
    recrossedLog.lock.house.gate.lockData = some "second" ∧
    (recrossedLog.begun ++ recrossedLog.lock.house.started).countP (·.isOf .locked 0 .record) =
      periods 2 .locked recrossedLog.usages ∧
    periods 2 .locked recrossedLog.usages = 1 := by
  have hfew : recrossedLog.usages.countP (·.isIncrement) < UInt64.size := by decide
  obtain ⟨-, hblocked, -, hruns⟩ := hysteresis run_recrossedLog hfew
  exact ⟨hfew, hblocked, by decide, hruns .locked 0 .record rfl, by decide⟩

end LockLog

end Floodgate
