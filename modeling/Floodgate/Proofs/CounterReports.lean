import Floodgate.Proofs.LocalLock
import Floodgate.Simulation.CounterScene
import Mathlib.Data.List.TakeWhile
/-!
# Floodgate.Proofs.CounterReports

**A counter over a store that may refuse reports.** A counter counts before it reports, and keeps
the count when the store refuses the report: the call answers with the error, and nobody reports
again until the next edge. So after a refused report the store and the count may disagree, and calls
that are no edges answer that all is well (`disagrees_when_refused`).

Main statement: `agrees_unless_refused`, which says exactly when they disagree. While the count is
at the threshold or above it, the store holds the instance busy unless it has refused every report
since the count was last zero, one at least, and did not hold the instance busy before. While the
count is zero, the store does not hold the instance busy unless it did before the call that brought
the count to zero, and has not accepted a report of that call. That call is either one whose report
was refused, or an increment for which the count had no room and which reports nothing.

Calls are kept latest first, and a store may be any function of what it has been told.
-/

namespace Floodgate

variable {σ : Type} {store : StatusStore σ} {name : String} {threshold : UInt64}

/-- A call of a counter as it went. -/
structure CounterCall where
  usage : Usage
  /-- The edge that it reported. -/
  report : Option StatusEdge
  answer : Except StoreError Unit
  /-- The count that it left. -/
  count : UInt64

namespace CounterCall

/-- What the store accepted of the call. -/
def accepted? (c : CounterCall) : Option StatusEdge := if c.answer.isOk then c.report else none

/-- Whether the store refused what the call reported, which then answered with the error. -/
def isRefused (c : CounterCall) : Bool := c.report.isSome && !c.answer.isOk

theorem accepted?_eq_none_iff {c : CounterCall} :
    c.accepted? = none ↔ c.report.isSome = true → c.isRefused = true := by
  obtain ⟨_, report, answer, _⟩ := c
  cases report <;> cases answer <;> simp [accepted?, isRefused, Except.isOk, Except.toBool]

end CounterCall

/-- A counter that reports to a store, with the calls that have been made of it. -/
structure CounterLog (σ : Type) where
  counter : UsageCounter
  /-- What the store holds. -/
  held : σ
  /-- The calls so far, latest first. -/
  calls : List CounterCall

/-- Makes a call of a counter. -/
def UsageCounter.call (store : StatusStore σ) (c : UsageCounter) (held : σ) :
    Usage → Except StoreError Unit × UsageCounter × σ
  | .increment data => c.increment store held data
  | .decrement amount => c.decrement store held amount

namespace CounterLog

open CounterCall

variable {l : CounterLog σ} {calls earlier : List CounterCall} {c : CounterCall}

/-- Makes a call. -/
def call (store : StatusStore σ) (l : CounterLog σ) (u : Usage) : CounterLog σ :=
  let (answer, counter, held) := l.counter.call store l.held u
  ⟨counter, held, ⟨u, (l.counter.use u).2, answer, counter.count⟩ :: l.calls⟩

/-- The runs of a counter whose calls are made one after the other. -/
inductive Run (store : StatusStore σ) (name : String) (threshold : UInt64) : CounterLog σ → Prop
  | create {counter : UsageCounter} (hcreate : UsageCounter.create name threshold = .ok counter)
      (held : σ) : Run store name threshold ⟨counter, held, []⟩
  | call {l : CounterLog σ} (h : Run store name threshold l) (u : Usage) :
      Run store name threshold (l.call store u)

/-! ### What the store has accepted -/

/-- The status that the store accepted last. -/
def lastAccepted? (calls : List CounterCall) : Option StatusEdge := calls.findSome? accepted?

/-- Whether the status that the store accepted last is busy. -/
def holdsBusy (calls : List CounterCall) : Bool := (lastAccepted? calls).any (·.isBusy)

/-- The count after some calls. -/
def countOf (calls : List CounterCall) : UInt64 := (calls.head?.map (·.count)).getD 0

/-- The calls since the count was last zero. -/
def sinceZero (calls : List CounterCall) : List CounterCall := calls.takeWhile (·.count ≠ 0)

/-- The calls until the count was last zero. -/
def untilZero (calls : List CounterCall) : List CounterCall := calls.dropWhile (·.count ≠ 0)

theorem holdsBusy_cons (c : CounterCall) (earlier : List CounterCall) :
    holdsBusy (c :: earlier) =
      match c.accepted? with
      | some edge => edge.isBusy
      | none => holdsBusy earlier := by
  rw [holdsBusy, lastAccepted?, List.findSome?_cons]
  cases c.accepted? <;> rfl

theorem sinceZero_cons (h : c.count ≠ 0) : sinceZero (c :: earlier) = c :: sinceZero earlier :=
  List.takeWhile_cons_of_pos (decide_eq_true h)

/-- If all the reports of some calls are busy, then what the store holds after them is busy unless
it has accepted none of them and held nothing busy before. -/
theorem holdsBusy_append_eq_false_iff {later : List CounterCall}
    (hbusy : ∀ x ∈ later, ∀ edge ∈ x.report, edge.isBusy = true) :
    holdsBusy (later ++ earlier) = false ↔
      (∀ x ∈ later, x.accepted? = none) ∧ holdsBusy earlier = false := by
  induction later with
  | nil => simp
  | cons x rest ih =>
    have hrest := ih fun y hy => hbusy y (List.mem_cons_of_mem x hy)
    rw [List.cons_append, holdsBusy_cons]
    cases haccepted : x.accepted? with
    | none => simp [hrest, haccepted]
    | some edge =>
      have hreport : x.report = some edge := by
        rw [accepted?] at haccepted
        split at haccepted
        · exact haccepted
        · cases haccepted
      simp [haccepted, hbusy x List.mem_cons_self edge hreport]

/-! ### How the count came to be -/

/-- The call that brought the count to zero, with the calls before it, for a count that is zero and
was not always. -/
def zeroedBy? : List CounterCall → Option (CounterCall × List CounterCall)
  | [] => none
  | c :: earlier => if countOf earlier = 0 then zeroedBy? earlier else some (c, earlier)

/-- The counter's calls: what they count, which of them report, and how the count came to be. -/
structure Sound (threshold : UInt64) (l : CounterLog σ) : Prop where
  threshold_eq : l.counter.threshold = threshold
  pos : 0 < threshold
  count_eq : countOf l.calls = l.counter.count
  /-- A call that leaves some count reports nothing but that the instance is busy. -/
  busy : ∀ x ∈ l.calls, x.count ≠ 0 → ∀ edge ∈ x.report, edge.isBusy = true
  /-- A count at the threshold or above has been reported since it was zero. -/
  reported : threshold ≤ l.counter.count → ∃ x ∈ sinceZero l.calls, x.report.isSome = true
  /-- At zero the store holds the instance busy only if it did before the count came to zero. -/
  atZero : l.counter.count = 0 → (holdsBusy l.calls = true ↔
    ∃ c before, zeroedBy? l.calls = some (c, before) ∧
      (c.isRefused = true ∨ c.usage.isIncrement = true) ∧ holdsBusy before = true)

theorem Sound.create {counter : UsageCounter}
    (hcreate : UsageCounter.create name threshold = .ok counter) (held : σ) :
    Sound threshold ⟨counter, held, []⟩ := by
  obtain ⟨rfl, hpos⟩ := UsageCounter.of_create hcreate
  refine ⟨rfl, hpos, rfl, by simp, fun hle => ?_, fun _ => ⟨nofun, ?_⟩⟩
  · exact absurd (UInt64.lt_of_lt_of_le hpos hle) (UInt64.lt_irrefl _)
  · rintro ⟨_, _, hzeroed, -⟩
    cases hzeroed

/-- The call that has just been made. -/
def latest (store : StatusStore σ) (l : CounterLog σ) (u : Usage) : CounterCall :=
  ⟨u, (l.counter.use u).2,
    (UsageCounter.report store l.counter.instanceName l.held (l.counter.use u).2).1,
    (l.counter.use u).1.count⟩

theorem calls_call (l : CounterLog σ) (u : Usage) :
    (l.call store u).calls = l.latest store u :: l.calls := by
  cases u <;> rfl

theorem counter_call (l : CounterLog σ) (u : Usage) :
    (l.call store u).counter = (l.counter.use u).1 := by
  cases u <;> rfl

/-- A call that reports nothing answers that all is well. -/
theorem accepted?_latest_of_no_edge {u : Usage} (h : (l.counter.use u).2 = none) :
    (l.latest store u).accepted? = none ∧ (l.latest store u).isRefused = false := by
  simp [latest, accepted?, isRefused, h]

theorem busy_of_count_ne_zero {u : Usage}
    (hcount : (l.counter.use u).1.count ≠ 0) :
    ∀ edge ∈ (l.counter.use u).2, edge.isBusy = true := by
  intro edge hedge
  cases u with
  | increment data =>
    simp only [UsageCounter.use, UsageCounter.raise, Option.mem_def, Option.ite_none_right_eq_some,
      Option.some.injEq] at hedge
    rw [← hedge.2]
    rfl
  | decrement amount =>
    simp only [UsageCounter.use, UsageCounter.lower, Option.mem_def, Option.ite_none_right_eq_some,
      Option.some.injEq] at hcount hedge
    exact absurd hedge.1.2 hcount

/-- The count cannot get past the threshold without a call that reports it. -/
theorem Sound.reported_or (h : Sound threshold l) {u : Usage}
    (hle : threshold ≤ (l.counter.use u).1.count) :
    (l.counter.use u).2.isSome = true ∨ threshold ≤ l.counter.count := by
  cases u with
  | increment data =>
    simp only [UsageCounter.use, UsageCounter.raise, h.threshold_eq] at hle ⊢
    by_cases hat : l.counter.count + 1 = threshold
    · simp [hat]
    · have hroom : l.counter.count + 1 ≠ 0 := by
        intro hwrapped
        rw [hwrapped] at hle
        exact absurd (UInt64.lt_of_lt_of_le h.pos hle) (UInt64.lt_irrefl _)
      right
      rw [← UInt64.toNat_inj, Producers.toNat_add_one hroom] at hat
      rw [UInt64.le_iff_toNat_le, Producers.toNat_add_one hroom] at hle
      rw [UInt64.le_iff_toNat_le]
      omega
  | decrement amount => exact .inr (UInt64.le_trans hle (Producers.count_lower_le _ amount))

/-- A call leaves the count at zero if it was zero already, if it is an increment for which there is
no room, or if it reports that the instance is idle. -/
theorem edge_of_zero {counter : UsageCounter} (hpos : 0 < counter.threshold) {u : Usage}
    (hzero : (counter.use u).1.count = 0) :
    (counter.count = 0 ∧ (counter.use u).2 = none) ∨
      counter.count ≠ 0 ∧ ((u.isIncrement = true ∧ (counter.use u).2 = none) ∨
        u.isIncrement = false ∧ (counter.use u).2 = some .idle) := by
  cases u with
  | increment data =>
    simp only [UsageCounter.use, UsageCounter.raise] at hzero ⊢
    have hne : (0 : UInt64) ≠ counter.threshold := by
      intro hthreshold
      exact absurd (hthreshold ▸ hpos) (UInt64.lt_irrefl _)
    rw [hzero, if_neg hne]
    refine .inr ⟨?_, .inl ⟨rfl, rfl⟩⟩
    intro hcount
    rw [hcount] at hzero
    exact absurd hzero (by decide)
  | decrement amount =>
    simp only [UsageCounter.use, UsageCounter.lower] at hzero ⊢
    rw [hzero]
    by_cases hcount : counter.count = 0
    · exact .inl ⟨hcount, by simp [hcount]⟩
    · have hlt : 0 < counter.count := by
        rw [UInt64.lt_iff_toNat_lt]
        exact Nat.pos_of_ne_zero fun h => hcount (UInt64.toNat_inj.mp h)
      exact .inr ⟨hcount, .inr ⟨rfl, by simp [hlt]⟩⟩

theorem Sound.call (h : Sound threshold l) (u : Usage) : Sound threshold (l.call store u) where
  threshold_eq := by rw [counter_call, UsageCounter.threshold_use, h.threshold_eq]
  pos := h.pos
  count_eq := by
    rw [calls_call, counter_call]
    rfl
  busy := by
    rw [calls_call, List.forall_mem_cons]
    exact ⟨busy_of_count_ne_zero, h.busy⟩
  reported := by
    rw [calls_call, counter_call]
    intro hle
    have hne : (l.latest store u).count ≠ 0 := by
      intro hzero
      rw [← show (l.latest store u).count = (l.counter.use u).1.count from rfl, hzero] at hle
      exact absurd (UInt64.lt_of_lt_of_le h.pos hle) (UInt64.lt_irrefl _)
    rw [sinceZero_cons hne]
    rcases h.reported_or hle with hedge | hwas
    · exact ⟨_, List.mem_cons_self, hedge⟩
    · obtain ⟨x, hx, hreport⟩ := h.reported hwas
      exact ⟨x, List.mem_cons_of_mem _ hx, hreport⟩
  atZero := by
    rw [calls_call, counter_call]
    intro hzero
    have hpos : 0 < l.counter.threshold := h.threshold_eq.symm ▸ h.pos
    rw [holdsBusy_cons, zeroedBy?, h.count_eq]
    rcases edge_of_zero hpos hzero with ⟨hcount, hnone⟩ | ⟨hcount, hcall⟩
    · -- Nothing has changed: it was an earlier call that brought the count to zero.
      rw [(accepted?_latest_of_no_edge hnone).1, if_pos hcount]
      exact h.atZero hcount
    · -- It is this call that has brought the count to zero.
      simp only [if_neg hcount, Option.some.injEq, Prod.mk.injEq, exists_and_left, and_assoc,
        exists_eq_left', latest]
      rcases hcall with ⟨hincrement, hnone⟩ | ⟨hdecrement, hidle⟩
      · simp [accepted?, hnone, hincrement]
      · simp only [hidle, hdecrement, accepted?, isRefused]
        cases (UsageCounter.report store l.counter.instanceName l.held (some .idle)).1 <;>
          simp [Except.isOk, Except.toBool, StatusEdge.isBusy]

theorem Run.sound (h : Run store name threshold l) : Sound threshold l := by
  induction h with
  | create hcreate held => exact .create hcreate held
  | call _ u ih => exact ih.call u

/-! ### Whether the store and the count agree -/

/-- **After any calls of a counter, whatever the store refuses:**

* **While the count is at the threshold or above it, the status that the store accepted last is busy
  unless it has refused every report since the count was last zero, one at least, and was not busy
  before them.**
* **While the count is zero, the store has accepted nothing or that the instance is idle, unless the
  call that brought the count to zero reported that and was refused, or was an increment for which
  the count had no room, and the status that the store had accepted before that call was busy.** -/
theorem agrees_unless_refused (h : Run store name threshold l) :
    (threshold ≤ l.counter.count → (holdsBusy l.calls = false ↔
      (∃ c ∈ sinceZero l.calls, c.isRefused = true) ∧
      (∀ c ∈ sinceZero l.calls, c.report.isSome = true → c.isRefused = true) ∧
      holdsBusy (untilZero l.calls) = false)) ∧
    (l.counter.count = 0 → (holdsBusy l.calls = true ↔
      ∃ c before, zeroedBy? l.calls = some (c, before) ∧
        (c.isRefused = true ∨ c.usage.isIncrement = true) ∧ holdsBusy before = true)) := by
  have hsound := h.sound
  refine ⟨fun hle => ?_, hsound.atZero⟩
  have hbusy : ∀ c ∈ sinceZero l.calls, ∀ edge ∈ c.report, edge.isBusy = true := fun c hc =>
    hsound.busy c ((List.takeWhile_sublist _).mem hc) (by simpa using List.mem_takeWhile_imp hc)
  have hsplit : holdsBusy l.calls = holdsBusy (sinceZero l.calls ++ untilZero l.calls) := by
    rw [sinceZero, untilZero, List.takeWhile_append_dropWhile]
  rw [hsplit, holdsBusy_append_eq_false_iff hbusy]
  simp only [accepted?_eq_none_iff]
  constructor
  · rintro ⟨hrefused, hbefore⟩
    obtain ⟨c, hc, hreport⟩ := hsound.reported hle
    exact ⟨⟨c, hc, hrefused c hc hreport⟩, hrefused, hbefore⟩
  · rintro ⟨-, hrefused, hbefore⟩
    exact ⟨hrefused, hbefore⟩

/-! ### Stores that refuse a report, and a counter that overflows -/

/-- A counter with threshold 1 over a store with a gate that refuses what it is told to. -/
def faultyLog (faults : List (Option StoreError)) (usages : List Usage) : CounterLog FaultyStore :=
  usages.foldl (call FaultyStore.store) ⟨⟨"a", 1, 0⟩, ⟨faults, some (.fresh {}), []⟩, []⟩

theorem run_faultyLog (faults : List (Option StoreError)) (usages : List Usage) :
    Run FaultyStore.store "a" 1 (faultyLog faults usages) := by
  have hcall (usages : List Usage) (l : CounterLog FaultyStore)
      (h : Run FaultyStore.store "a" 1 l) :
      Run FaultyStore.store "a" 1 (usages.foldl (call FaultyStore.store) l) := by
    induction usages generalizing l with
    | nil => exact h
    | cons u rest ih => exact ih _ (h.call u)
  exact hcall usages _ (.create rfl _)

/-- The busy report of the first increment is refused. -/
def refusedBusy : CounterLog FaultyStore :=
  faultyLog [some .shutDown] [.increment (some "job"), .increment none]

/-- The idle report of the first decrement is refused. -/
def refusedIdle : CounterLog FaultyStore :=
  faultyLog [none, some .shutDown] [.increment (some "job"), .decrement 1, .decrement 1]

/-- At `refusedBusy` the refused report is the only one since the count was zero, and at
`refusedIdle` it is that of the call that brought the count to zero. -/
theorem agrees_unless_refused_of_refused :
    (Run FaultyStore.store "a" 1 refusedBusy ∧ 1 ≤ refusedBusy.counter.count ∧
      holdsBusy refusedBusy.calls = false) ∧
    (Run FaultyStore.store "a" 1 refusedIdle ∧ refusedIdle.counter.count = 0 ∧
      holdsBusy refusedIdle.calls = true) := by
  have hbusy := run_faultyLog [some .shutDown] [.increment (some "job"), .increment none]
  have hidle :=
    run_faultyLog [none, some .shutDown] [.increment (some "job"), .decrement 1, .decrement 1]
  obtain ⟨hreached, -⟩ := agrees_unless_refused hbusy
  obtain ⟨-, hzero⟩ := agrees_unless_refused hidle
  refine ⟨⟨hbusy, by decide, (hreached (by decide)).mpr ?_⟩, hidle, rfl, (hzero rfl).mpr ?_⟩
  · decide
  · exact ⟨_, _, rfl, .inl rfl, rfl⟩

/-- As long as the count has room it is the number of the increments, and with threshold 1 the gate
of a store within the process stays blocked. -/
theorem exists_run_incremented (n : Nat) : ∃ l, Run localStore "a" 1 l ∧
    l.counter = ⟨"a", 1, UInt64.ofNat n⟩ ∧ (0 < n → holdsBusy l.calls = true) := by
  induction n with
  | zero => exact ⟨_, .create rfl (.fresh {}), rfl, nofun⟩
  | succ n ih =>
    obtain ⟨l, hrun, hcounter, hheld⟩ := ih
    refine ⟨_, hrun.call (.increment none), ?_, fun _ => ?_⟩
    · rw [counter_call, hcounter]
      simp [UsageCounter.use, UsageCounter.raise]
    · have haccepted : (l.latest localStore (.increment none)).accepted? =
          (l.counter.raise none).2 := by
        rw [latest, UsageCounter.use]
        cases (l.counter.raise none).2 with
        | none => rfl
        | some edge => cases edge <;> rfl
      rw [calls_call, holdsBusy_cons, haccepted, hcounter]
      cases n with
      | zero => rfl
      | succ n =>
        simp only [UsageCounter.raise]
        split
        · next hedge =>
          rw [Option.ite_none_right_eq_some, Option.some.injEq] at hedge
          rw [← hedge.2]
          rfl
        · exact hheld (Nat.succ_pos n)

/-- **A call that answers that all is well can leave the store and the count in disagreement:** an
increment at the threshold or above it while the store has accepted nothing, and a decrement at zero
while the store holds the instance busy, after a report that was refused and, with a store that
refuses nothing, after an increment for which the count had no room. -/
theorem disagrees_when_refused :
    (Run FaultyStore.store "a" 1 refusedBusy ∧
      (∃ c earlier, refusedBusy.calls = c :: earlier ∧ c.usage = .increment none ∧
        c.answer = .ok ()) ∧
      1 ≤ refusedBusy.counter.count ∧ lastAccepted? refusedBusy.calls = none) ∧
    (Run FaultyStore.store "a" 1 refusedIdle ∧
      (∃ c earlier, refusedIdle.calls = c :: earlier ∧ c.usage = .decrement 1 ∧
        c.answer = .ok ()) ∧
      refusedIdle.counter.count = 0 ∧
        lastAccepted? refusedIdle.calls = some (.busy (some "job"))) ∧
    ∃ l, Run localStore "a" 1 l ∧
      (∃ c earlier, l.calls = c :: earlier ∧ c.usage = .decrement 1 ∧ c.answer = .ok ()) ∧
      l.counter.count = 0 ∧ holdsBusy l.calls = true := by
  refine ⟨⟨run_faultyLog _ _, ⟨_, _, rfl, rfl, rfl⟩, by decide, rfl⟩,
    ⟨run_faultyLog _ _, ⟨_, _, rfl, rfl, rfl⟩, rfl, rfl⟩, ?_⟩
  obtain ⟨l, hrun, hcounter, hheld⟩ := exists_run_incremented (2 ^ 64)
  have hwrapped : UInt64.ofNat (2 ^ 64) = 0 := by decide
  rw [hwrapped] at hcounter
  have huse : l.counter.use (.decrement 1) = (⟨"a", 1, 0⟩, none) := by
    rw [hcounter]
    decide
  refine ⟨_, hrun.call (.decrement 1), ⟨_, _, calls_call l _, rfl, ?_⟩, ?_, ?_⟩
  · rw [latest, huse]
    rfl
  · rw [counter_call, huse]
  · rw [calls_call, holdsBusy_cons, (accepted?_latest_of_no_edge (by rw [huse])).1]
    exact hheld (by decide)

end CounterLog

end Floodgate
