import Mathlib.Data.List.Nodup
import Floodgate.Proofs.Replication.Change
/-!
# Floodgate.Proofs.Replication.Run

**Runs and what they remember.** A run starts a replicator and carries out sections in any order, at
any instants. Its history is a list of moments, the newest first, so that the history before a
moment is the rest of the list. From a history one reads off what has been asked for: the latest
write of a key (`lastWrite?`), all the writes registered for it (`writes`), what has happened since
the last of them (`sinceWrite`), and how the calls of a caller ended (`outcomes`).

The latest write of the history is what the entry of the key holds (`Run.current`), in every run.

Design points:

* **Instants are arbitrary.** A run does not ask that time goes on, so what is proved of runs does
  not rest on clocks.
* **A history can be replayed.** `replay` computes the moments of a list of events, which turns a
  concrete run into something that can be evaluated.
-/

namespace Floodgate.Replicator

variable {α : Type}

/-! ### Runs -/

/-- One section as it was carried out. -/
structure Moment (α : Type) where
  /-- The replicator before it. -/
  before : Replicator α
  /-- When it was carried out. -/
  now : Int
  /-- What happened. -/
  event : Event α
  /-- The replicator after it. -/
  after : Replicator α
  /-- The calls that it started. -/
  calls : List (Call α)

/-- The histories of a replicator, with what has become of it. -/
inductive Run (plan : ReplicationPlan) (since : Int) : List (Moment α) → Replicator α → Prop where
  /-- It starts. -/
  | start : Run plan since [] (.start plan since)
  /-- It carries out a section. -/
  | next {past : List (Moment α)} {r r' : Replicator α} {now : Int} {event : Event α}
      {calls : List (Call α)} (hpast : Run plan since past r)
      (hstep : r.step now event = some (r', calls)) :
      Run plan since (⟨r, now, event, r', calls⟩ :: past) r'

variable {plan : ReplicationPlan} {since : Int} {history : List (Moment α)} {r : Replicator α}

theorem Run.sound (h : Run plan since history r) : Sound r := by
  induction h with
  | start => exact .start plan since
  | next _ hstep ih => exact ih.step hstep

theorem Run.plan_eq (h : Run plan since history r) : r.plan = plan := by
  induction h with
  | start => rfl
  | next _ hstep ih => exact (frame_of_section (section_of_step hstep)).1.trans ih

/-- A history tells what it has led to. -/
theorem Run.unique {r₁ : Replicator α} (h : Run plan since history r)
    (h₁ : Run plan since history r₁) : r = r₁ := by
  cases h with
  | start => cases h₁; rfl
  | next _ _ => cases h₁; rfl

/-- Where the calendar reaches every lease, no task has died. -/
theorem Run.dead_eq_nil (h : Run plan since history r)
    (hlease : ∀ m ∈ history, plan.leaseDeadline m.now ≠ none) : r.dead = [] := by
  induction h with
  | start => rfl
  | @next past r r' now event calls hpast hstep ih =>
    obtain ⟨more, hdead, hnone⟩ := dead_of_section (section_of_step hstep)
    cases more with
    | nil => rw [hdead, ih fun m hm => hlease m (List.mem_cons_of_mem _ hm), List.append_nil]
    | cons g rest =>
      have hnow := hnone (List.cons_ne_nil g rest)
      rw [leaseDeadline, hpast.plan_eq] at hnow
      exact absurd hnow (hlease _ List.mem_cons_self)

/-- Every moment of a run ends a run and carries out one section. -/
theorem Run.split {later earlier : List (Moment α)} {m : Moment α}
    (h : Run plan since (later ++ m :: earlier) r) :
    Run plan since earlier m.before ∧ Run plan since (m :: earlier) m.after ∧
      Section m.before m.now m.event m.after m.calls := by
  induction later generalizing r with
  | nil =>
    cases h with
    | next hpast hstep => exact ⟨hpast, .next hpast hstep, section_of_step hstep⟩
  | cons _ _ ih =>
    cases h with
    | next hpast _ => exact ih hpast

/-! ### Replaying -/

/-- Carries out events in turn, each at its instant, and notes the moments after those of a
history. -/
def replay (r : Replicator α) (history : List (Moment α)) :
    List (Int × Event α) → Option (Replicator α × List (Moment α))
  | [] => some (r, history)
  | (now, event) :: rest =>
    match r.step now event with
    | some (r', calls) => r'.replay (⟨r, now, event, r', calls⟩ :: history) rest
    | none => none

/-- What can be replayed is a run. -/
theorem Run.replay {events : List (Int × Event α)} {r' : Replicator α}
    {history' : List (Moment α)} (h : Run plan since history r)
    (hreplay : r.replay history events = some (r', history')) : Run plan since history' r' := by
  induction events generalizing r history with
  | nil =>
    cases hreplay
    exact h
  | cons first rest ih =>
    obtain ⟨now, event⟩ := first
    simp only [Replicator.replay] at hreplay
    split at hreplay
    · rename_i hstep
      exact ih (.next h hstep) hreplay
    · cases hreplay

/-- A property of a replay that can be evaluated holds of a run. -/
theorem exists_run_of_replay (plan : ReplicationPlan) (since : Int)
    (events : List (Int × Event α)) (p : List (Moment α) → Replicator α → Bool)
    (h : ((start plan since).replay [] events).any (fun x => p x.2 x.1) = true) :
    ∃ history r, Run plan since history r ∧ p history r = true := by
  cases hreplay : (start plan since).replay ([] : List (Moment α)) events with
  | none => rw [hreplay] at h; cases h
  | some x =>
    rw [hreplay] at h
    exact ⟨x.2, x.1, Run.start.replay hreplay, h⟩

/-- A plan whose loops stay out of the way for an hour and that gives up at once. -/
def quietPlan : ReplicationPlan where
  renewal := .ofSecs 3600
  expiration := .ofSecs 7200
  recovery := .ofSecs 3600
  retry := .never
  renewal_pos := by decide
  recovery_pos := by decide
  renewal_lt := by decide
  expiration_le := by decide

/-- A plan that tries again ten milliseconds after a failure. -/
def briskPlan : ReplicationPlan where
  renewal := .ofMillis 3600000
  expiration := .ofMillis 7200000
  recovery := .ofMillis 10800000
  retry := .table [.ofMillis 10]
  renewal_pos := by decide
  recovery_pos := by decide
  renewal_lt := by decide
  expiration_le := by decide

/-- A plan whose leases the calendar reaches up to 50 milliseconds after the instant
1700000000000. -/
def nearPlan : ReplicationPlan where
  renewal := .ofMillis 3600000
  expiration := .ofMillis 8208566876799949
  recovery := .ofMillis 3600000
  retry := .table [.ofMillis 10]
  renewal_pos := by decide
  recovery_pos := by decide
  renewal_lt := by decide
  expiration_le := by decide

/-! ### What has been asked for -/

/-- The latest write registered for a key, unless the key has been forgotten since. -/
def lastWrite? (key : String) (history : List (Moment α)) : Option α :=
  history.foldr (fun m => m.event.latest key) none

/-- The write that an event registers for a key. -/
def Event.written? (key : String) : Event α → Option α
  | .register k action => if k = key then some action else none
  | _ => none

/-- All the writes registered for a key, the oldest first. -/
def writes (key : String) (history : List (Moment α)) : List α :=
  history.reverse.filterMap (·.event.written? key)

/-- What has happened since the last write of a key was registered. -/
def sinceWrite (key : String) (history : List (Moment α)) : List (Moment α) :=
  history.takeWhile fun m => (m.event.written? key).isNone

/-- How an event ended the call of a caller, if it did. -/
def Event.outcome? (caller : Caller) : Event α → Option Bool
  | .callEnded c ok => if c = caller then some ok else none
  | _ => none

/-- How the calls of a caller ended, the last one first. -/
def outcomes (caller : Caller) (history : List (Moment α)) : List Bool :=
  history.filterMap (·.event.outcome? caller)

/-- The entry of a key holds the latest write registered for it. -/
theorem Run.current (h : Run plan since history r) (key : String) :
    (r.entryFor? key).map (·.current) = lastWrite? key history := by
  induction h with
  | start => rfl
  | next _ hstep ih =>
    refine (current_of_section (section_of_step hstep) key).trans ?_
    rw [ih]
    rfl

theorem writes_append (key : String) (later earlier : List (Moment α)) :
    writes key (later ++ earlier) = writes key earlier ++ writes key later := by
  simp only [writes, List.reverse_append, List.filterMap_append]

/-- The latest write of a key that is never forgotten is the last one registered. -/
theorem lastWrite?_eq_getLast? {key : String} (hkept : ∀ m ∈ history, m.event ≠ .forget key) :
    lastWrite? key history = (writes key history).getLast? := by
  induction history with
  | nil => rfl
  | cons m past ih =>
    have hpast := ih fun m' hm' => hkept m' (List.mem_cons_of_mem _ hm')
    have hm := hkept m List.mem_cons_self
    have hfold : lastWrite? key (m :: past) = m.event.latest key (lastWrite? key past) := rfl
    have hwrites : writes key (m :: past) =
        writes key past ++ (m.event.written? key).toList := by
      rw [show m :: past = [m] ++ past from rfl, writes_append]
      cases hw : m.event.written? key <;> simp [writes, hw]
    rw [hfold, hwrites, hpast, List.getLast?_append]
    cases hevent : m.event with
    | register k action =>
      by_cases hk : k = key
      · simp [Event.latest, Event.written?, hk]
      · simp [Event.latest, Event.written?, hk]
    | forget k =>
      have hk : k ≠ key := by rintro rfl; exact hm hevent
      simp [Event.latest, Event.written?, hk]
    | _ => simp [Event.latest, Event.written?]

/-! ### Calls in progress -/

/-- Who is calling a write of a key. -/
def callersOf (r : Replicator α) (key : String) : List Caller :=
  (r.deliveries.filter fun d => d.key = key && d.stage = .calling).map
      (fun d => .delivery d.generation) ++
    (r.renewals.filter fun n => n.key = key && n.calling).map fun n => .renewal n.number

theorem mem_callersOf {key : String} {c : Caller} : c ∈ r.callersOf key ↔
    (∃ d ∈ r.deliveries, d.key = key ∧ d.stage = .calling ∧ c = .delivery d.generation) ∨
      ∃ n ∈ r.renewals, n.key = key ∧ n.calling = true ∧ c = .renewal n.number := by
  simp only [callersOf, List.mem_append, List.mem_map, List.mem_filter, Bool.and_eq_true,
    decide_eq_true_eq, and_assoc, eq_comm (a := c)]

/-- Nobody is counted twice. -/
theorem Sound.nodup_callersOf (h : Sound r) (key : String) : (r.callersOf key).Nodup := by
  have hdeliveries : ((r.deliveries.filter fun d => d.key = key && d.stage = .calling).map
      fun d => Caller.delivery d.generation).Nodup := by
    have hmap := Keyed.nodup_filter h.generations
      (p := fun d => d.key = key && d.stage = .calling)
    have hinj := hmap.map (f := Caller.delivery) fun _ _ => Caller.delivery.inj
    rwa [List.map_map] at hinj
  have hrenewals : ((r.renewals.filter fun n => n.key = key && n.calling).map
      fun n => Caller.renewal n.number).Nodup := by
    have hmap := Keyed.nodup_filter h.numbers (p := fun n => n.key = key && n.calling)
    have hinj := hmap.map (f := Caller.renewal) fun _ _ => Caller.renewal.inj
    rwa [List.map_map] at hinj
  refine List.nodup_append.mpr ⟨hdeliveries, hrenewals, ?_⟩
  intro c hc c' hc'
  obtain ⟨d, -, rfl⟩ := List.mem_map.mp hc
  obtain ⟨n, -, rfl⟩ := List.mem_map.mp hc'
  simp

/-- Who starts a call is calling afterwards. -/
theorem mem_callersOf_of_call {r' : Replicator α} {now : Int} {event : Event α}
    {calls : List (Call α)} (hs : Section r now event r' calls) {c : Call α} (hc : c ∈ calls) :
    c.caller ∈ r'.callersOf c.key := by
  cases hs with
  | @called d lease hd =>
    obtain rfl := List.mem_singleton.mp hc
    refine mem_callersOf.mpr (.inl ⟨inStage .calling d, ?_, rfl, rfl, rfl⟩)
    exact mem_updateDelivery.mpr ⟨d, mem_of_delivery? hd, (if_pos rfl).symm⟩
  | @renewed n e lease hn =>
    obtain rfl := List.mem_singleton.mp hc
    refine mem_callersOf.mpr (.inr ⟨renewing n, ?_, rfl, rfl, rfl⟩)
    exact List.mem_map.mpr ⟨n, mem_of_renewal? hn, if_pos rfl⟩
  | _ => exact absurd hc List.not_mem_nil

/-- A section starts one call at most. -/
theorem calls_eq_single {r' : Replicator α} {now : Int} {event : Event α} {calls : List (Call α)}
    (hs : Section r now event r' calls) {c : Call α} (hc : c ∈ calls) : calls = [c] := by
  cases hs with
  | called => rw [List.mem_singleton.mp hc]
  | renewed => rw [List.mem_singleton.mp hc]
  | _ => exact absurd hc List.not_mem_nil

/-- A call that starts calls the latest write of its key. -/
theorem Sound.current_of_call (h : Sound r) {r' : Replicator α} {now : Int} {event : Event α}
    {calls : List (Call α)} (hs : Section r now event r' calls) {c : Call α} (hc : c ∈ calls) :
    (r.entryFor? c.key).map (·.current) = some c.action := by
  cases hs with
  | @called d lease hd _ _ hcancelled =>
    obtain rfl := List.mem_singleton.mp hc
    obtain ⟨e, he, hcurrent, -⟩ := h.live d (mem_of_delivery? hd) hcancelled
    rw [he, Option.map_some, hcurrent]
  | @renewed n e lease _ _ _ hentry =>
    obtain rfl := List.mem_singleton.mp hc
    rw [hentry, Option.map_some]
  | _ => exact absurd hc List.not_mem_nil

/-- A call that starts is to write down the lease deadline of its instant. -/
theorem lease_of_call {r' : Replicator α} {now : Int} {event : Event α} {calls : List (Call α)}
    (hs : Section r now event r' calls) {c : Call α} (hc : c ∈ calls) :
    r.leaseDeadline now = some c.lease := by
  cases hs with
  | called _ _ _ _ hlease => rwa [List.mem_singleton.mp hc]
  | renewed _ _ _ _ hlease => rwa [List.mem_singleton.mp hc]
  | _ => exact absurd hc List.not_mem_nil

end Floodgate.Replicator
