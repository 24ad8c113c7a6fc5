import Floodgate.Proofs.Replication.Line
import Floodgate.Proofs.Replication.NoLoss
/-!
# Floodgate.Proofs.Replication.Clock

**A replicator on a clock.** A run of sections leaves open when each is carried out and how calls
go. Here both are fixed. What can go on now goes on before time goes on, timers fire at their
instant (`Clocked.mayWait`), and a call goes as the conduct of its key says: it ends where it
starts, or after some time, or never. What has been called is noted, so that of every key one can
tell when its writes were called, with which lease, and when the calls returned
(`Clocked.timeline`).

Design points:

* **What the outside does is a deed.** Time is let pass, a section is carried out, or a call whose
  time is over is ended; in which order, among those that are possible, is left to the run. A state
  and a deed have one outcome (`Clocked.act`), so a list of deeds can be replayed.
* **The conduct of a key knows the key only.** It is asked with the calls of the key so far, so it
  may be any script, and it may react to being called again; what other keys do it does not see.
* **A call that ends where it starts leaves no room.** Its start and its end are one deed, between
  which nobody else goes on.
-/

namespace Floodgate.Replicator

variable {α : Type}

/-! ### Calls on a clock -/

/-- How a call goes. -/
inductive Manner where
  /-- It ends where it starts. -/
  | atOnce (ok : Bool)
  | lasting (millis : Nat) (ok : Bool)
  | hanging
  deriving DecidableEq, Repr

/-- When a call that starts now is to end, and how; none if it never ends. -/
def Manner.ends (now : Int) : Manner → Option (Int × Bool)
  | .atOnce ok => some (now, ok)
  | .lasting millis ok => some (now + millis, ok)
  | .hanging => none

/-- How the calls of a key go. It is told from the calls of the key so far, each a write with the
instant at which it was called, the newest first. -/
abbrev Conduct (α : Type) := String → List (α × Int) → Manner

/-- A call with all that the key has to do with it. -/
structure CallRecord (α : Type) where
  action : α
  /-- When it started. -/
  time : Int
  lease : Timestamp
  /-- When it is to end, and how. -/
  ends : Option (Int × Bool)

/-- A call as it is noted. -/
structure CallNote (α : Type) where
  caller : Caller
  key : String
  record : CallRecord α
  /-- When it has returned, and how. -/
  returned : Option (Int × Bool)

/-- Whether a call that has not returned is to end by now. -/
def CallNote.isDue (now : Int) (n : CallNote α) : Bool :=
  n.returned.isNone && n.record.ends.any (·.1 ≤ now)

/-- A note once the call in progress of a caller has returned. -/
def CallNote.return (caller : Caller) (how : Int × Bool) (n : CallNote α) : CallNote α :=
  if n.caller = caller ∧ n.returned = none then { n with returned := some how } else n

/-- A replicator on a clock. -/
structure Clocked (α : Type) where
  replicator : Replicator α
  now : Int
  /-- The calls so far, the newest first. -/
  notes : List (CallNote α)

/-- What happens next. -/
inductive Deed (α : Type) where
  /-- Time passes. -/
  | wait (later : Int)
  /-- A section is carried out. -/
  | go (event : Event α)
  /-- The call in progress of a caller returns. -/
  | finish (caller : Caller)

/-- Whether an event is the end of a call. -/
def Event.endsCall : Event α → Bool
  | .callEnded _ _ => true
  | _ => false

/-- The end of a call starts none. -/
theorem calls_of_callEnded {r r' : Replicator α} {now : Int} {caller : Caller} {ok : Bool}
    {calls : List (Call α)} (hs : Section r now (.callEnded caller ok) r' calls) : calls = [] := by
  cases hs <;> rfl

theorem endsCall_of_call {r r' : Replicator α} {now : Int} {event : Event α} {calls : List (Call α)}
    (hs : Section r now event r' calls) {c : Call α} (hc : c ∈ calls) : event.endsCall = false := by
  cases event with
  | callEnded caller ok => rw [calls_of_callEnded hs] at hc; cases hc
  | _ => rfl

theorem isOwn_of_call {r r' : Replicator α} {now : Int} {event : Event α} {calls : List (Call α)}
    (hs : Section r now event r' calls) {c : Call α} (hc : c ∈ calls) : event.isOwn = true := by
  cases hs with
  | called => rfl
  | renewed => rfl
  | _ => exact absurd hc List.not_mem_nil

namespace Clocked

def start (plan : ReplicationPlan) (now : Int) : Clocked α := ⟨.start plan now, now, []⟩

/-- The calls of a key, the newest first. -/
def callsOf (s : Clocked α) (key : String) : List (CallRecord α) :=
  (s.notes.filter (·.key = key)).map (·.record)

/-- The calls of a key as its conduct is told of them. -/
def heard (s : Clocked α) (key : String) : List (α × Int) :=
  (s.callsOf key).map fun c => (c.action, c.time)

/-- What is seen of a key: its calls, the newest first, each with its return if it has returned. -/
def timeline (s : Clocked α) (key : String) : List (α × Int × Timestamp × Option (Int × Bool)) :=
  (s.notes.filter (·.key = key)).map fun n =>
    (n.record.action, n.record.time, n.record.lease, n.returned)

/-- The calls in progress. A call whose caller has been dropped is not. -/
def inProgress (s : Clocked α) : List (CallNote α) :=
  s.notes.filter fun n => n.returned.isNone && s.replicator.isCalling n.caller

/-- Whether nothing can go on now. -/
def isSettled (s : Clocked α) : Bool :=
  (s.replicator.work s.now).isNone && s.inProgress.all fun n => !n.isDue s.now

/-- When something can go on again by itself. -/
def timers (s : Clocked α) : List Int :=
  s.replicator.timers ++ s.inProgress.filterMap fun n => n.record.ends.map (·.1)

/-- Whether time may go on to an instant: nothing can go on before. -/
def mayWait (s : Clocked α) (later : Int) : Bool :=
  s.isSettled && decide (s.now ≤ later) && s.timers.all (later ≤ ·)

/-- How a call that starts now goes. -/
def manner (conduct : Conduct α) (s : Clocked α) (c : Call α) : Manner :=
  conduct c.key ((c.action, s.now) :: s.heard c.key)

/-- The note of a call that starts now. -/
def noteOf (conduct : Conduct α) (s : Clocked α) (c : Call α) (returned : Option (Int × Bool)) :
    CallNote α :=
  ⟨c.caller, c.key, ⟨c.action, s.now, c.lease, (s.manner conduct c).ends s.now⟩, returned⟩

@[simp] theorem noteOf_key (conduct : Conduct α) (s : Clocked α) (c : Call α)
    (returned : Option (Int × Bool)) : (s.noteOf conduct c returned).key = c.key := rfl

/-- Takes up what a section did. A call that goes at once is over with it. -/
def take (conduct : Conduct α) (s : Clocked α) (r' : Replicator α) :
    List (Call α) → Option (Clocked α)
  | [] => some { s with replicator := r' }
  | c :: _ =>
    match s.manner conduct c with
    | .atOnce ok =>
      (r'.step s.now (.callEnded c.caller ok)).map fun (r'', _) =>
        { s with replicator := r'', notes := s.noteOf conduct c (some (s.now, ok)) :: s.notes }
    | .lasting _ _ | .hanging =>
      some { s with replicator := r', notes := s.noteOf conduct c none :: s.notes }

/-- Carries out a deed, if it is possible now. -/
def act (conduct : Conduct α) (s : Clocked α) : Deed α → Option (Clocked α)
  | .wait later => if s.mayWait later then some { s with now := later } else none
  | .go event =>
    if event.endsCall then none
    else (s.replicator.step s.now event).bind fun (r', calls) => s.take conduct r' calls
  | .finish caller =>
    (s.notes.find? fun n => n.caller = caller && n.isDue s.now).bind fun n =>
      n.record.ends.bind fun (_, ok) =>
        (s.replicator.step s.now (.callEnded caller ok)).map fun (r', _) =>
          { s with replicator := r', notes := s.notes.map (CallNote.return caller (s.now, ok)) }

/-- The ways in which a deed can go. -/
inductive Acts (conduct : Conduct α) (s : Clocked α) : Deed α → Clocked α → Prop where
  /-- Time passes. -/
  | waited {later : Int} (hsettled : s.isSettled = true) (hle : s.now ≤ later)
      (htimers : ∀ t ∈ s.timers, later ≤ t) : Acts conduct s (.wait later) { s with now := later }
  /-- A section starts no call. -/
  | went {event : Event α} {r' : Replicator α} (hend : event.endsCall = false)
      (hstep : s.replicator.step s.now event = some (r', [])) :
      Acts conduct s (.go event) { s with replicator := r' }
  /-- A section starts a call that is over with it. -/
  | called {event : Event α} {r₁ r' : Replicator α} {c : Call α} {ok : Bool}
      (hstep : s.replicator.step s.now event = some (r₁, [c]))
      (hmanner : s.manner conduct c = .atOnce ok)
      (hover : r₁.step s.now (.callEnded c.caller ok) = some (r', [])) :
      Acts conduct s (.go event)
        { s with replicator := r', notes := s.noteOf conduct c (some (s.now, ok)) :: s.notes }
  /-- A section starts a call that goes on. -/
  | began {event : Event α} {r' : Replicator α} {c : Call α}
      (hstep : s.replicator.step s.now event = some (r', [c]))
      (hmanner : ∀ ok, s.manner conduct c ≠ .atOnce ok) :
      Acts conduct s (.go event)
        { s with replicator := r', notes := s.noteOf conduct c none :: s.notes }
  /-- A call in progress returns. -/
  | returned {n : CallNote α} {due : Int} {ok : Bool} {r' : Replicator α} (hn : n ∈ s.notes)
      (hopen : n.returned = none) (hends : n.record.ends = some (due, ok)) (hdue : due ≤ s.now)
      (hstep : s.replicator.step s.now (.callEnded n.caller ok) = some (r', [])) :
      Acts conduct s (.finish n.caller)
        { s with replicator := r', notes := s.notes.map (CallNote.return n.caller (s.now, ok)) }

variable {conduct : Conduct α} {s s' : Clocked α} {deed : Deed α}

theorem isDue_iff {n : CallNote α} {now : Int} : n.isDue now = true ↔
    n.returned = none ∧ ∃ due ok, n.record.ends = some (due, ok) ∧ due ≤ now := by
  unfold CallNote.isDue
  cases n.returned <;> cases n.record.ends <;> simp [Prod.ext_iff]

/-- Every deed is one of the listed ones. -/
theorem acts_of_act (h : s.act conduct deed = some s') : Acts conduct s deed s' := by
  cases deed with
  | wait later =>
    simp only [act] at h
    split at h
    · rename_i hmay
      simp only [mayWait, Bool.and_eq_true, decide_eq_true_eq, List.all_eq_true] at hmay
      cases h
      exact .waited hmay.1.1 hmay.1.2 hmay.2
    · cases h
  | go event =>
    simp only [act] at h
    split at h
    · cases h
    · rename_i hend
      obtain ⟨⟨r', calls⟩, hstep, htake⟩ := Option.bind_eq_some_iff.mp h
      cases calls with
      | nil =>
        cases htake
        exact .went (Bool.not_eq_true _ ▸ hend) hstep
      | cons c rest =>
        rw [calls_eq_single (section_of_step hstep) List.mem_cons_self] at hstep
        simp only [take] at htake
        split at htake
        · rename_i ok hmanner
          obtain ⟨⟨r'', calls'⟩, hover, heq⟩ := Option.map_eq_some_iff.mp htake
          cases heq
          rw [calls_of_callEnded (section_of_step hover)] at hover
          exact .called hstep hmanner hover
        · rename_i hmanner
          cases htake
          exact .began hstep fun ok => by rw [hmanner]; simp
        · rename_i hmanner
          cases htake
          exact .began hstep fun ok => by rw [hmanner]; simp
  | finish caller =>
    obtain ⟨n, hfind, h⟩ := Option.bind_eq_some_iff.mp h
    obtain ⟨⟨due, ok⟩, hends, h⟩ := Option.bind_eq_some_iff.mp h
    obtain ⟨⟨r', calls⟩, hstep, heq⟩ := Option.map_eq_some_iff.mp h
    cases heq
    have hfound := List.find?_some hfind
    simp only [Bool.and_eq_true, decide_eq_true_eq] at hfound
    obtain ⟨rfl, hdue⟩ := hfound
    obtain ⟨hopen, due', ok', hends', hle⟩ := isDue_iff.mp hdue
    rw [hends] at hends'
    cases hends'
    rw [calls_of_callEnded (section_of_step hstep)] at hstep
    exact .returned (List.mem_of_find?_eq_some hfind) hopen hends hle hstep

/-! ### Runs -/

/-- The runs of a replicator on a clock: what was done in which state, the last one first, and the
state that it has led to. -/
inductive Run (plan : ReplicationPlan) (since : Int) (conduct : Conduct α) :
    List (Clocked α × Deed α) → Clocked α → Prop where
  /-- It starts. -/
  | start : Run plan since conduct [] (.start plan since)
  /-- A deed is done. -/
  | next {past : List (Clocked α × Deed α)} {s s' : Clocked α} {deed : Deed α}
      (hpast : Run plan since conduct past s) (hact : s.act conduct deed = some s') :
      Run plan since conduct ((s, deed) :: past) s'

/-- Does deeds in turn, and notes them after those done before. -/
def replay (conduct : Conduct α) (s : Clocked α) (past : List (Clocked α × Deed α)) :
    List (Deed α) → Option (Clocked α × List (Clocked α × Deed α))
  | [] => some (s, past)
  | deed :: rest => (s.act conduct deed).bind fun s' => s'.replay conduct ((s, deed) :: past) rest

variable {plan : ReplicationPlan} {since : Int} {past : List (Clocked α × Deed α)}

/-- What can be replayed is a run, in which these deeds were done. -/
theorem Run.replay {deeds : List (Deed α)} {past' : List (Clocked α × Deed α)}
    (h : Run plan since conduct past s) (hreplay : s.replay conduct past deeds = some (s', past')) :
    Run plan since conduct past' s' ∧
      past'.map (·.2) = deeds.reverse ++ past.map (·.2) := by
  induction deeds generalizing s past with
  | nil =>
    cases hreplay
    exact ⟨h, rfl⟩
  | cons deed rest ih =>
    obtain ⟨s₁, hact, hrest⟩ := Option.bind_eq_some_iff.mp hreplay
    obtain ⟨hrun, hdeeds⟩ := ih (.next h hact) hrest
    exact ⟨hrun, by simpa using hdeeds⟩

/-- A property of a replay that can be evaluated holds of a run. -/
theorem exists_run_of_replay (plan : ReplicationPlan) (since : Int) (conduct : Conduct α)
    (deeds : List (Deed α)) (p : List (Clocked α × Deed α) → Clocked α → Bool)
    (h : ((start plan since).replay conduct [] deeds).any (fun x => p x.2 x.1) = true) :
    ∃ past s, Run plan since conduct past s ∧ past.map (·.2) = deeds.reverse ∧
      p past s = true := by
  cases hreplay : (start plan since).replay conduct [] deeds with
  | none => rw [hreplay] at h; cases h
  | some x =>
    rw [hreplay] at h
    obtain ⟨hrun, hdeeds⟩ := Run.start.replay hreplay
    exact ⟨x.2, x.1, hrun, by simpa using hdeeds, h⟩

/-- Every deed of a run was done at the end of a run. -/
theorem Run.split {later earlier : List (Clocked α × Deed α)} {s₀ : Clocked α}
    (h : Run plan since conduct (later ++ (s₀, deed) :: earlier) s) :
    Run plan since conduct earlier s₀ ∧
      ∃ s₁, Acts conduct s₀ deed s₁ ∧ Run plan since conduct ((s₀, deed) :: earlier) s₁ := by
  induction later generalizing s with
  | nil =>
    cases h with
    | next hpast hact => exact ⟨hpast, _, acts_of_act hact, .next hpast hact⟩
  | cons _ _ ih =>
    cases h with
    | next hpast _ => exact ih hpast

/-- What was done tells what it has led to. -/
theorem Run.unique {s₁ : Clocked α} (h : Run plan since conduct past s)
    (h₁ : Run plan since conduct past s₁) : s = s₁ := by
  cases h with
  | start => cases h₁; rfl
  | next _ hact =>
    cases h₁ with
    | next _ hact₁ => exact Option.some.inj (hact.symm.trans hact₁)

/-- Time does not go back. -/
theorem Acts.now_le (h : Acts conduct s deed s') : s.now ≤ s'.now := by
  cases h with
  | waited _ hle => exact hle
  | _ => exact Int.le_refl _

theorem Run.since_le (h : Run plan since conduct past s) : since ≤ s.now := by
  induction h with
  | start => exact Int.le_refl _
  | next _ hact ih => exact Int.le_trans ih (acts_of_act hact).now_le

/-- On a clock, too, a replicator carries out one section after the other; each is a deed or the end
of a call. -/
theorem Run.history (h : Run plan since conduct past s) :
    ∃ history, Replicator.Run plan since history s.replicator ∧
      ∀ m ∈ history, since ≤ m.now ∧ m.now ≤ s.now ∧
        (m.event.endsCall = true ∨ ∃ s₀, (s₀, .go m.event) ∈ past) := by
  induction h with
  | start => exact ⟨[], .start, fun _ hm => absurd hm List.not_mem_nil⟩
  | @next past s s' deed hpast hact ih =>
    obtain ⟨history, hrun, hall⟩ := ih
    have hnow := (acts_of_act hact).now_le
    have hold : ∀ m ∈ history, since ≤ m.now ∧ m.now ≤ s'.now ∧
        (m.event.endsCall = true ∨ ∃ s₀, (s₀, .go m.event) ∈ (s, deed) :: past) := by
      intro m hm
      obtain ⟨hle, hle', hevent⟩ := hall m hm
      refine ⟨hle, Int.le_trans hle' hnow, hevent.imp_right fun ⟨s₀, hs₀⟩ => ?_⟩
      exact ⟨s₀, List.mem_cons_of_mem _ hs₀⟩
    have hsince := hpast.since_le
    cases acts_of_act hact with
    | waited => exact ⟨history, hrun, hold⟩
    | went _ hstep =>
      refine ⟨_, hrun.next hstep, List.forall_mem_cons.mpr ⟨⟨hsince, Int.le_refl _, ?_⟩, hold⟩⟩
      exact .inr ⟨s, List.mem_cons_self⟩
    | called hstep _ hover =>
      -- two sections at one instant
      refine ⟨_, (hrun.next hstep).next hover, List.forall_mem_cons.mpr
        ⟨⟨hsince, Int.le_refl _, .inl rfl⟩, List.forall_mem_cons.mpr
          ⟨⟨hsince, Int.le_refl _, .inr ⟨s, List.mem_cons_self⟩⟩, hold⟩⟩⟩
    | began hstep =>
      refine ⟨_, hrun.next hstep, List.forall_mem_cons.mpr ⟨⟨hsince, Int.le_refl _, ?_⟩, hold⟩⟩
      exact .inr ⟨s, List.mem_cons_self⟩
    | returned _ _ _ _ hstep =>
      exact ⟨_, hrun.next hstep, List.forall_mem_cons.mpr
        ⟨⟨hsince, Int.le_refl _, .inl rfl⟩, hold⟩⟩

/-- The calendar reaches the leases of all writes that are made from one instant to another. -/
def Reaches (plan : ReplicationPlan) (since now : Int) : Prop :=
  ∀ t, since ≤ t → t ≤ now → ∃ lease, plan.leaseDeadline t = some lease

theorem Reaches.earlier {now now' : Int} (h : Reaches plan since now') (hle : now ≤ now') :
    Reaches plan since now :=
  fun t hsince ht => h t hsince (Int.le_trans ht hle)

/-- The calendar is an interval. -/
theorem reaches_of_bounds {now : Int}
    (hsince : -8334601228800000 ≤ since + plan.expiration.wholeMillis)
    (hnow : now + plan.expiration.wholeMillis ≤ 8210266876799999) : Reaches plan since now := by
  intro t hle hle'
  have hin : -8334601228800000 ≤ t + (plan.expiration.wholeMillis : Int) ∧
      t + (plan.expiration.wholeMillis : Int) ≤ 8210266876799999 := by omega
  exact ⟨_, dif_pos hin⟩

/-- As long as no lease ends beyond the calendar, no task dies. -/
theorem Run.dead_eq_nil (h : Run plan since conduct past s) (hreach : Reaches plan since s.now) :
    s.replicator.dead = [] := by
  obtain ⟨history, hrun, hall⟩ := h.history
  refine hrun.dead_eq_nil fun m hm hnone => ?_
  obtain ⟨hsince, hnow, -⟩ := hall m hm
  obtain ⟨lease, hsome⟩ := hreach m.now hsince hnow
  rw [hsome] at hnone
  cases hnone

/-- As long as it is not shut down and no lease ends beyond the calendar, the marks of a replicator
say truly whether somebody is still trying. -/
theorem Run.tracked (h : Run plan since conduct past s) (hreach : Reaches plan since s.now)
    (hup : ∀ x ∈ past, x.2 ≠ .go .shutDown) :
    s.replicator.isShutDown = false ∧ Tracked s.replicator := by
  obtain ⟨history, hrun, hall⟩ := h.history
  have hkept : ∀ m ∈ history, m.event ≠ .shutDown := by
    intro m hm hevent
    obtain ⟨-, -, hends | ⟨s₀, hs₀⟩⟩ := hall m hm
    · rw [hevent] at hends
      cases hends
    · rw [hevent] at hs₀
      exact hup _ hs₀ rfl
  have hpanics : ∀ m ∈ history, ¬ m.panics := by
    rintro m hm ⟨_, -, -, -, -, hlease⟩
    obtain ⟨hsince, hnow, -⟩ := hall m hm
    obtain ⟨lease, hsome⟩ := hreach m.now hsince hnow
    obtain ⟨later, earlier, rfl⟩ := List.append_of_mem hm
    rw [leaseDeadline, hrun.split.1.plan_eq, hsome] at hlease
    cases hlease
  obtain ⟨hdown, htracked, -⟩ := hrun.accounted hkept hpanics
  exact ⟨hdown, htracked⟩

/-! ### The notes -/

/-- The note of a call keeps what it says of the start of the call. -/
theorem return_fields (caller : Caller) (how : Int × Bool) (n : CallNote α) :
    (n.return caller how).caller = n.caller ∧ (n.return caller how).key = n.key ∧
      (n.return caller how).record = n.record := by
  unfold CallNote.return
  split <;> exact ⟨rfl, rfl, rfl⟩

theorem callsOf_note (s : Clocked α) (r' : Replicator α) (n : CallNote α) (key : String) :
    Clocked.callsOf { s with replicator := r', notes := n :: s.notes } key =
      if n.key = key then n.record :: s.callsOf key else s.callsOf key := by
  by_cases hkey : n.key = key
  · simp [callsOf, hkey]
  · simp [callsOf, hkey]

theorem callsOf_return (s : Clocked α) (r' : Replicator α) (caller : Caller) (how : Int × Bool)
    (key : String) : Clocked.callsOf { s with
      replicator := r', notes := s.notes.map (CallNote.return caller how) } key =
        s.callsOf key := by
  have hfields := return_fields caller how (α := α)
  simp only [Clocked.callsOf, List.filter_map, List.map_map, Function.comp_def, hfields]

/-- The calls of a key after a deed: those before, and one that it starts. -/
theorem Acts.callsOf (h : Acts conduct s deed s') (key : String) :
    s'.callsOf key = s.callsOf key ∨ ∃ event r' c, deed = .go event ∧
      s.replicator.step s.now event = some (r', [c]) ∧ c.key = key ∧ s'.now = s.now ∧
      s'.callsOf key = (s.noteOf conduct c none).record :: s.callsOf key := by
  cases h with
  | waited => exact .inl rfl
  | went => exact .inl rfl
  | called hstep =>
    rw [callsOf_note, noteOf_key]
    split
    · rename_i hkey
      exact .inr ⟨_, _, _, rfl, hstep, hkey, rfl, rfl⟩
    · exact .inl rfl
  | began hstep =>
    rw [callsOf_note, noteOf_key]
    split
    · rename_i hkey
      exact .inr ⟨_, _, _, rfl, hstep, hkey, rfl, rfl⟩
    · exact .inl rfl
  | returned => exact .inl (callsOf_return ..)

/-- Every call of a key got the lease deadline of its instant, and none was called before an earlier
one. -/
theorem Run.calls (h : Run plan since conduct past s) (key : String) :
    (∀ c ∈ s.callsOf key, plan.leaseDeadline c.time = some c.lease ∧ c.time ≤ s.now) ∧
      (s.callsOf key).Pairwise fun later earlier => earlier.time ≤ later.time := by
  induction h with
  | start => exact ⟨fun _ hc => absurd hc List.not_mem_nil, .nil⟩
  | @next past s s' deed hpast hact ih =>
    have hacts := acts_of_act hact
    have hold : ∀ c ∈ s.callsOf key, plan.leaseDeadline c.time = some c.lease ∧ c.time ≤ s'.now :=
      fun c hc => ⟨(ih.1 c hc).1, Int.le_trans (ih.1 c hc).2 hacts.now_le⟩
    rcases hacts.callsOf key with hsame | ⟨event, r', c, -, hstep, -, hnow, hcons⟩
    · rw [hsame]
      exact ⟨hold, ih.2⟩
    · obtain ⟨_, hrun, -⟩ := hpast.history
      have hlease := lease_of_call (section_of_step hstep) (List.mem_singleton_self c)
      rw [leaseDeadline, hrun.plan_eq] at hlease
      rw [hcons]
      refine ⟨List.forall_mem_cons.mpr ⟨⟨hlease, Int.le_of_eq hnow.symm⟩, hold⟩, ?_⟩
      exact List.pairwise_cons.mpr ⟨fun c' hc' => (ih.1 c' hc').2, ih.2⟩

/-! ### What nothing is left to do means -/

/-- What can go on by itself does not, once all has come to rest. -/
theorem step_of_isSettled (h : s.isSettled = true) {event : Event α}
    (hevent : event ∈ s.replicator.candidates) : s.replicator.step s.now event = none := by
  simp only [isSettled, Bool.and_eq_true, Option.isNone_iff_eq_none] at h
  exact List.findSome?_eq_none_iff.mp h.1 event hevent

theorem resume_of_isSettled (h : s.isSettled = true) {d : Delivery α}
    (hd : d ∈ s.replicator.deliveries) :
    s.replicator.step s.now (.resume (.delivery d.generation)) = none := by
  refine step_of_isSettled h ?_
  simp only [candidates, List.mem_append, List.mem_map]
  exact .inl (.inl (.inr ⟨d, hd, rfl⟩))

theorem renewal_of_isSettled (h : s.isSettled = true) {n : Renewal}
    (hn : n ∈ s.replicator.renewals) :
    s.replicator.step s.now (.resume (.renewal n.number)) = none := by
  refine step_of_isSettled h ?_
  simp only [candidates, List.mem_append, List.mem_map]
  exact .inl (.inr ⟨n, hn, rfl⟩)

theorem renewalTick_of_isSettled (h : s.isSettled = true) :
    s.replicator.step s.now .renewalTick = none :=
  step_of_isSettled h (by simp [candidates])

end Clocked

end Floodgate.Replicator
