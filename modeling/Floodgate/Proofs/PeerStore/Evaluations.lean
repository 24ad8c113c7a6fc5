import Floodgate.Proofs.PeerStore.Reports
import Floodgate.Proofs.Verdict
/-!
# Floodgate.Proofs.PeerStore.Evaluations

**Several tasks judge the views of a store at one instant.** Whoever changes the views, and whoever
notices that a lease has lapsed, judges them anew, in sections of its own: it merges the views into
a verdict, it drives the gate by it, and it publishes when the verdict may change. Between these
sections come those of other tasks. `Evaluations` keeps what is on the way: how many tasks have
still to merge the views, and the verdicts that have still to drive the gate or to be published, in
the order in which they got there.

If verdicts do not overtake each other, then the gate and the published expiry are those of the
verdict on the final views once all tasks have finished (`settled_of_inOrder`). This is the case if
a task judges the views in one go (`Run.applySnapshot`, `Run.forgetPeer`, `Run.watch`). If they do,
then the last word may be that of a verdict on views that are no more: the gate can stay blocked
with all instances idle, and open with one busy and nobody to look again
(`stale_verdict_has_last_word`).
-/

namespace Floodgate.PeerStore

/-- What forgetting a server does before the views are judged anew. -/
def withoutPeer (s : PeerStore) (index : Nat) : PeerStore :=
  let keys := match s.link? index with
    | some l => l.keys
    | none => []
  let s := { s with replicator := keys.foldl Replicator.forget s.replicator }
  let s := s.updateLink index fun l => { l with keys := [] }
  s.dropView index

theorem forgetPeer_eq (s : PeerStore) (now : Int) (index : Nat) :
    s.forgetPeer now index = (s.withoutPeer index).reevaluate now := rfl

/-- The gate and the published expiry are those of the verdict on the views. -/
structure SettledAt (s : PeerStore) (now : Int) : Prop where
  isBlocked : s.house.gate.isBlocked = !(s.verdict now).isAllIdle
  nextExpiry : s.nextExpiry = (s.verdict now).nextExpiry

/-- A store that starts with an open gate is settled. -/
theorem SettledAt.start {isAddress : String → Bool} {s : PeerStore}
    {instanceName lockKey : String} {urls : List String} {options : ReplicatorOptions}
    {reconnectMillis : Nat} {house : Gatehouse} {now : Int}
    (hstart : startWith isAddress instanceName lockKey urls options reconnectMillis house now =
      .ok s)
    (hopen : house.gate.isBlocked = false) (later : Int) : s.SettledAt later := by
  obtain ⟨-, -, plan, rfl⟩ := start_eq_ok hstart
  exact ⟨hopen, rfl⟩

/-- A store whose views are being judged by several tasks. -/
structure Evaluations where
  store : PeerStore
  /-- How many tasks have still to merge the views. -/
  waiting : Nat
  /-- The verdicts that have still to drive the gate, the oldest first. -/
  reached : List Verdict
  /-- The verdicts that have driven the gate and whose expiry has still to be published, in the
  order in which they drove it. -/
  driven : List Verdict

namespace Evaluations

/-- A section of a task. -/
inductive Event where
  /-- The snapshot of a server is taken up. -/
  | snapshot (index : Nat) (n : Notification)
  /-- A server is forgotten. -/
  | forget (index : Nat)
  /-- The watcher of leases wakes up. -/
  | wake
  /-- A task merges the views. -/
  | merge
  /-- The verdict at a place drives the gate. -/
  | drive (place : Nat)
  /-- The expiry of the verdict at a place is published. -/
  | publish (place : Nat)
  deriving DecidableEq, Repr

/-- Whether no older verdict is overtaken. -/
def Event.isInOrder : Event → Bool
  | drive place | publish place => place = 0
  | _ => true

variable {e e' : Evaluations} {now : Int} {event : Event} {inOrder : Prop}

/-- A store whose views nobody judges. -/
def rest (s : PeerStore) : Evaluations := ⟨s, 0, [], []⟩

/-- Whether all tasks have finished. -/
def IsDone (e : Evaluations) : Prop := e.waiting = 0 ∧ e.reached = [] ∧ e.driven = []

instance : Decidable e.IsDone := inferInstanceAs (Decidable (_ ∧ _ ∧ _))

/-- Carries out a section, if it is possible now. -/
def step (e : Evaluations) (now : Int) : Event → Option Evaluations
  | .snapshot index n =>
    some { e with store := e.store.putView index n, waiting := e.waiting + 1 }
  | .forget index => some { e with store := e.store.withoutPeer index, waiting := e.waiting + 1 }
  | .wake => if e.store.timerFired now then some { e with waiting := e.waiting + 1 } else none
  | .merge =>
    if 0 < e.waiting then
      some { e with waiting := e.waiting - 1, reached := e.reached ++ [e.store.verdict now] }
    else
      none
  | .drive place => e.reached[place]?.map fun v =>
    { e with
      store := e.store.driveGate v
      reached := e.reached.eraseIdx place
      driven := e.driven ++ [v] }
  | .publish place => e.driven[place]?.map fun v =>
    { e with
      store := e.store.publishExpiry now v.nextExpiry
      driven := e.driven.eraseIdx place }

/-- The runs at one instant. If they are to be in order, then no verdict overtakes another. -/
inductive Run (inOrder : Prop) (now : Int) : Evaluations → Prop where
  | start {s : PeerStore} (hsettled : s.SettledAt now) : Run inOrder now (rest s)
  | next {e e' : Evaluations} {event : Event} (h : Run inOrder now e)
      (hstep : e.step now event = some e') (horder : inOrder → event.isInOrder = true) :
      Run inOrder now e'

/-- Carries out sections in turn. -/
def replay (now : Int) (e : Evaluations) (events : List Event) : Option Evaluations :=
  events.foldlM (fun e event => e.step now event) e

theorem Run.replay (h : Run inOrder now e) (events : List Event)
    (hreplay : e.replay now events = some e')
    (horder : inOrder → ∀ event ∈ events, event.isInOrder = true) : Run inOrder now e' := by
  induction events generalizing e with
  | nil =>
    cases hreplay
    exact h
  | cons event rest ih =>
    rw [Evaluations.replay, List.foldlM_cons, Option.bind_eq_bind,
      Option.bind_eq_some_iff] at hreplay
    obtain ⟨e₁, hstep, hrest⟩ := hreplay
    exact ih (h.next hstep fun hin => horder hin event List.mem_cons_self) hrest
      fun hin x hx => horder hin x (List.mem_cons_of_mem event hx)

/-! ### Tasks that judge the views in one go -/

/-- The sections of one evaluation with nothing between them. -/
theorem Run.reevaluate {s : PeerStore} (h : Run inOrder now ⟨s, 1, [], []⟩) :
    Run inOrder now (rest (s.reevaluate now)) :=
  h.replay [.merge, .drive 0, .publish 0] rfl fun _ => by decide

theorem Run.applySnapshot {s : PeerStore} (h : Run inOrder now (rest s)) (index : Nat)
    (n : Notification) : Run inOrder now (rest (s.applySnapshot now index n)) := by
  have hstep : (rest s).step now (.snapshot index n) = some ⟨s.putView index n, 1, [], []⟩ := rfl
  exact (h.next hstep fun _ => rfl).reevaluate

theorem Run.forgetPeer {s : PeerStore} (h : Run inOrder now (rest s)) (index : Nat) :
    Run inOrder now (rest (s.forgetPeer now index)) := by
  rw [forgetPeer_eq]
  have hstep : (rest s).step now (.forget index) = some ⟨s.withoutPeer index, 1, [], []⟩ := rfl
  exact (h.next hstep fun _ => rfl).reevaluate

theorem Run.watch {s s' : PeerStore} (h : Run inOrder now (rest s))
    (hstep : s.step now .watch = some s') : Run inOrder now (rest s') := by
  simp only [PeerStore.step] at hstep
  split at hstep
  · next hfired =>
    cases hstep
    have hwake : (rest s).step now .wake = some ⟨s, 1, [], []⟩ := if_pos hfired
    exact (h.next hwake fun _ => rfl).reevaluate
  · cases hstep

/-! ### Verdicts in order -/

/-- As long as verdicts do not overtake each other: the gate is as the newest verdict that has
driven it says, the expiry is that of the newest one that has been published, and the newest verdict
of all is on the present views, unless a task has still to merge them. -/
structure InOrder (now : Int) (e : Evaluations) (published : Verdict) : Prop where
  expiry : e.store.nextExpiry = published.nextExpiry
  gate : ∃ v, (published :: e.driven).getLast? = some v ∧
    e.store.house.gate.isBlocked = !v.isAllIdle
  newest : e.waiting = 0 →
    (published :: (e.driven ++ e.reached)).getLast? = some (e.store.verdict now)

theorem InOrder.step {published : Verdict} (h : InOrder now e published)
    (hstep : e.step now event = some e') (horder : event.isInOrder = true) :
    ∃ published', InOrder now e' published' := by
  cases event with
  | snapshot index n =>
    cases hstep
    have hsame : (e.store.putView index n).nextExpiry = e.store.nextExpiry ∧
        (e.store.putView index n).house = e.store.house := by
      unfold putView
      split <;> exact ⟨rfl, rfl⟩
    exact ⟨published, hsame.1.trans h.expiry, hsame.2 ▸ h.gate, nofun⟩
  | forget index =>
    cases hstep
    exact ⟨published, h.expiry, h.gate, nofun⟩
  | wake =>
    simp only [Evaluations.step] at hstep
    split at hstep
    · cases hstep
      exact ⟨published, h.expiry, h.gate, nofun⟩
    · cases hstep
  | merge =>
    simp only [Evaluations.step] at hstep
    split at hstep
    · cases hstep
      refine ⟨published, h.expiry, h.gate, fun _ => ?_⟩
      rw [← List.append_assoc, ← List.cons_append, List.getLast?_concat]
    · cases hstep
  | drive place =>
    obtain rfl := of_decide_eq_true horder
    obtain ⟨v, hat, rfl⟩ := Option.map_eq_some_iff.mp hstep
    obtain ⟨later, hreached⟩ := List.head?_eq_some_iff.mp (List.head?_eq_getElem? ▸ hat)
    refine ⟨published, h.expiry, ⟨v, ?_, e.store.house.isBlocked_drive v⟩, fun hdone => ?_⟩
    · rw [← List.cons_append, List.getLast?_concat]
    · have hnewest := h.newest hdone
      rw [hreached] at hnewest ⊢
      rw [List.eraseIdx_cons_zero, List.append_assoc, List.singleton_append]
      exact hnewest
  | publish place =>
    obtain rfl := of_decide_eq_true horder
    obtain ⟨v, hat, rfl⟩ := Option.map_eq_some_iff.mp hstep
    obtain ⟨later, hdriven⟩ := List.head?_eq_some_iff.mp (List.head?_eq_getElem? ▸ hat)
    obtain ⟨last, hlast, hblocked⟩ := h.gate
    refine ⟨v, rfl, ⟨last, ?_, hblocked⟩, fun hdone => ?_⟩
    · rw [hdriven] at hlast ⊢
      rw [List.eraseIdx_cons_zero, ← hlast, List.getLast?_cons_cons]
    · have hnewest := h.newest hdone
      rw [hdriven] at hnewest ⊢
      rw [List.eraseIdx_cons_zero]
      rw [List.cons_append, List.getLast?_cons_cons] at hnewest
      exact hnewest

theorem Run.exists_inOrder (h : Run True now e) : ∃ published, InOrder now e published := by
  induction h with
  | @start s hsettled =>
    exact ⟨s.verdict now, hsettled.nextExpiry, ⟨_, rfl, hsettled.isBlocked⟩, fun _ => rfl⟩
  | next _ hstep horder ih =>
    obtain ⟨published, hpublished⟩ := ih
    exact hpublished.step hstep (horder trivial)

/-- **If verdicts drive the gate and are published in the order in which they were reached, then
once all tasks have finished, the gate is blocked exactly if the verdict on the final views is not
that all are idle, and the published expiry is that of this verdict.** -/
theorem settled_of_inOrder (h : Run True now e) (hdone : e.IsDone) : e.store.SettledAt now := by
  obtain ⟨published, hexpiry, ⟨v, hlast, hblocked⟩, hnewest⟩ := h.exists_inOrder
  obtain ⟨hwaiting, hreached, hdriven⟩ := hdone
  have hpublished := hnewest hwaiting
  rw [hdriven, hreached] at hpublished
  rw [hdriven] at hlast
  cases hlast
  cases hpublished
  exact ⟨hblocked, hexpiry⟩

/-! ### Verdicts that overtake each other -/

/-- What a server says of one instance. -/
def said (isBusy : Bool) (lease : Int) : Notification := ⟨"lock", [("b", ⟨isBusy, "", lease⟩)]⟩

/-- A store with one server, after some sections that start all at rest. -/
def replayed (events : List Event) : Option Evaluations :=
  match PeerStore.startWith (fun _ => true) "a" "lock" ["peer:1"] {} 1000 (.fresh {}) 0 with
  | .ok s => replay 0 (rest s) events
  | .error _ => none

theorem run_replayed {events : List Event} (h : replayed events = some e) : Run False 0 e := by
  unfold replayed at h
  split at h
  · next s hstart => exact (Run.start (.start hstart rfl 0)).replay events h False.elim
  · cases h

/-- What some sections lead to is reached by a run. -/
theorem exists_run_of_replayed (events : List Event) (p : Evaluations → Prop) [DecidablePred p]
    (h : (replayed events).any (fun e => decide (p e)) = true) : ∃ e, Run False 0 e ∧ p e := by
  obtain ⟨e, he, hp⟩ := (Option.any_eq_true _ _).mp h
  exact ⟨e, run_replayed he, of_decide_eq_true hp⟩

/-- The server says that the instance is busy and is removed; the task that takes up the first is
overtaken by the one that does the second. -/
def overtakenByRemoval : List Event :=
  [.snapshot 0 (said true 0), .merge, .forget 0, .merge, .drive 1, .publish 0, .drive 0, .publish 0]

/-- The server says that the instance is idle, and then that it is busy until a lease ends; the task
that takes up the first is overtaken by the one that takes up the second. -/
def overtakenByLease : List Event :=
  [.snapshot 0 (said false 0), .merge, .snapshot 0 (said true 100), .merge, .drive 1, .publish 0,
    .drive 0, .publish 0]

/-- **A verdict on views that are no more can have the last word:** all tasks have finished, and the
gate is blocked although all are idle, or open although an instance is busy. In either case no timer
is set, so that it stays so until a snapshot comes. -/
theorem stale_verdict_has_last_word :
    (∃ e, Run False 0 e ∧ e.IsDone ∧ e.store.house.gate.isBlocked = true ∧
      (e.store.verdict 0).isAllIdle = true ∧ e.store.timer = none) ∧
    ∃ e, Run False 0 e ∧ e.IsDone ∧ e.store.house.gate.isBlocked = false ∧
      (e.store.verdict 0).isAllIdle = false ∧
      e.store.nextExpiry ≠ (e.store.verdict 0).nextExpiry ∧ e.store.timer = none := by
  constructor
  · exact exists_run_of_replayed overtakenByRemoval _ (by decide)
  · exact exists_run_of_replayed overtakenByLease _ (by decide)

end Evaluations

end Floodgate.PeerStore
