import Floodgate.Proofs.PeerStore.Attribution
/-!
# Floodgate.Proofs.PeerStore.Removal

**What a removed server leaves behind.** Removing a server takes time: it is taken off the list and
its link is cancelled, then the task of the link is waited for, and only when that has exited is
everything forgotten that was written to the server or received from it. Meanwhile the store goes
on: statuses are set, writes are called and tried again, servers send snapshots. `Membership` is a
store with the tasks of its links, and a `Turn` is whatever may happen to it between two moments at
which other tasks may run. A call that starts may end in any later turn, and in either way.

A removal leaves a link that is off the list and notes no key. No turn changes this, and none starts
a call for it (`Orderly.bare_next`). It leaves no view of the server either, and none comes back if
the task of the link has exited (`Silent.next`).

The task has exited unless shutting down came first. A task has one handle, which is taken by the
first one who closes the link, and whoever comes later waits for nothing: a removal that begins
while the store shuts down ends at once, and the task, which goes on until it sees that it has been
cancelled, may put back the view that has been forgotten (`removed_view_returns`). Otherwise a
removal leaves nothing behind (`removed_leaves_nothing_once_exited`).

Design points:

* **Sections are carried out whole.** Statuses are set, and servers forgotten, without another task
  coming in between.
* **To cancel a task is not to end it.** Its link can do whatever it could before, until the task
  exits in a turn of its own (`Turn.exit`).
* **Shutting down is made of turns**: everything is cancelled and the handles are taken, the tasks
  of the links exit, the watcher stops, and the replicator is shut down. A removal may be under way
  when the first of them comes, and another may begin between any two. Together they are what a
  store does when it is shut down in one go (`Orderly.run_of_shutDown`).
-/

namespace Floodgate

/-! ### Servers that are being removed -/

/-- A store and the tasks of its links. -/
structure Membership where
  store : PeerStore
  now : Int
  /-- The links whose tasks have not exited. -/
  tasks : List Nat
  /-- The links that have been closed: somebody has taken the handle of the task. -/
  taken : List Nat
  /-- The links whose removal waits for their task. -/
  leaving : List Nat
  /-- Whether shutting down has begun. -/
  isClosing : Bool

namespace Membership

open PeerStore Replicator

/-- What may happen to a link whose task has not exited. -/
inductive LinkTurn where
  | connect
  | openStream
  /-- The oldest report on the way arrives. -/
  | transmit
  | fail
  | resume

/-- What a turn makes of a link, if it is possible now. -/
def LinkTurn.take (s : PeerStore) (now : Int) (l : PeerLink) : LinkTurn → Option PeerLink
  | .connect => if l.stage = .connecting then (s.registration now).map l.connect else none
  | .openStream => if l.stage = .registering then some l.openStream else none
  | .transmit => l.takeReport.map (·.2)
  | .fail => if l.pauseEnd? = none then some (l.fail now s.reconnectMillis) else none
  | .resume => l.retry now

/-- What may happen next. -/
inductive Turn where
  | wait (later : Int)
  | setStatus (status : ReportedStatus)
  | link (index : Nat) (turn : LinkTurn)
  /-- The task of a link takes up a snapshot that its stream brings. -/
  | snapshot (index : Nat) (n : Notification)
  /-- A section of the replicator. The calls that it starts are sent. -/
  | replicate (event : Replicator.Event PeerWrite)
  | callEnded (caller : Caller) (ok : Bool)
  /-- The watcher judges the views anew. -/
  | watch
  /-- Handlers run at the gate. -/
  | handle (house : Gatehouse)
  /-- A removal begins: the first server of an address is taken off the list, and its link is
  closed. -/
  | unlist (url : String)
  /-- The task of a link that has been cancelled exits. -/
  | exit (index : Nat)
  /-- A removal ends: the task that it has waited for has exited. -/
  | forget (index : Nat)
  /-- Shutting down begins: everything is cancelled, and all listed links are closed. -/
  | shutDown
  /-- The watcher notices that it has been cancelled. -/
  | stopWatcher
  /-- Nothing is written any more. -/
  | shutDownReplicator

/-- A store that has started, with a task for each link. -/
def start (s : PeerStore) (now : Int) : Membership where
  store := s
  now
  tasks := s.links.map (·.index)
  taken := []
  leaving := []
  isClosing := false

/-- A link that has been taken off the list. -/
def delisted (l : PeerLink) : PeerLink := { l with isListed := false }

/-- Forgets a server whose removal waits for nothing any more. -/
def forget (m : Membership) (index : Nat) : Membership :=
  { m with
    store := m.store.forgetPeer m.now index
    leaving := m.leaving.filter (· ≠ index) }

/-- Takes a server off the list and closes its link. The removal waits for the task, unless the link
has been closed before: then it ends at once. -/
def unlist (m : Membership) (index : Nat) : Membership :=
  let m := { m with store := m.store.updateLink index delisted }
  if index ∈ m.taken then m.forget index
  else { m with taken := m.taken ++ [index], leaving := m.leaving ++ [index] }

/-- The index of the first listed server of an address. -/
def listedIndex? (m : Membership) (url : String) : Option Nat :=
  (m.store.listed.find? (·.url == url)).map (·.index)

/-- Whether a link has a stream open that brings snapshots. -/
def streams (m : Membership) (index : Nat) : Bool :=
  (m.store.link? index).any (·.stage == .streaming)

/-- What follows a turn, if the turn is possible, and the calls that it starts. -/
def next (m : Membership) : Turn → Option (Membership × List (Call PeerWrite))
  | .wait later => if m.now ≤ later then some ({ m with now := later }, []) else none
  | .setStatus status => some ({ m with store := (m.store.setStatus status).2 }, [])
  | .link index turn =>
    if index ∈ m.tasks then
      (m.store.link? index).bind fun l => (turn.take m.store m.now l).map fun l =>
        ({ m with store := m.store.updateLink index fun _ => l }, [])
    else
      none
  | .snapshot index n =>
    if index ∈ m.tasks ∧ m.streams index then
      some ({ m with store := m.store.applySnapshot m.now index n }, [])
    else
      none
  | .replicate event =>
    if event.isOwn then
      (m.store.replicator.step m.now event).map fun (replicator, calls) =>
        ({ m with store := { m.store with replicator }.sendAll calls }, calls)
    else
      none
  | .callEnded caller ok =>
    (m.store.replicator.step m.now (.callEnded caller ok)).map fun (replicator, calls) =>
      ({ m with store := { m.store with replicator } }, calls)
  | .watch => (m.store.step m.now .watch).map fun store => ({ m with store }, [])
  | .handle house => some ({ m with store := { m.store with house } }, [])
  | .unlist url => (m.listedIndex? url).map fun index => (m.unlist index, [])
  | .exit index =>
    if index ∈ m.leaving ∨ m.isClosing then
      let store := m.store.updateLink index (·.close)
      some ({ m with store, tasks := m.tasks.filter (· ≠ index) }, [])
    else
      none
  | .forget index =>
    if index ∈ m.leaving ∧ index ∉ m.tasks then some (m.forget index, []) else none
  | .shutDown =>
    let taken := m.taken ++ m.store.listed.map (·.index)
    some ({ m with taken, isClosing := true }, [])
  | .stopWatcher =>
    if m.isClosing then
      some ({ m with store := { m.store with isStopped := true, timer := none } }, [])
    else
      none
  | .shutDownReplicator =>
    if m.isClosing then
      (m.store.replicator.step m.now .shutDown).map fun (replicator, calls) =>
        ({ m with store := { m.store with replicator } }, calls)
    else
      none

/-- Takes turns, as long as they are possible, and collects the calls that start. -/
def run (m : Membership) : List Turn → Option (Membership × List (Call PeerWrite))
  | [] => some (m, [])
  | turn :: rest =>
    (m.next turn).bind fun (m, calls) => (m.run rest).map fun (m, more) => (m, calls ++ more)

variable {m m' : Membership} {turn : Turn} {turns : List Turn} {calls : List (Call PeerWrite)}
  {i index : Nat}

/-! ### The turns of a removal -/

theorem next_unlist_eq_some {url : String} (hnext : m.next (.unlist url) = some (m', calls)) :
    ∃ i, m.listedIndex? url = some i ∧ calls = [] ∧ m' = m.unlist i := by
  simp only [next, Option.map_eq_some_iff, Prod.mk.injEq] at hnext
  obtain ⟨i, hi, rfl, rfl⟩ := hnext
  exact ⟨i, hi, rfl, rfl⟩

theorem listedIndex?_eq_some {url : String} (h : m.listedIndex? url = some i) :
    ∃ l ∈ m.store.listed, l.index = i := by
  obtain ⟨l, hl, rfl⟩ := Option.map_eq_some_iff.mp h
  exact ⟨l, List.mem_of_find?_eq_some hl, rfl⟩

theorem next_exit (hcancelled : i ∈ m.leaving ∨ m.isClosing = true) :
    m.next (.exit i) = some ({ m with
      store := m.store.updateLink i (·.close)
      tasks := m.tasks.filter (· ≠ i) }, []) := if_pos hcancelled

theorem next_exit_eq_some (hnext : m.next (.exit i) = some (m', calls)) :
    calls = [] ∧ m' = { m with
      store := m.store.updateLink i (·.close)
      tasks := m.tasks.filter (· ≠ i) } := by
  simp only [next, Option.ite_none_right_eq_some, Option.some.injEq, Prod.mk.injEq] at hnext
  obtain ⟨-, rfl, rfl⟩ := hnext
  exact ⟨rfl, rfl⟩

theorem next_forget (hleaving : i ∈ m.leaving) (hexited : i ∉ m.tasks) :
    m.next (.forget i) = some (m.forget i, []) := if_pos ⟨hleaving, hexited⟩

theorem next_forget_eq_some (hnext : m.next (.forget i) = some (m', calls)) :
    (i ∈ m.leaving ∧ i ∉ m.tasks) ∧ calls = [] ∧ m' = m.forget i := by
  simp only [next, Option.ite_none_right_eq_some, Option.some.injEq, Prod.mk.injEq] at hnext
  obtain ⟨hleaving, rfl, rfl⟩ := hnext
  exact ⟨hleaving, rfl, rfl⟩

theorem next_snapshot {n : Notification} (htask : i ∈ m.tasks) (hstreams : m.streams i = true) :
    m.next (.snapshot i n) =
      some ({ m with store := m.store.applySnapshot m.now i n }, []) := if_pos ⟨htask, hstreams⟩

/-- A removal of a link that nobody has closed waits for its task. -/
theorem unlist_of_not_taken (h : i ∉ m.taken) : m.unlist i = { m with
    store := m.store.updateLink i delisted
    taken := m.taken ++ [i]
    leaving := m.leaving ++ [i] } := if_neg h

/-- A removal of a link that somebody has closed waits for nothing. -/
theorem unlist_of_taken (h : i ∈ m.taken) :
    m.unlist i = { m with store := m.store.updateLink i delisted }.forget i := if_pos h

/-! ### What a turn does -/

/-- A turn that neither sets a status nor forgets a server. -/
structure Carries (turn : Turn) (m m' : Membership) (calls : List (Call PeerWrite)) : Prop where
  store : GoesOn m.store m'.store
  tasks : m'.tasks ⊆ m.tasks
  /-- A link whose removal begins is off the list. -/
  leaving : ∀ i ∈ m'.leaving, i ∈ m.leaving ∨ m'.store.IsOff i
  /-- A link is closed by its removal, or by shutting down. -/
  taken : ∀ i ∈ m'.taken, i ∈ m.taken ∨ m'.store.IsOff i ∨ m'.isClosing = true
  isClosing : m'.isClosing = m.isClosing ∨ turn = .shutDown ∧ m'.isClosing = true
  /-- A view comes from a task. -/
  views : ∀ i ∈ m'.store.views.map (·.1), i ∈ m.store.views.map (·.1) ∨ i ∈ m.tasks
  /-- A call is made for an entry. -/
  calls : ∀ c ∈ calls,
    (m.store.replicator.entryFor? c.key).map (·.current) = some c.action

/-- Only the store changes, and not its views, and nothing is called. -/
theorem Carries.of_store {s : PeerStore} (hs : GoesOn m.store s)
    (hviews : s.views = m.store.views) : Carries turn m { m with store := s } [] where
  store := hs
  tasks := List.Subset.refl _
  leaving _ := .inl
  taken _ := .inl
  isClosing := .inl rfl
  views _ hi := .inl (hviews ▸ hi)
  calls _ hc := by cases hc

theorem LinkTurn.take_eq_some {s : PeerStore} {now : Int} {l l' : PeerLink} {turn : LinkTurn}
    (h : turn.take s now l = some l') :
    l'.index = l.index ∧ l'.keys = l.keys ∧ l'.isListed = l.isListed := by
  cases turn with
  | connect =>
    simp only [take, Option.ite_none_right_eq_some, Option.map_eq_some_iff] at h
    obtain ⟨-, first, -, rfl⟩ := h
    exact ⟨rfl, rfl, rfl⟩
  | openStream =>
    simp only [take, Option.ite_none_right_eq_some, Option.some.injEq] at h
    obtain ⟨-, rfl⟩ := h
    exact ⟨rfl, rfl, rfl⟩
  | transmit =>
    obtain ⟨⟨r, l₁⟩, htake, rfl⟩ := Option.map_eq_some_iff.mp h
    unfold PeerLink.takeReport at htake
    split at htake
    · cases htake
    · cases htake
      exact ⟨rfl, rfl, rfl⟩
  | fail =>
    simp only [take, Option.ite_none_right_eq_some, Option.some.injEq] at h
    obtain ⟨-, rfl⟩ := h
    exact ⟨rfl, rfl, rfl⟩
  | resume =>
    change l.retry now = some l' at h
    unfold PeerLink.retry at h
    split at h
    · simp only [Option.ite_none_right_eq_some, Option.some.injEq] at h
      obtain ⟨-, rfl⟩ := h
      exact ⟨rfl, rfl, rfl⟩
    · cases h

/-- A section of the replicator starts no call but for a latest write, and its calls are sent. -/
theorem Carries.replicate (h : Attributed m.store) {event : Replicator.Event PeerWrite}
    {r : Replicator PeerWrite} (hstep : m.store.replicator.step m.now event = some (r, calls))
    (hlatest : ∀ k before, event.latest k before = before) :
    Carries turn m { m with store := { m.store with replicator := r }.sendAll calls } calls := by
  have hs := section_of_step hstep
  have hstore := GoesOn.sendAll h (GoesOn.section h hs hlatest) calls
  exact { Carries.of_store hstore (views_sendAll _ calls) with
    calls := fun c hc => h.sound.current_of_call hs hc }

/-- A section of the replicator that something else brings about. -/
theorem Carries.section (h : Attributed m.store) {event : Replicator.Event PeerWrite}
    {r : Replicator PeerWrite} (hstep : m.store.replicator.step m.now event = some (r, calls))
    (hlatest : ∀ k before, event.latest k before = before) :
    Carries turn m { m with store := { m.store with replicator := r } } calls := by
  have hs := section_of_step hstep
  exact { Carries.of_store (GoesOn.section h hs hlatest) rfl with
    calls := fun c hc => h.sound.current_of_call hs hc }

/-- What holds of a store and its tasks. -/
structure Orderly (m : Membership) : Prop where
  store : Attributed m.store
  leaving : ∀ i ∈ m.leaving, m.store.IsOff i
  /-- Only shutting down closes a link that stays on the list. -/
  taken : ∀ i ∈ m.taken, m.store.IsOff i ∨ m.isClosing = true

/-- What is on the list and has been closed is so by shutting down. -/
theorem Orderly.isClosing_of_taken (h : Orderly m) {l : PeerLink} (hl : l ∈ m.store.listed)
    (htaken : l.index ∈ m.taken) : m.isClosing = true := by
  refine (h.taken l.index htaken).resolve_left fun ⟨l', hl', hoff⟩ => ?_
  obtain rfl := Option.some.inj ((link?_of_listed h.store hl).symm.trans hl')
  have hlisted := (List.mem_filter.mp hl).2
  rw [hoff] at hlisted
  cases hlisted

theorem goesOn_delisted (h : Attributed m.store) (i : Nat) :
    GoesOn m.store (m.store.updateLink i delisted) :=
  .updateLink h i (fun _ => rfl) (fun _ => rfl) fun _ _ => rfl

theorem isOff_delisted (h : Attributed m.store) {l : PeerLink} (hl : l ∈ m.store.listed) :
    (m.store.updateLink l.index delisted).IsOff l.index := by
  refine ⟨delisted l, ?_, rfl⟩
  rw [link?_updateLink (f := delisted) fun _ => rfl, if_pos rfl, link?_of_listed h hl,
    Option.map_some]

/-- Every turn sets a status, forgets a server that is off the list, or carries on. -/
theorem next_cases (h : Orderly m) (hnext : m.next turn = some (m', calls)) :
    (∃ status, calls = [] ∧ m' = { m with store := (m.store.setStatus status).2 }) ∨
    (∃ i s, calls = [] ∧ GoesOn m.store s ∧ s.views = m.store.views ∧ s.IsOff i ∧
      m' = { m with store := s }.forget i) ∨
    Carries turn m m' calls := by
  have hsame : ∀ {s : PeerStore}, s.links = m.store.links → s.replicator = m.store.replicator →
      GoesOn m.store s := fun hlinks hr => .of_parts h.store hlinks hr
  cases turn with
  | setStatus status => cases hnext; exact .inl ⟨status, rfl, rfl⟩
  | forget i =>
    obtain ⟨⟨hleaving, -⟩, rfl, rfl⟩ := next_forget_eq_some hnext
    exact .inr (.inl ⟨i, m.store, rfl, .refl h.store, rfl, h.leaving i hleaving, rfl⟩)
  | unlist url =>
    obtain ⟨_, hi, rfl, rfl⟩ := next_unlist_eq_some hnext
    obtain ⟨l, hl, rfl⟩ := listedIndex?_eq_some hi
    have hstore := goesOn_delisted h.store l.index
    have hoff := isOff_delisted h.store hl
    by_cases htaken : l.index ∈ m.taken
    · exact .inr (.inl ⟨l.index, _, rfl, hstore, rfl, hoff, unlist_of_taken htaken⟩)
    · rw [unlist_of_not_taken htaken]
      refine .inr (.inr { Carries.of_store hstore rfl with leaving := ?_, taken := ?_ })
      · intro i hi
        rcases List.mem_append.mp hi with hi | hi
        · exact .inl hi
        · exact .inr (List.mem_singleton.mp hi ▸ hoff)
      · intro i hi
        rcases List.mem_append.mp hi with hi | hi
        · exact .inl hi
        · exact .inr (.inl (List.mem_singleton.mp hi ▸ hoff))
  | wait later =>
    simp only [next, Option.ite_none_right_eq_some, Option.some.injEq, Prod.mk.injEq] at hnext
    obtain ⟨-, rfl, rfl⟩ := hnext
    exact .inr (.inr { Carries.of_store (.refl h.store) rfl with })
  | link i turn =>
    simp only [next, Option.ite_none_right_eq_some, Option.bind_eq_some_iff,
      Option.map_eq_some_iff, Prod.mk.injEq] at hnext
    obtain ⟨-, l, hl, l', htake, rfl, rfl⟩ := hnext
    obtain ⟨hindex, hkeys, hlisted⟩ := LinkTurn.take_eq_some htake
    exact .inr (.inr (.of_store (.putLink h.store hl hindex hkeys hlisted) rfl))
  | snapshot i n =>
    simp only [next, Option.ite_none_right_eq_some, Option.some.injEq, Prod.mk.injEq] at hnext
    obtain ⟨⟨htask, -⟩, rfl, rfl⟩ := hnext
    have hviews : ∀ j ∈ (m.store.applySnapshot m.now i n).views.map (·.1),
        j ∈ m.store.views.map (·.1) ∨ j ∈ m.tasks := by
      intro j hj
      change j ∈ (m.store.putView i n).views.map (·.1) at hj
      unfold PeerStore.putView at hj
      split at hj
      · exact (Assoc.mem_keys_put.mp hj).elim (fun heq => .inr (heq ▸ htask)) .inl
      · exact .inl hj
    have hstore : GoesOn m.store (m.store.applySnapshot m.now i n) := by
      unfold PeerStore.applySnapshot PeerStore.putView
      split <;> exact hsame rfl rfl
    exact .inr (.inr ⟨hstore, List.Subset.refl _, fun _ => .inl, fun _ => .inl, .inl rfl, hviews,
      fun _ hc => by cases hc⟩)
  | replicate event =>
    simp only [next, Option.ite_none_right_eq_some, Option.map_eq_some_iff, Prod.mk.injEq]
      at hnext
    obtain ⟨hown, ⟨r, started⟩, hstep, rfl, rfl⟩ := hnext
    refine .inr (.inr (.replicate h.store hstep fun k before => ?_))
    cases event with
    | register | forget => cases hown
    | _ => rfl
  | callEnded caller ok =>
    simp only [next, Option.map_eq_some_iff, Prod.mk.injEq] at hnext
    obtain ⟨⟨r, started⟩, hstep, rfl, rfl⟩ := hnext
    exact .inr (.inr (.section h.store hstep fun _ _ => rfl))
  | watch =>
    simp only [next, PeerStore.step, Option.map_eq_some_iff, Option.ite_none_right_eq_some,
      Option.some.injEq, Prod.mk.injEq] at hnext
    obtain ⟨s, ⟨-, rfl⟩, rfl, rfl⟩ := hnext
    exact .inr (.inr (.of_store (hsame rfl rfl) rfl))
  | handle house => cases hnext; exact .inr (.inr (.of_store (hsame rfl rfl) rfl))
  | exit i =>
    obtain ⟨rfl, rfl⟩ := next_exit_eq_some hnext
    have hstore : GoesOn m.store (m.store.updateLink i (·.close)) :=
      .updateLink h.store i (fun _ => rfl) (fun _ => rfl) fun _ => id
    exact .inr (.inr { Carries.of_store hstore rfl with tasks := List.filter_subset_self _ })
  | shutDown =>
    cases hnext
    exact .inr (.inr ⟨.refl h.store, List.Subset.refl _, fun _ => .inl, fun _ _ => .inr (.inr rfl),
      .inr ⟨rfl, rfl⟩, fun _ => .inl, fun _ hc => by cases hc⟩)
  | stopWatcher =>
    simp only [next, Option.ite_none_right_eq_some, Option.some.injEq, Prod.mk.injEq] at hnext
    obtain ⟨-, rfl, rfl⟩ := hnext
    exact .inr (.inr (.of_store (hsame rfl rfl) rfl))
  | shutDownReplicator =>
    simp only [next, Option.ite_none_right_eq_some, Option.map_eq_some_iff, Prod.mk.injEq]
      at hnext
    obtain ⟨-, ⟨r, started⟩, hstep, rfl, rfl⟩ := hnext
    exact .inr (.inr (.section h.store hstep fun _ _ => rfl))

/-! ### What is kept -/

theorem Orderly.start {isAddress : String → Bool} {name lockKey : String} {urls : List String}
    {options : ReplicatorOptions} {reconnectMillis : Nat} {house : Gatehouse} {now : Int}
    {s : PeerStore}
    (hstart : startWith isAddress name lockKey urls options reconnectMillis house now = .ok s) :
    Orderly (start s now) :=
  ⟨.start hstart, fun _ hi => absurd hi List.not_mem_nil, fun _ hi => absurd hi List.not_mem_nil⟩

theorem Orderly.next (h : Orderly m) (hnext : m.next turn = some (m', calls)) : Orderly m' := by
  rcases next_cases h hnext with ⟨x, -, rfl⟩ | ⟨i, s, -, hs, -, hoff, rfl⟩ | hc
  · exact ⟨h.store.setStatus x, fun j hj => (h.leaving j hj).setStatus h.store x,
      fun j hj => (h.taken j hj).imp_left (·.setStatus h.store x)⟩
  · have hstore := h.store.goesOn hs
    obtain ⟨l, hl, -⟩ := hoff
    refine ⟨hstore.forgetPeer hl m.now, fun j hj => ?_, fun j hj => ?_⟩
    · exact ((h.leaving j (List.mem_filter.mp hj).1).goesOn hs).forgetPeer m.now i
    · exact (h.taken j hj).imp_left fun hoff => (hoff.goesOn hs).forgetPeer m.now i
  · refine ⟨h.store.goesOn hc.store, fun j hj => ?_, fun j hj => ?_⟩
    · exact (hc.leaving j hj).elim (fun hold => (h.leaving j hold).goesOn hc.store) id
    · rcases hc.taken j hj with hold | hnew
      · refine (h.taken j hold).imp (·.goesOn hc.store) fun hclosing => ?_
        rcases hc.isClosing with hsame | ⟨-, hclosing'⟩
        · exact hsame.trans hclosing
        · exact hclosing'
      · exact hnew

/-- Whether a call is one to a server. -/
def IsFor (index : Nat) (c : Call PeerWrite) : Prop :=
  c.action.index = index ∨ IsKeyOf index c.key

/-- A link that is off the list and notes no key stays so, and nothing is written to it. -/
theorem Orderly.bare_next (h : Orderly m) (hbare : m.store.IsBare index)
    (hnext : m.next turn = some (m', calls)) :
    m'.store.IsBare index ∧ ∀ c ∈ calls, ¬ IsFor index c := by
  rcases next_cases h hnext with ⟨x, rfl, rfl⟩ | ⟨i, s, rfl, hs, -, -, rfl⟩ | hc
  · exact ⟨hbare.setStatus h.store x, fun _ hc => by cases hc⟩
  · exact ⟨(hbare.goesOn hs).forgetPeer m.now i, fun _ hc => by cases hc⟩
  · refine ⟨hbare.goesOn hc.store, ?_⟩
    rintro c hmem (hindex | hkey)
    · exact h.store.index_ne_of_bare hbare (hc.calls c hmem) hindex
    · exact h.store.not_isKeyOf_of_bare hbare (hc.calls c hmem) hkey

/-- Nothing is heard of a server: the task of its link has exited, and there is no view of it. -/
structure Silent (index : Nat) (m : Membership) : Prop where
  exited : index ∉ m.tasks
  unseen : index ∉ m.store.views.map (·.1)

/-- Nothing is heard of the server any more. -/
theorem Silent.next (hsilent : Silent index m) (h : Orderly m)
    (hnext : m.next turn = some (m', calls)) : Silent index m' := by
  rcases next_cases h hnext with ⟨x, -, rfl⟩ | ⟨i, s, -, -, hviews, -, rfl⟩ | hc
  · refine ⟨hsilent.exited, ?_⟩
    show index ∉ (m.store.setStatus x).2.views.map (·.1)
    rw [views_setStatus]
    exact hsilent.unseen
  · refine ⟨hsilent.exited, fun hmem => hsilent.unseen ?_⟩
    have hkept := (List.filter_sublist.map _).subset hmem
    rwa [hviews] at hkept
  · refine ⟨fun hmem => hsilent.exited (hc.tasks hmem), fun hmem => ?_⟩
    exact (hc.views index hmem).elim hsilent.unseen hsilent.exited

/-! ### Runs -/

/-- What every turn keeps, a run keeps, and what it says of the calls of a turn holds of all calls
of a run. -/
theorem run_induction {P : Membership → Prop} {Q : Call PeerWrite → Prop}
    (hturn : ∀ {m m' turn calls}, P m → m.next turn = some (m', calls) →
      P m' ∧ ∀ c ∈ calls, Q c)
    (h : P m) (hrun : m.run turns = some (m', calls)) : P m' ∧ ∀ c ∈ calls, Q c := by
  induction turns generalizing m calls with
  | nil => cases hrun; exact ⟨h, fun _ hc => by cases hc⟩
  | cons turn rest ih =>
    simp only [Membership.run, Option.bind_eq_some_iff, Option.map_eq_some_iff,
      Prod.mk.injEq] at hrun
    obtain ⟨⟨m₁, started⟩, hnext, ⟨m₂, more⟩, hrest, rfl, rfl⟩ := hrun
    obtain ⟨h₁, hstarted⟩ := hturn h hnext
    obtain ⟨h', hmore⟩ := ih h₁ hrest
    exact ⟨h', fun c hc => (List.mem_append.mp hc).elim (hstarted c) (hmore c)⟩

theorem Orderly.run (h : Orderly m) (hrun : m.run turns = some (m', calls)) : Orderly m' :=
  (run_induction (Q := fun _ => True) (fun h hnext => ⟨h.next hnext, fun _ _ => trivial⟩) h
    hrun).1

theorem Orderly.bare_run (h : Orderly m) (hbare : m.store.IsBare index)
    (hrun : m.run turns = some (m', calls)) :
    m'.store.IsBare index ∧ ∀ c ∈ calls, ¬ IsFor index c := by
  have ⟨⟨_, hbare'⟩, hcalls⟩ := run_induction
    (P := fun m => Orderly m ∧ m.store.IsBare index) (Q := fun c => ¬ IsFor index c)
    (fun ⟨h, hbare⟩ hnext =>
      have ⟨hbare', hcalls⟩ := h.bare_next hbare hnext
      ⟨⟨h.next hnext, hbare'⟩, hcalls⟩)
    ⟨h, hbare⟩ hrun
  exact ⟨hbare', hcalls⟩

theorem Silent.run (hsilent : Silent index m) (h : Orderly m)
    (hrun : m.run turns = some (m', calls)) : Silent index m' :=
  (run_induction (P := fun m => Orderly m ∧ Silent index m) (Q := fun _ => True)
    (fun ⟨h, hsilent⟩ hnext => ⟨⟨h.next hnext, hsilent.next h hnext⟩, fun _ _ => trivial⟩)
    ⟨h, hsilent⟩ hrun).1.2

/-- Shutting down has a beginning. -/
theorem Orderly.mem_of_isClosing (h : Orderly m) (hopen : m.isClosing = false)
    (hrun : m.run turns = some (m', calls)) (hclosing : m'.isClosing = true) :
    .shutDown ∈ turns := by
  induction turns generalizing m calls with
  | nil =>
    cases hrun
    rw [hopen] at hclosing
    cases hclosing
  | cons turn rest ih =>
    simp only [Membership.run, Option.bind_eq_some_iff, Option.map_eq_some_iff,
      Prod.mk.injEq] at hrun
    obtain ⟨⟨m₁, started⟩, hnext, ⟨m₂, more⟩, hrest, rfl, rfl⟩ := hrun
    have hlater : m₁.isClosing = m.isClosing → .shutDown ∈ turn :: rest := fun hsame =>
      List.mem_cons_of_mem _ (ih (h.next hnext) (hsame.trans hopen) hrest)
    rcases next_cases h hnext with ⟨_, -, rfl⟩ | ⟨_, _, -, -, -, -, rfl⟩ | hc
    · exact hlater rfl
    · exact hlater rfl
    · rcases hc.isClosing with hsame | ⟨rfl, -⟩
      · exact hlater hsame
      · exact List.mem_cons_self

/-! ### What a store does in one go -/

theorem run_cons_of_next (hnext : m.next turn = some (m', calls)) (rest : List Turn) :
    m.run (turn :: rest) = (m'.run rest).map fun (m, more) => (m, calls ++ more) := by
  rw [run, hnext, Option.bind_some]

theorem run_of_next (hnext : m.next turn = some (m', calls)) :
    m.run [turn] = some (m', calls) := by
  rw [run_cons_of_next hnext, run, Option.map_some]
  simp only [List.append_nil]

/-- Nothing is called, and the rest of the turns goes on from there. -/
theorem run_cons_of_quiet (hnext : m.next turn = some (m', [])) (rest : List Turn) :
    m.run (turn :: rest) = m'.run rest := by
  rw [run_cons_of_next hnext]
  exact congrFun Option.map_id _

theorem run_append_of_quiet (hrun : m.run turns = some (m', [])) (more : List Turn) :
    m.run (turns ++ more) = m'.run more := by
  induction turns generalizing m with
  | nil => cases hrun; rfl
  | cons turn rest ih =>
    simp only [Membership.run, Option.bind_eq_some_iff, Option.map_eq_some_iff, Prod.mk.injEq,
      List.append_eq_nil_iff] at hrun
    obtain ⟨⟨m₁, started⟩, hnext, ⟨m₂, calls⟩, hrest, rfl, rfl, rfl⟩ := hrun
    exact (run_cons_of_quiet hnext _).trans (ih hrest)

/-- Whatever a store does by itself is a run, if links go on only as long as their tasks. -/
theorem exists_run_of_step {event : PeerStore.Event} {s : PeerStore}
    (hstep : m.store.step m.now event = some s) (htask : ∀ i, event = .resume i → i ∈ m.tasks) :
    ∃ turns calls, m.run turns = some ({ m with store := s }, calls) := by
  cases event with
  | replicate event =>
    simp only [PeerStore.step, Option.ite_none_right_eq_some, Option.map_eq_some_iff] at hstep
    obtain ⟨hown, ⟨r, started⟩, hr, rfl⟩ := hstep
    have hnext : m.next (.replicate event) =
        some ({ m with store := { m.store with replicator := r }.sendAll started }, started) := by
      rw [next, if_pos hown, hr, Option.map_some]
    cases started with
    | nil => exact ⟨_, _, run_of_next hnext⟩
    | cons c rest =>
      -- the call that the section starts ends within it
      cases calls_eq_single (section_of_step hr) List.mem_cons_self
      cases hsend : ({ m.store with replicator := r } : PeerStore).send c.action c.lease with
      | mk result s₁ =>
        have hsent : { m.store with replicator := r }.sendAll [c] = s₁ := congrArg Prod.snd hsend
        rw [List.foldl_cons, List.foldl_nil, carryOut_eq hsend, afterCall]
        rw [hsent] at hnext
        cases hended : s₁.replicator.step m.now (.callEnded c.caller result.isOk) with
        | none => exact ⟨_, _, run_of_next hnext⟩
        | some x =>
          have hover : { m with store := s₁ }.next (.callEnded c.caller result.isOk) =
              some ({ m with store := { s₁ with replicator := x.1 } }, x.2) := by
            rw [next, hended, Option.map_some]
          refine ⟨[.replicate event, .callEnded c.caller result.isOk], [c] ++ x.2, ?_⟩
          rw [run_cons_of_next hnext, run_of_next hover, Option.map_some]
  | watch =>
    exact ⟨[.watch], [], run_of_next (by rw [next, hstep, Option.map_some])⟩
  | resume i =>
    simp only [PeerStore.step, Option.bind_eq_some_iff, Option.map_eq_some_iff] at hstep
    obtain ⟨l, hl, l', hretry, rfl⟩ := hstep
    refine ⟨[.link i .resume], [], run_of_next ?_⟩
    rw [next, if_pos (htask i rfl), hl, Option.bind_some, LinkTurn.take, hretry, Option.map_some]

/-- A link that is taken off the list and then closed is as if both came at once. -/
theorem updateLink_close_delisted (s : PeerStore) (i : Nat) :
    (s.updateLink i delisted).updateLink i (·.close) = s.updateLink i offList := by
  unfold PeerStore.updateLink
  rw [List.map_map]
  congr 1
  refine List.map_congr_left fun l _ => ?_
  by_cases hi : l.index = i
  · have hoff : (delisted l).index = i := hi
    simp only [Function.comp_apply, if_pos hi, if_pos hoff]
    rfl
  · simp only [Function.comp_apply, if_neg hi]

/-- A removal in one go is three turns, unless the store is shutting down. -/
theorem Orderly.run_of_removePeer (h : Orderly m) (hopen : m.isClosing = false) {url : String}
    {s : PeerStore} (hremoved : m.store.removePeer m.now url = (true, s)) :
    ∃ i, m.run [.unlist url, .exit i, .forget i] = some ({ m with
      store := s
      tasks := m.tasks.filter (· ≠ i)
      taken := m.taken ++ [i]
      leaving := m.leaving.filter (· ≠ i) }, []) := by
  unfold PeerStore.removePeer at hremoved
  split at hremoved
  · next s₁ i hunlist =>
    obtain ⟨-, rfl⟩ := Prod.mk.inj hremoved
    obtain ⟨l, hl, rfl, rfl⟩ := unlist_eq_some hunlist
    have hnot : l.index ∉ m.taken := fun htaken => by
      have hclosing := h.isClosing_of_taken (List.mem_of_find?_eq_some hl) htaken
      rw [hopen] at hclosing
      cases hclosing
    have hbegun : m.next (.unlist url) = some (m.unlist l.index, []) := by
      rw [Membership.next, listedIndex?, hl, Option.map_some, Option.map_some]
    rw [unlist_of_not_taken hnot] at hbegun
    have hmem : l.index ∈ m.leaving ++ [l.index] :=
      List.mem_append_right _ (List.mem_singleton_self _)
    have hexited : l.index ∉ m.tasks.filter (· ≠ l.index) := fun h =>
      of_decide_eq_true (List.mem_filter.mp h).2 rfl
    refine ⟨l.index, ?_⟩
    rw [run_cons_of_quiet hbegun, run_cons_of_quiet (next_exit (.inl hmem)),
      run_of_next (next_forget hmem hexited)]
    simp [Membership.forget, updateLink_close_delisted]
  · cases hremoved

/-- The tasks of some links exit, one after the other. -/
theorem run_exits (hclosing : m.isClosing = true) (indices : List Nat) :
    m.run (indices.map .exit) = some ({ m with
      store := { m.store with
        links := m.store.links.map fun l => if l.index ∈ indices then l.close else l }
      tasks := m.tasks.filter (· ∉ indices) }, []) := by
  induction indices generalizing m with
  | nil => simp [run]
  | cons i rest ih =>
    rw [List.map_cons, run_cons_of_quiet (next_exit (.inr hclosing))]
    refine Eq.trans (ih ?_) ?_
    · exact hclosing
    have hlinks : (m.store.updateLink i (·.close)).links.map
        (fun l => if l.index ∈ rest then l.close else l) =
        m.store.links.map fun l => if l.index ∈ i :: rest then l.close else l := by
      rw [PeerStore.updateLink, List.map_map]
      refine List.map_congr_left fun l _ => ?_
      by_cases hi : l.index = i <;> by_cases hrest : l.index ∈ rest <;>
        simp [hi, hrest, PeerLink.close]
    have htasks : (m.tasks.filter (· ≠ i)).filter (· ∉ rest) = m.tasks.filter (· ∉ i :: rest) := by
      rw [List.filter_filter]
      refine List.filter_congr fun j _ => ?_
      simp [Bool.and_comm]
    simp only [hlinks, htasks]
    rfl

/-- Among the listed links is who is listed. -/
theorem mem_indices_listed {s : PeerStore} (h : Attributed s) {l : PeerLink} (hl : l ∈ s.links) :
    l.index ∈ s.listed.map (·.index) ↔ l.isListed = true := by
  refine ⟨fun hmem => ?_, fun hlisted => List.mem_map_of_mem (List.mem_filter.mpr ⟨hl, hlisted⟩)⟩
  obtain ⟨l', hl', hindex⟩ := List.mem_map.mp hmem
  have hfound := (link?_eq_some_iff h.indices).mpr ⟨hl, hindex.symm⟩
  obtain rfl := Option.some.inj (hfound.symm.trans (link?_of_listed h hl'))
  exact (List.mem_filter.mp hl').2

/-- Shutting down in one go is made of turns. -/
theorem Orderly.run_of_shutDown (h : Orderly m) :
    m.run (.shutDown :: ((m.store.listed.map (·.index)).map .exit ++
      [.stopWatcher, .shutDownReplicator])) = some ({ m with
        store := m.store.shutDown m.now
        tasks := m.tasks.filter (· ∉ m.store.listed.map (·.index))
        taken := m.taken ++ m.store.listed.map (·.index)
        isClosing := true }, []) := by
  have hlinks : (m.store.links.map fun l =>
      if l.index ∈ m.store.listed.map (·.index) then l.close else l) =
      m.store.links.map fun l => if l.isListed then l.close else l :=
    List.map_congr_left fun l hl => by simp only [mem_indices_listed h.store hl]
  have hbegun : m.next .shutDown = some ({ m with
      taken := m.taken ++ m.store.listed.map (·.index), isClosing := true }, []) := rfl
  rw [run_cons_of_quiet hbegun, run_append_of_quiet (run_exits rfl _)]
  simp only [hlinks]
  rfl

/-! ### What is left, and that nobody else is touched -/

/-- Whether a turn is part of the removal of a server. -/
def Turn.Removes (m : Membership) (index : Nat) : Turn → Prop
  | .unlist url => m.listedIndex? url = some index
  | .exit i | .forget i => i = index
  | _ => False

/-- Whether a turn ends the removal of a server. -/
def Turn.Ends (m : Membership) (index : Nat) : Turn → Prop
  | .unlist url => m.listedIndex? url = some index ∧ index ∈ m.taken
  | .forget i => i = index
  | _ => False

/-- A removal ends by forgetting a server that is off the list; if its task has not exited, the
store is shutting down. -/
theorem Orderly.ends (h : Orderly m) (hends : turn.Ends m index)
    (hnext : m.next turn = some (m', calls)) :
    ∃ s : PeerStore, s.views = m.store.views ∧ s.IsOff index ∧
      m' = { m with store := s }.forget index ∧ (index ∈ m.tasks → m.isClosing = true) := by
  cases turn with
  | unlist url =>
    obtain ⟨hlisted, htaken⟩ := hends
    obtain ⟨i, hi, rfl, rfl⟩ := next_unlist_eq_some hnext
    obtain rfl := Option.some.inj (hlisted.symm.trans hi)
    obtain ⟨l, hl, rfl⟩ := listedIndex?_eq_some hlisted
    exact ⟨m.store.updateLink l.index delisted, rfl, isOff_delisted h.store hl,
      unlist_of_taken htaken,
      fun _ => h.isClosing_of_taken hl htaken⟩
  | forget i =>
    obtain rfl : i = index := hends
    obtain ⟨⟨hleaving, hexited⟩, -, rfl⟩ := next_forget_eq_some hnext
    exact ⟨m.store, rfl, h.leaving i hleaving, rfl, fun htask => absurd htask hexited⟩
  | _ => exact hends.elim

theorem Orderly.spares (h : Orderly m) (hremoves : turn.Removes m index)
    (hnext : m.next turn = some (m', calls)) : calls = [] ∧ Spares index m.store m'.store := by
  have hdelisted := Spares.updateLink m.store index (f := delisted) fun _ => rfl
  cases turn with
  | unlist url =>
    obtain ⟨i, hi, rfl, rfl⟩ := next_unlist_eq_some hnext
    obtain rfl := Option.some.inj (hi.symm.trans hremoves)
    obtain ⟨l, hl, rfl⟩ := listedIndex?_eq_some hi
    refine ⟨rfl, ?_⟩
    by_cases htaken : l.index ∈ m.taken
    · obtain ⟨l', hl', -⟩ := isOff_delisted h.store hl
      have hstore := h.store.goesOn (goesOn_delisted h.store l.index)
      rw [unlist_of_taken htaken]
      exact hdelisted.trans (.forgetPeer hstore hl' m.now)
    · rw [unlist_of_not_taken htaken]
      exact hdelisted
  | exit i =>
    obtain rfl : i = index := hremoves
    obtain ⟨rfl, rfl⟩ := next_exit_eq_some hnext
    exact ⟨rfl, .updateLink m.store i fun _ => rfl⟩
  | forget i =>
    obtain rfl : i = index := hremoves
    obtain ⟨⟨hleaving, -⟩, rfl, rfl⟩ := next_forget_eq_some hnext
    obtain ⟨l, hl, -⟩ := h.leaving i hleaving
    exact ⟨rfl, .forgetPeer h.store hl m.now⟩
  | _ => exact hremoves.elim

/-- A snapshot that a task takes up becomes the view of its server. -/
theorem exists_next_snapshot (htask : index ∈ m.tasks) (hstreams : m.streams index = true)
    {n : Notification} (hkey : n.lockKey = m.store.lockKey) :
    ∃ m', m.next (.snapshot index n) = some (m', []) ∧ index ∈ m'.store.views.map (·.1) := by
  refine ⟨_, next_snapshot htask hstreams, ?_⟩
  show index ∈ (m.store.putView index n).views.map (·.1)
  rw [PeerStore.putView, if_pos hkey]
  exact Assoc.mem_keys_put.mpr (.inl rfl)

/-- **A removal that has ended has dropped the view of its server and nothing else of the views,
and has judged the remaining ones. Whatever happens later, no call is made to the server, and there
is no entry for any of its keys. No view of it comes back if the task of its link has exited, as it
has unless shutting down began before; if it has not, each snapshot that its stream brings is a view
of the server again. No turn of a removal calls anything, and none changes a view, a link, an entry
or a delivery that is not the server's. Keys of different servers or of different instances are
different.** -/
theorem removed_leaves_nothing_once_exited {isAddress : String → Bool} {name lockKey : String}
    {urls : List String} {options : ReplicatorOptions} {reconnectMillis : Nat} {house : Gatehouse}
    {now : Int} {s : PeerStore}
    (hstart : startWith isAddress name lockKey urls options reconnectMillis house now = .ok s)
    (hrun : (start s now).run turns = some (m, calls)) :
    (∀ index turn m₁ started, turn.Ends m index → m.next turn = some (m₁, started) →
      m₁.store.views = Assoc.erase index m.store.views ∧ m₁.store.SettledAt m.now ∧
      (∀ later m' calls', m₁.run later = some (m', calls') →
        (∀ c ∈ calls', ¬ IsFor index c) ∧
        (∀ name, m'.store.replicator.entryFor? (replicationKey index name) = none) ∧
        (index ∉ m₁.tasks → index ∉ m'.store.views.map (·.1))) ∧
      (index ∈ m₁.tasks → .shutDown ∈ turns ∧
        ∀ n, m₁.streams index = true → n.lockKey = m₁.store.lockKey →
          ∃ m₂, m₁.next (.snapshot index n) = some (m₂, []) ∧
            index ∈ m₂.store.views.map (·.1))) ∧
    (∀ index turn m₁ started, turn.Removes m index → m.next turn = some (m₁, started) →
      started = [] ∧ Spares index m.store m₁.store) ∧
    ∀ i j a b, replicationKey i a = replicationKey j b ↔ i = j ∧ a = b := by
  have hfirst := Orderly.start hstart
  have horderly := hfirst.run hrun
  refine ⟨fun index turn m₁ started hends hnext => ?_,
    fun index turn m₁ started => horderly.spares, fun _ _ _ _ => replicationKey_inj⟩
  have horderly₁ := horderly.next hnext
  obtain ⟨s', hviews, hoff, rfl, hclosing⟩ := horderly.ends hends hnext
  have herased : (s'.forgetPeer m.now index).views = Assoc.erase index m.store.views :=
    congrArg (Assoc.erase index) hviews
  refine ⟨herased, settledAt_forgetPeer _ _ _, fun later m' calls' hlater => ?_,
    fun htask => ⟨?_, fun n hstreams hkey => exists_next_snapshot htask hstreams hkey⟩⟩
  · obtain ⟨hbare, hcalls⟩ := horderly₁.bare_run (hoff.isBare_forgetPeer m.now) hlater
    have hstore := (horderly₁.run hlater).store
    refine ⟨hcalls, fun name => hstore.entryFor?_of_bare hbare ⟨name, rfl⟩, fun hexited => ?_⟩
    have hsilent : Silent index ({ m with store := s' }.forget index) :=
      ⟨hexited, Assoc.not_mem_keys_erase index _⟩
    exact (hsilent.run horderly₁ hlater).unseen
  · exact hfirst.mem_of_isClosing rfl hrun (hclosing htask)

theorem eq_ok_of_toOption {x : Except PeerStoreError PeerStore} {s : PeerStore}
    (h : x.toOption = some s) : x = .ok s := by
  cases x with
  | error => cases h
  | ok => cases h; rfl

/-- A store reports a status to two servers. While the report to the first one is under way, the
server is removed, and another status is set before the task of its link has exited. -/
def removalTurns : List Turn :=
  [.link 0 .connect, .link 0 .openStream, .link 1 .connect, .link 1 .openStream,
    .snapshot 0 (Evaluations.said true 0), .snapshot 1 (Evaluations.said false 0),
    .setStatus ⟨"b", true, none⟩, .replicate (.resume (.delivery 1)),
    .replicate (.resume (.delivery 1)), .unlist "peer:1", .setStatus ⟨"b", false, none⟩, .exit 0]

/-- The report fails after the removal, and the other server is written to. -/
def laterTurns : List Turn :=
  [.callEnded (.delivery 1) false, .setStatus ⟨"c", true, none⟩, .wait 100000,
    .replicate (.resume (.delivery 1)), .replicate (.resume (.delivery 1)),
    .replicate (.resume (.delivery 3)), .replicate (.resume (.delivery 3))]

theorem removed_leaves_nothing_of_first : ∃ s m calls m₁ started m' calls',
    startWith (fun _ => true) "a" "lock" ["peer:1", "peer:2"] {} 1000 (.fresh {}) 0 = .ok s ∧
    (start s 0).run removalTurns = some (m, calls) ∧
    m.next (.forget 0) = some (m₁, started) ∧ m₁.run laterTurns = some (m', calls') ∧
    (calls.map (·.action.index) = [0] ∧ m.store.house.gate.isBlocked = true) ∧
    (calls'.map (·.action.index) = [1] ∧ m₁.store.house.gate.isBlocked = false) ∧
    (∀ c ∈ calls', ¬ IsFor 0 c) ∧
    (∀ name, m'.store.replicator.entryFor? (replicationKey 0 name) = none) ∧
    0 ∉ m₁.tasks ∧ 0 ∉ m'.store.views.map (·.1) ∧ Spares 0 m.store m₁.store := by
  have hstate : (startWith (fun _ => true) "a" "lock" ["peer:1", "peer:2"] {} 1000 (.fresh {})
      0).toOption.any (fun s => ((start s 0).run removalTurns).any fun x =>
        (x.1.next (.forget 0)).any fun y => (y.1.run laterTurns).any fun z =>
        decide ((x.2.map (·.action.index) = [0] ∧ x.1.store.house.gate.isBlocked = true) ∧
          (z.2.map (·.action.index) = [1] ∧ y.1.store.house.gate.isBlocked = false) ∧
          0 ∉ y.1.tasks)) = true := by
    decide +kernel
  obtain ⟨s, hstart, hstate⟩ := (Option.any_eq_true _ _).mp hstate
  obtain ⟨⟨m, calls⟩, hrun, hstate⟩ := (Option.any_eq_true _ _).mp hstate
  obtain ⟨⟨m₁, started⟩, hnext, hstate⟩ := (Option.any_eq_true _ _).mp hstate
  obtain ⟨⟨m', calls'⟩, hlater, hstate⟩ := (Option.any_eq_true _ _).mp hstate
  obtain ⟨hbefore, hafter, hexited⟩ := of_decide_eq_true hstate
  have hstart := eq_ok_of_toOption hstart
  obtain ⟨hgone, hspares, -⟩ := removed_leaves_nothing_once_exited hstart hrun
  obtain ⟨-, -, hsilent, -⟩ := hgone 0 (.forget 0) m₁ started rfl hnext
  obtain ⟨hcalls, hentries, hviews⟩ := hsilent laterTurns m' calls' hlater
  exact ⟨s, m, calls, m₁, started, m', calls', hstart, hrun, hnext, hlater, hbefore, hafter,
    hcalls, hentries, hexited, hviews hexited, (hspares 0 (.forget 0) m₁ started rfl hnext).2⟩

/-- **A server that is removed while the store shuts down is heard of again.** The removal ends at
once, and the gate is open. The task of the link takes up one more snapshot before it exits: when
everything has stopped, the view is back, and the gate is blocked by it. -/
theorem removed_view_returns : ∃ s m m₁ m',
    startWith (fun _ => true) "a" "lock" ["peer:1"] {} 1000 (.fresh {}) 0 = .ok s ∧
    (start s 0).run [.link 0 .connect, .link 0 .openStream, .shutDown] = some (m, []) ∧
    Turn.Ends m 0 (.unlist "peer:1") ∧ m.next (.unlist "peer:1") = some (m₁, []) ∧
    (m₁.store.views = [] ∧ m₁.store.house.gate.isBlocked = false) ∧
    m₁.run [.snapshot 0 (Evaluations.said true 0), .exit 0, .stopWatcher, .shutDownReplicator] =
      some (m', []) ∧
    m'.store.views.map (·.1) = [0] ∧ m'.store.house.gate.isBlocked = true := by
  have hstate : (startWith (fun _ => true) "a" "lock" ["peer:1"] {} 1000 (.fresh {}) 0).toOption.any
      (fun s => ((start s 0).run [.link 0 .connect, .link 0 .openStream, .shutDown]).any fun x =>
        (x.1.next (.unlist "peer:1")).any fun y =>
        (y.1.run [.snapshot 0 (Evaluations.said true 0), .exit 0, .stopWatcher,
          .shutDownReplicator]).any fun z =>
        decide ((x.2.length = 0 ∧ y.2.length = 0 ∧ z.2.length = 0) ∧
          (x.1.listedIndex? "peer:1" = some 0 ∧ 0 ∈ x.1.taken) ∧
          (y.1.store.views.length = 0 ∧ y.1.store.house.gate.isBlocked = false) ∧
          z.1.store.views.map (·.1) = [0] ∧ z.1.store.house.gate.isBlocked = true)) = true := by
    decide +kernel
  obtain ⟨s, hstart, hstate⟩ := (Option.any_eq_true _ _).mp hstate
  obtain ⟨⟨m, calls⟩, hrun, hstate⟩ := (Option.any_eq_true _ _).mp hstate
  obtain ⟨⟨m₁, started⟩, hnext, hstate⟩ := (Option.any_eq_true _ _).mp hstate
  obtain ⟨⟨m', calls'⟩, hlater, hstate⟩ := (Option.any_eq_true _ _).mp hstate
  obtain ⟨⟨hcalls, hstarted, hcalls'⟩, hends, ⟨hviews, hopen⟩, hback⟩ := of_decide_eq_true hstate
  obtain rfl := List.length_eq_zero_iff.mp hcalls
  obtain rfl := List.length_eq_zero_iff.mp hstarted
  obtain rfl := List.length_eq_zero_iff.mp hcalls'
  exact ⟨s, m, m₁, m', eq_ok_of_toOption hstart, hrun, hends, hnext,
    ⟨List.length_eq_zero_iff.mp hviews, hopen⟩, hlater, hback⟩

end Membership

end Floodgate
