import Floodgate.Proofs.HashStore.Follows
import Floodgate.Simulation.HashScene
/-!
# Floodgate.Proofs.HashStore.Run

**The gate of a store follows the hash.** A `Run` puts together stores around one server, statuses
that are set, fields that others write, the sections of the stores' subscribers and replicators in
any order, and whatever goes wrong: a server that cannot be reached for a while, streams that end
and subscriptions that are refused. Whatever is written is announced on the channel of its lock
key. Handlers that drive a gate themselves are left out, and so is a clock that passes a timer
before its subscriber has looked; other sections may come first at the instant of the timer.

Every store that has not been shut down follows the hash along a run (`Run.following`). Whenever
its subscriber has nothing to do, it holds what the hash says, and its gate says whether a status
that it holds is busy, but for the slack of its timer (`gate_follows_hash`). A subscriber that has
begun to wait less than a slack ago has set its timer anew since, so that a lease may have ended for
twice as long (`lapsed_lease_blocks_while_waiting`).
-/

namespace Floodgate.HashScene

variable {s s' : HashScene} {now later : Int} {place : Nat} {e : HashSceneStore}

/-! ### Sections at a place -/

/-- One section of a subscriber. -/
def listenAt (s : HashScene) (now : Int) (place : Nat) (store : HashStore)
    (wake : HashStore.Wake) : HashScene :=
  let reading := s.server.readAll (HashStore.hashKey store.lockKey)
  let store := store.onWake now s.accepts reading wake
  let s := if wake = .subscribe then s.countSubscription else s
  s.set place store

theorem exists_of_findSome?_zipIdx {α β : Type} {f : α × Nat → Option β} {l : List α} {y : β}
    (h : l.zipIdx.findSome? f = some y) : ∃ x i, l[i]? = some x ∧ f (x, i) = some y := by
  obtain ⟨⟨x, i⟩, hmem, hf⟩ := List.exists_of_findSome?_eq_some h
  exact ⟨x, i, List.mem_zipIdx_iff_getElem?.mp hmem, hf⟩

/-! ### What is kept -/

/-- Every store that has not been shut down follows the hash. -/
def Following (s : HashScene) (now : Int) : Prop :=
  ∀ e ∈ s.stores, e.store.isShutDown = false → e.store.Follows s.server now

namespace Following

theorem set (h : s.Following now) {store : HashStore}
    (hstore : store.isShutDown = false → store.Follows s.server now) :
    (s.set place store).Following now := by
  intro e he hup
  obtain ⟨i, hi⟩ := List.mem_iff_getElem?.mp he
  rw [HashScene.set, List.getElem?_modify] at hi
  obtain ⟨e₀, he₀, heq⟩ := Option.map_eq_some_iff.mp hi
  split at heq
  · cases heq
    exact hstore hup
  · cases heq
    exact h e (List.mem_of_getElem? he₀) hup

theorem mono (h : s.Following now) (hlater : now ≤ later)
    (hdue : ∀ e ∈ s.stores, e.store.isShutDown = false → ∀ due ∈ e.store.timer, later ≤ due) :
    s.Following later :=
  fun e he hup => (h e he hup).mono hlater (hdue e he hup)

theorem start (h : s.Following now) (name lockKey : String) (options : ReplicatorOptions)
    (handlers : Handlers) : (s.start now name lockKey options handlers).2.Following now := by
  intro e he hup
  unfold HashScene.start at he ⊢
  cases hstart : HashStore.start lockKey options (.fresh handlers) now s.accepts
      (s.server.readAll (HashStore.hashKey lockKey)) with
  | ok store =>
    simp only [hstart] at he ⊢
    rcases List.mem_append.mp he with he | he
    · exact h e (List.mem_filter.mp he).1 hup
    · rw [List.mem_singleton.mp he]
      exact .start hstart
  | error error =>
    simp only [hstart] at he ⊢
    cases error <;> exact h e he hup

/-- Writing into a hash tells all stores of its lock key. -/
theorem write (h : s.Following now) (lockKey field value : String) :
    (s.write lockKey field value (HashStore.channelName lockKey)).1.Following now := by
  unfold HashScene.write
  split
  · next server hwrite =>
    intro e he hup
    obtain ⟨e₀, he₀, rfl⟩ := List.mem_map.mp he
    exact (h e₀ he₀ (by simpa using hup)).hear hwrite
  · exact h

theorem server (h : s.Following now) {server : HashServer}
    (hfields : ∀ hash, server.fields hash = s.server.fields hash) :
    ({ s with server } : HashScene).Following now :=
  fun e he hup => (h e he hup).of_fields (hfields _)

theorem breakStreams (h : s.Following now) : s.breakStreams.Following now := by
  intro e he hup
  obtain ⟨e₀, he₀, rfl⟩ := List.mem_map.mp he
  exact (h e₀ he₀ (by simpa using hup)).breakStream

/-- What becomes of a replicator does not matter. -/
theorem set_replicator (h : s.Following now) (hat : s.stores[place]? = some e)
    (replicator : Replicator FieldWrite) :
    (s.set place { e.store with replicator }).Following now :=
  h.set fun hup => (h e (List.mem_of_getElem? hat) hup).aside rfl replicator

theorem carryOut (h : s.Following now) (place : Nat) (c : Call FieldWrite) :
    (HashScene.carryOut now place s c).Following now := by
  unfold HashScene.carryOut
  split
  · exact h
  · next e _ =>
    have hwrite := h.write e.store.lockKey c.action.field (c.action.value c.lease)
    rcases hout : s.write e.store.lockKey c.action.field (c.action.value c.lease)
      (HashStore.channelName e.store.lockKey) with ⟨s₁, ok⟩
    rw [hout] at hwrite
    simp only [hout]
    split
    · exact hwrite
    · next hat =>
      split
      · exact hwrite.set_replicator hat _
      · exact hwrite

theorem carryOutAll (h : s.Following now) (place : Nat) (calls : List (Call FieldWrite)) :
    (calls.foldl (HashScene.carryOut now place) s).Following now := by
  induction calls generalizing s with
  | nil => exact h
  | cons c rest ih => exact ih (h.carryOut place c)

theorem listenAt (h : s.Following now) (hat : s.stores[place]? = some e)
    {wake : HashStore.Wake} (hready : e.store.isReady now wake = true) :
    (s.listenAt now place e.store wake).Following now := by
  have hstore : (e.store.onWake now s.accepts
      (s.server.readAll (HashStore.hashKey e.store.lockKey)) wake).isShutDown = false →
      (e.store.onWake now s.accepts
        (s.server.readAll (HashStore.hashKey e.store.lockKey)) wake).Follows s.server now := by
    intro hup
    rw [HashStore.isShutDown_onWake] at hup
    exact (h e (List.mem_of_getElem? hat) hup).onWake hup hready s.accepts
  unfold HashScene.listenAt
  split
  · exact set (s := s.countSubscription) h hstore
  · exact h.set hstore

theorem handleAt (h : s.Following now) (hat : s.stores[place]? = some e) {house : Gatehouse}
    {run : HandlerRun} {notes : List HandlerNote}
    (hrun : e.store.house.runNext = some (house, run, notes))
    (hpassive : run.handler.isPassive = true) :
    (s.set place { e.store with house }).Following now :=
  h.set fun hup => (h e (List.mem_of_getElem? hat) hup).aside
    (Gatehouse.gate_of_runNext hrun hpassive) e.store.replicator

/-- Nothing is said of a store that has been shut down. -/
theorem shutDown (h : s.Following now) (name : String) : (s.shutDown now name).Following now := by
  unfold HashScene.shutDown
  split
  · next place store _ =>
    refine h.set fun hup => ?_
    rw [HashStore.isShutDown_shutDown] at hup
    cases hup
  · exact h

theorem drop (h : s.Following now) (name : String) : (s.drop now name).Following now := by
  intro e he hup
  obtain ⟨e₀, he₀, rfl⟩ := List.mem_map.mp he
  have hstore : (if e₀.name = name then { e₀ with isDropped := true } else e₀).store =
      e₀.store := by
    split <;> rfl
  rw [hstore] at hup ⊢
  exact h.shutDown name e₀ he₀ hup

theorem setStatus (h : s.Following now) {name instanceName : String} {isBusy : Bool}
    {lockData : Option String} {result : Except StoreError Unit}
    (hset : s.setStatus name instanceName isBusy lockData = some (result, s')) :
    s'.Following now := by
  obtain ⟨⟨place, store⟩, hfind, hset⟩ := Option.map_eq_some_iff.mp hset
  obtain ⟨e, i, hat, hfound⟩ := exists_of_findSome?_zipIdx hfind
  simp only at hfound
  split at hfound
  · cases hfound
    obtain ⟨replicator, hstore⟩ := e.store.exists_setStatus_eq instanceName isBusy lockData
    have hs' : s.set place (e.store.setStatus instanceName isBusy lockData).2 = s' :=
      congrArg Prod.snd hset
    rw [← hs', hstore]
    exact h.set_replicator hat replicator
  · cases hfound

end Following

/-! ### Runs -/

/-- The runs of stores around one server, up to an instant, in which everything that is written is
announced on the channel of its lock key and nobody else drives the gates. -/
inductive Run : Int → HashScene → Prop
  /-- There is a server, with nothing written. -/
  | empty (now : Int) : Run now .empty
  /-- Time passes, but no timer of a store that has not been shut down. -/
  | wait {now later : Int} {s : HashScene} (h : Run now s) (hlater : now ≤ later)
      (hdue : ∀ e ∈ s.stores, e.store.isShutDown = false → ∀ due ∈ e.store.timer, later ≤ due) :
      Run later s
  /-- A store is started, or fails to start. -/
  | start {now : Int} {s : HashScene} (h : Run now s) (name lockKey : String)
      (options : ReplicatorOptions) (handlers : Handlers) :
      Run now (s.start now name lockKey options handlers).2
  /-- A status is set through a store. -/
  | setStatus {now : Int} {s s' : HashScene} {name instanceName : String} {isBusy : Bool}
      {lockData : Option String} {result : Except StoreError Unit} (h : Run now s)
      (hset : s.setStatus name instanceName isBusy lockData = some (result, s')) : Run now s'
  /-- Somebody else writes a field. -/
  | write {now : Int} {s : HashScene} (h : Run now s) (lockKey field value : String) :
      Run now (s.write lockKey field value (HashStore.channelName lockKey)).1
  /-- The server goes away or comes back. -/
  | outage {now : Int} {s : HashScene} (h : Run now s) (isAvailable : Bool) :
      Run now { s with server := { s.server with isAvailable } }
  /-- New subscriptions begin or cease to be refused. -/
  | refuse {now : Int} {s : HashScene} (h : Run now s) (refuses : Bool) :
      Run now { s with refuses }
  /-- All streams end. -/
  | breakStreams {now : Int} {s : HashScene} (h : Run now s) : Run now s.breakStreams
  /-- One stream ends. -/
  | breakStream {now : Int} {s : HashScene} {place : Nat} {e : HashSceneStore} (h : Run now s)
      (hat : s.stores[place]? = some e) : Run now (s.set place e.store.breakStream)
  /-- A subscriber carries out a section. -/
  | listen {now : Int} {s : HashScene} {place : Nat} {e : HashSceneStore} {wake : HashStore.Wake}
      (h : Run now s) (hat : s.stores[place]? = some e)
      (hready : e.store.isReady now wake = true) : Run now (s.listenAt now place e.store wake)
  /-- A replicator carries out a section, with the calls that it makes. -/
  | deliver {now : Int} {s : HashScene} {place : Nat} {e : HashSceneStore}
      {event : Replicator.Event FieldWrite} {replicator : Replicator FieldWrite}
      {calls : List (Call FieldWrite)} (h : Run now s) (hat : s.stores[place]? = some e)
      (hstep : e.store.replicator.step now event = some (replicator, calls)) :
      Run now (calls.foldl (carryOut now place) (s.set place { e.store with replicator }))
  /-- A handler runs, and leaves the gate alone. -/
  | handle {now : Int} {s : HashScene} {place : Nat} {e : HashSceneStore} {house : Gatehouse}
      {run : HandlerRun} {notes : List HandlerNote} (h : Run now s)
      (hat : s.stores[place]? = some e)
      (hrun : e.store.house.runNext = some (house, run, notes))
      (hpassive : run.handler.isPassive = true) : Run now (s.set place { e.store with house })
  /-- A store is shut down. -/
  | shutDown {now : Int} {s : HashScene} (h : Run now s) (name : String) :
      Run now (s.shutDown now name)
  /-- A store is dropped. -/
  | drop {now : Int} {s : HashScene} (h : Run now s) (name : String) : Run now (s.drop now name)

theorem Run.following (h : Run now s) : s.Following now := by
  induction h with
  | empty =>
    intro e he
    cases he
  | wait _ hlater hdue ih => exact ih.mono hlater hdue
  | start _ name lockKey options handlers ih => exact ih.start name lockKey options handlers
  | setStatus _ hset ih => exact ih.setStatus hset
  | write _ lockKey field value ih => exact ih.write lockKey field value
  | outage _ isAvailable ih => exact ih.server fun _ => rfl
  | refuse _ refuses ih => exact ih
  | breakStreams _ ih => exact ih.breakStreams
  | breakStream _ hat ih =>
    refine ih.set fun hup => ?_
    rw [HashStore.isShutDown_breakStream] at hup
    exact (ih _ (List.mem_of_getElem? hat) hup).breakStream
  | listen _ hat hready ih => exact ih.listenAt hat hready
  | deliver _ hat _ ih => exact (ih.set_replicator hat _).carryOutAll _ _
  | handle _ hat hrun hpassive ih => exact ih.handleAt hat hrun hpassive
  | shutDown _ name ih => exact ih.shutDown name
  | drop _ name ih => exact ih.drop name

/-! ### Carrying out what can be done -/

theorem exists_of_listen (h : s.listen now = some s') :
    ∃ place e wake, s.stores[place]? = some e ∧ e.store.wake? now = some wake ∧
      s' = s.listenAt now place e.store wake := by
  obtain ⟨⟨store, place, wake⟩, hfind, rfl⟩ := Option.map_eq_some_iff.mp h
  obtain ⟨e, _, hat, hfound⟩ := exists_of_findSome?_zipIdx hfind
  obtain ⟨_, hwake, heq⟩ := Option.map_eq_some_iff.mp hfound
  cases heq
  exact ⟨_, e, _, hat, hwake, rfl⟩

theorem Run.listen_eq_some (h : Run now s) (hlisten : s.listen now = some s') : Run now s' := by
  obtain ⟨place, e, wake, hat, hwake, rfl⟩ := exists_of_listen hlisten
  exact h.listen hat (HashStore.isReady_of_wake? hwake)

theorem exists_of_deliver (h : s.deliver now = some s') :
    ∃ (place : Nat) (e : HashSceneStore) (event : Replicator.Event FieldWrite)
      (replicator : Replicator FieldWrite) (calls : List (Call FieldWrite)),
      s.stores[place]? = some e ∧ event ∈ e.store.replicator.candidates ∧
      e.store.replicator.step now event = some (replicator, calls) ∧
      s' = calls.foldl (carryOut now place) (s.set place { e.store with replicator }) := by
  obtain ⟨⟨store, place, replicator, calls⟩, hfind, rfl⟩ := Option.map_eq_some_iff.mp h
  obtain ⟨e, _, hat, hfound⟩ := exists_of_findSome?_zipIdx hfind
  obtain ⟨_, hwork, heq⟩ := Option.map_eq_some_iff.mp hfound
  cases heq
  obtain ⟨event, hevent, hstep⟩ := List.exists_of_findSome?_eq_some hwork
  exact ⟨place, e, event, replicator, calls, hat, hevent, hstep, rfl⟩

theorem exists_of_handle {seen : Seen} (h : s.handle = some (s', seen)) :
    ∃ (place : Nat) (e : HashSceneStore) (house : Gatehouse) (run : HandlerRun)
      (notes : List HandlerNote), s.stores[place]? = some e ∧
      e.store.house.runNext = some (house, run, notes) ∧
      s' = s.set place { e.store with house } := by
  obtain ⟨⟨e, place, house, run, notes⟩, hfind, heq⟩ := Option.map_eq_some_iff.mp h
  cases heq
  obtain ⟨_, _, hat, hfound⟩ := exists_of_findSome?_zipIdx hfind
  obtain ⟨_, hrun, heq⟩ := Option.map_eq_some_iff.mp hfound
  cases heq
  exact ⟨place, e, house, run, notes, hat, hrun, rfl⟩

/-- One stretch of work is a section of a replicator, of a subscriber, or a handler run. -/
theorem work_cases {seen : Seen} (h : s.work now = some (s', seen)) :
    s.deliver now = some s' ∨ s.listen now = some s' ∨ s.handle = some (s', seen) := by
  simp only [HashScene.work, Option.orElse_eq_orElse, Option.orElse_eq_or, Option.or_eq_some_iff,
    Option.map_eq_some_iff, Prod.mk.injEq] at h
  rcases h with ⟨_, hdeliver, rfl, -⟩ | ⟨-, ⟨_, hlisten, rfl, -⟩ | ⟨-, hhandle⟩⟩
  · exact .inl hdeliver
  · exact .inr (.inl hlisten)
  · exact .inr (.inr hhandle)

theorem Run.deliver_eq_some (h : Run now s) (hdeliver : s.deliver now = some s') : Run now s' := by
  obtain ⟨place, e, event, replicator, calls, hat, -, hstep, rfl⟩ := exists_of_deliver hdeliver
  exact h.deliver hat hstep

theorem Run.handle_eq_some (h : Run now s) {seen : Seen} (hhandle : s.handle = some (s', seen))
    (hpassive : ∀ e ∈ s.stores, ∀ run ∈ e.store.house.started, run.handler.isPassive = true) :
    Run now s' := by
  obtain ⟨place, e, house, run, notes, hat, hrun, rfl⟩ := exists_of_handle hhandle
  exact h.handle hat hrun
    (hpassive e (List.mem_of_getElem? hat) run (Gatehouse.mem_started_of_runNext hrun))

/-- Whatever the tasks of the stores do next is part of a run, if no handler drives a gate. -/
theorem Run.work (h : Run now s) {seen : Seen} (hwork : s.work now = some (s', seen))
    (hpassive : ∀ e ∈ s.stores, ∀ run ∈ e.store.house.started, run.handler.isPassive = true) :
    Run now s' := by
  rcases work_cases hwork with hdeliver | hlisten | hhandle
  · exact h.deliver_eq_some hdeliver
  · exact h.listen_eq_some hlisten
  · exact h.handle_eq_some hhandle hpassive

/-! ### What the gate says -/

/-- **Whenever the subscriber of a store that has not been shut down has nothing to do, it holds
what the hash says if its stream is open and its last reading succeeded; an open gate says that no
status held is busy; and a blocked gate says that some status held is busy under no lease or one
that ended less than the slack ago, or less than twice the slack ago if the subscriber began to wait
for its next attempt to subscribe less than the slack ago.** -/
theorem gate_follows_hash (h : Run now s) (he : e ∈ s.stores)
    (hup : e.store.isShutDown = false) (hsettled : e.store.wake? now = none) :
    ((∃ unread, e.store.subscription = .streaming unread) → e.store.isCurrent = true →
      e.store.statuses =
        HashStore.statusesOf (s.server.fields (HashStore.hashKey e.store.lockKey))) ∧
    (e.store.house.gate.isBlocked = false → ∀ x ∈ e.store.statuses, x.isBusyAt now = false) ∧
    (e.store.house.gate.isBlocked = true →
      (∃ x ∈ e.store.statuses, x.isBusyAt (now - Verdict.expirySlack) = true) ∨
        (∃ since ∈ e.store.waitingSince?, now < since + Verdict.expirySlack) ∧
          ∃ x ∈ e.store.statuses, x.isBusyAt (now - 2 * Verdict.expirySlack) = true) := by
  have hfollows := h.following e he hup
  have hready := HashStore.wake?_eq_none_iff.mp hsettled
  refine ⟨fun ⟨unread, hstream⟩ => ?_, fun hopen x hx => hfollows.not_busy_of_opened hopen hx, ?_⟩
  · have hunread : ¬ 0 < unread := by simpa [HashStore.isReady, hstream] using hready .announcement
    rw [Nat.eq_zero_of_not_pos hunread] at hstream
    exact hfollows.current hstream
  · refine hfollows.busy_of_blocked ?_
    cases hsub : e.store.subscription with
    | stopped => exact absurd hsub hfollows.goesOn
    | _ => simpa [HashStore.isReady, hsub] using hready .timer

/-- A store that holds a lease that ends at 100. -/
def leasedScene : HashScene :=
  let s := (HashScene.empty.start 0 "s" "lock" {} {}).2
  let s := (s.write "lock" "b" "1;job;100" (HashStore.channelName "lock")).1
  (s.listen 0).getD s

/-- The stream of that store ends shortly after the lease, and the store begins to wait. -/
def lapsedScene : HashScene :=
  let s := leasedScene.breakStreams
  (s.listen 103).getD s

theorem Run.listen_getD (h : Run now s) : Run now ((s.listen now).getD s) := by
  cases hlisten : s.listen now with
  | none => exact h
  | some s' => exact h.listen_eq_some hlisten

theorem Run.wait_of_all (h : Run now s) (hlater : now ≤ later)
    (hdue : s.stores.all (fun e => e.store.timer.all (later ≤ ·)) = true) : Run later s := by
  refine h.wait hlater fun e he _ due htimer => ?_
  have hall := List.all_eq_true.mp hdue e he
  rw [show e.store.timer = some due from htimer] at hall
  simpa using hall

theorem run_leasedScene : Run 0 leasedScene :=
  (((Run.empty 0).start "s" "lock" {} {}).write "lock" "b" "1;job;100").listen_getD

theorem run_lapsedScene : Run 103 lapsedScene :=
  (run_leasedScene.wait_of_all (by decide) (by decide)).breakStreams.listen_getD

/-- Within the slack after the end of the lease the gate is still blocked. -/
theorem gate_follows_hash_within_slack : ∃ e ∈ leasedScene.stores, Run 104 leasedScene ∧
    e.store.isShutDown = false ∧ e.store.wake? 104 = none ∧
    e.store.statuses =
      HashStore.statusesOf (leasedScene.server.fields (HashStore.hashKey e.store.lockKey)) ∧
    e.store.house.gate.isBlocked = true ∧ (∀ x ∈ e.store.statuses, x.isBusyAt 104 = false) ∧
    ∃ x ∈ e.store.statuses, x.isBusyAt (104 - Verdict.expirySlack) = true := by
  have hstate : leasedScene.stores.any (fun e => !e.store.isShutDown &&
      (e.store.wake? 104).isNone && e.store.subscription == .streaming 0 && e.store.isCurrent &&
      e.store.house.gate.isBlocked && e.store.statuses.all (!·.isBusyAt 104)) = true := by decide
  obtain ⟨e, he, hstate⟩ := List.any_eq_true.mp hstate
  simp only [Bool.and_eq_true, Bool.not_eq_true', Option.isNone_iff_eq_none, beq_iff_eq,
    List.all_eq_true] at hstate
  obtain ⟨⟨⟨⟨⟨hup, hsettled⟩, hstream⟩, hcurrent⟩, hblocked⟩, hlapsed⟩ := hstate
  have hrun : Run 104 leasedScene := run_leasedScene.wait_of_all (by decide) (by decide)
  obtain ⟨hholds, -, hbusy⟩ := gate_follows_hash hrun he hup hsettled
  refine ⟨e, he, hrun, hup, hsettled, hholds ⟨0, hstream⟩ hcurrent, hblocked, hlapsed, ?_⟩
  rcases hbusy hblocked with hbusy | ⟨⟨since, hsince, -⟩, -⟩
  · exact hbusy
  · rw [HashStore.waitingSince?, hstream] at hsince
    cases hsince

/-- A store that has noticed the end of its stream shortly after the lease keeps its gate blocked
for longer than the slack. -/
theorem lapsed_lease_blocks_while_waiting : ∃ e ∈ lapsedScene.stores, Run 106 lapsedScene ∧
    lapsedScene.work 106 = none ∧ e.store.isShutDown = false ∧
    e.store.house.gate.isBlocked = true ∧
    ∀ x ∈ e.store.statuses, x.isBusyAt (106 - Verdict.expirySlack) = false := by
  have hstate : lapsedScene.stores.any (fun e => !e.store.isShutDown &&
      e.store.house.gate.isBlocked &&
      e.store.statuses.all (!·.isBusyAt (106 - Verdict.expirySlack))) = true := by decide
  have hsettled : (lapsedScene.work 106).isNone = true := by decide
  obtain ⟨e, he, hstate⟩ := List.any_eq_true.mp hstate
  simp only [Bool.and_eq_true, Bool.not_eq_true', List.all_eq_true] at hstate
  obtain ⟨⟨hup, hblocked⟩, hlapsed⟩ := hstate
  have hrun : Run 106 lapsedScene := run_lapsedScene.wait_of_all (by decide) (by decide)
  exact ⟨e, he, hrun, Option.isNone_iff_eq_none.mp hsettled, hup, hblocked, hlapsed⟩

end Floodgate.HashScene
