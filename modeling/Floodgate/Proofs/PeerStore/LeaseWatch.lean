import Floodgate.Proofs.PeerStore.Judged
/-!
# Floodgate.Proofs.PeerStore.LeaseWatch

**The gate of a store follows the leases, also when nobody says anything any more.** A `Run` of a
store puts together snapshots of any server for any lock key, removals of servers, statuses that are
set, whatever happens on the links, and the store's own sections, in any order and at any instants.
Only shutting down is left out, and handlers that drive the gate themselves.

Views are judged in the section that changes them, so at every instant the gate and the timer are
what judging the present views made of them some time ago (`Run.watched`). While the gate is open,
no merged status is busy. While it is blocked and the watcher has nothing to do, some merged status
is busy but for the slack, and once there is none such, the watcher's own section opens the gate
(`gate_follows_leases`).

Design points:

* **Time may go on past a timer.** A run need not let the watcher work at the instant of its timer;
  that the watcher has nothing to do is asked for only where the slack is spoken of.
* **Removing a server is two sections,** taking it off the list and forgetting what it said, so that
  anything may happen while its link is being closed.
-/

namespace Floodgate.PeerStore

variable {s s' s'' : PeerStore} {now later judged : Int} {x : Status}

/-! ### What has nothing to do with the gate -/

/-- What an operation leaves alone that neither changes the views nor judges them. -/
structure Aside (s s' : PeerStore) : Prop where
  views : s'.views = s.views
  gate : s'.house.gate = s.house.gate
  timer : s'.timer = s.timer
  isStopped : s'.isStopped = s.isStopped

theorem Aside.refl (s : PeerStore) : Aside s s := ⟨rfl, rfl, rfl, rfl⟩

theorem Aside.trans (h : Aside s s') (h' : Aside s' s'') : Aside s s'' where
  views := h'.views.trans h.views
  gate := h'.gate.trans h.gate
  timer := h'.timer.trans h.timer
  isStopped := h'.isStopped.trans h.isStopped

theorem Aside.foldl {β : Type} {f : PeerStore → β → PeerStore} (hf : ∀ s y, Aside s (f s y))
    (l : List β) (s : PeerStore) : Aside s (l.foldl f s) := by
  induction l generalizing s with
  | nil => exact .refl s
  | cons y rest ih => exact (hf s y).trans (ih (f s y))

theorem aside_updateLink (s : PeerStore) (index : Nat) (f : PeerLink → PeerLink) :
    Aside s (s.updateLink index f) := ⟨rfl, rfl, rfl, rfl⟩

theorem aside_setStatus (s : PeerStore) (status : ReportedStatus) :
    Aside s (s.setStatus status).2 := by
  unfold setStatus
  split
  · exact .refl s
  · split
    · exact .refl s
    · have hset : Aside s { s with lastStatus := some status } := ⟨rfl, rfl, rfl, rfl⟩
      have hreport : ∀ s l, Aside s (report s status l) := fun _ _ => ⟨rfl, rfl, rfl, rfl⟩
      exact hset.trans (.foldl hreport s.listed _)

theorem aside_send (s : PeerStore) (write : PeerWrite) (lease : Timestamp) :
    Aside s (s.send write lease).2 := by
  unfold send
  split
  · exact .refl s
  · split
    · exact aside_updateLink s _ _
    · exact .refl s

theorem aside_carryOut (now : Int) (s : PeerStore) (c : Call PeerWrite) :
    Aside s (carryOut now s c) := by
  have hsent := aside_send s c.action c.lease
  rcases hsend : s.send c.action c.lease with ⟨result, s₁⟩
  rw [hsend] at hsent
  simp only [carryOut, hsend]
  split
  · exact hsent.trans ⟨rfl, rfl, rfl, rfl⟩
  · exact hsent

theorem aside_unlist {url : String} {index : Nat} (h : s.unlist url = some (s', index)) :
    Aside s s' := by
  obtain ⟨l, -, heq⟩ := Option.map_eq_some_iff.mp h
  cases heq
  exact aside_updateLink s _ _

/-- What a store does by itself has nothing to do with the gate, unless the watcher does it. -/
theorem aside_or_reevaluate {event : Event} (hstep : s.step now event = some s') :
    Aside s s' ∨ s' = s.reevaluate now := by
  cases event with
  | replicate event =>
    simp only [step, Option.ite_none_right_eq_some, Option.map_eq_some_iff] at hstep
    obtain ⟨-, ⟨r, calls⟩, -, rfl⟩ := hstep
    have hset : Aside s { s with replicator := r } := ⟨rfl, rfl, rfl, rfl⟩
    exact .inl (hset.trans (.foldl (aside_carryOut now) calls _))
  | watch =>
    simp only [step, Option.ite_none_right_eq_some, Option.some.injEq] at hstep
    exact .inr hstep.2.symm
  | resume index =>
    simp only [step, Option.bind_eq_some_iff, Option.map_eq_some_iff] at hstep
    obtain ⟨l, -, l', -, rfl⟩ := hstep
    exact .inl (aside_updateLink s _ _)

/-- Forgetting a server ends with judging what is left. -/
theorem exists_forgetPeer_eq (s : PeerStore) (now : Int) (index : Nat) :
    ∃ s' : PeerStore, s.forgetPeer now index = s'.reevaluate now ∧
      s'.isStopped = s.isStopped :=
  ⟨_, rfl, rfl⟩

/-! ### What is kept -/

/-- The watcher is there, and the gate and its timer are what judging the views made of them. -/
structure Watched (s : PeerStore) (now : Int) : Prop where
  isStopped : s.isStopped = false
  judged : ∃ judged ≤ now, s.JudgedAt judged

theorem Watched.mono (h : s.Watched now) (hlater : now ≤ later) : s.Watched later where
  isStopped := h.isStopped
  judged :=
    have ⟨judged, hle, hat⟩ := h.judged
    ⟨judged, Int.le_trans hle hlater, hat⟩

theorem Watched.aside (h : s.Watched now) (ha : Aside s s') : s'.Watched now where
  isStopped := ha.isStopped.trans h.isStopped
  judged := by
    obtain ⟨judged, hle, hat⟩ := h.judged
    have hverdict : s'.verdict judged = s.verdict judged := by
      rw [PeerStore.verdict, PeerStore.verdict, merged, merged, ha.views]
    refine ⟨judged, hle, ?_, ?_⟩
    · rw [ha.gate, hverdict]
      exact hat.isBlocked
    · rw [ha.timer, hverdict]
      exact hat.timer

/-- Whatever has become of the views, judging them sets the gate and the timer. -/
theorem Watched.reevaluate (hstopped : s.isStopped = false) (now : Int) :
    (s.reevaluate now).Watched now :=
  ⟨hstopped, now, Int.le_refl now, .reevaluate hstopped now⟩

theorem Watched.start {isAddress : String → Bool} {instanceName lockKey : String}
    {urls : List String} {options : ReplicatorOptions} {reconnectMillis : Nat} {house : Gatehouse}
    (hstart : startWith isAddress instanceName lockKey urls options reconnectMillis house now =
      .ok s)
    (hopen : house.gate.isBlocked = false) : s.Watched now := by
  obtain ⟨-, -, plan, rfl⟩ := start_eq_ok hstart
  exact ⟨rfl, now, Int.le_refl now, hopen, rfl⟩

/-! ### Runs -/

/-- The runs of a store that nobody shuts down and whose gate, open at the start, nobody else
drives, up to an instant. -/
inductive Run : Int → PeerStore → Prop
  /-- The store starts with an open gate. -/
  | start {isAddress : String → Bool} {instanceName lockKey : String} {urls : List String}
      {options : ReplicatorOptions} {reconnectMillis : Nat} {house : Gatehouse} {now : Int}
      {s : PeerStore}
      (hstart : startWith isAddress instanceName lockKey urls options reconnectMillis house now =
        .ok s)
      (hopen : house.gate.isBlocked = false) : Run now s
  /-- Time passes. -/
  | wait {now later : Int} {s : PeerStore} (h : Run now s) (hlater : now ≤ later) : Run later s
  /-- A server sends a snapshot, of the store's lock key or of another one. -/
  | snapshot {now : Int} {s : PeerStore} (h : Run now s) (index : Nat) (n : Notification) :
      Run now (s.applySnapshot now index n)
  /-- A server is taken off the list. -/
  | unlist {now : Int} {s s' : PeerStore} {url : String} {index : Nat} (h : Run now s)
      (hunlist : s.unlist url = some (s', index)) : Run now s'
  /-- What a server has said is forgotten. -/
  | forget {now : Int} {s : PeerStore} (h : Run now s) (index : Nat) :
      Run now (s.forgetPeer now index)
  /-- Somebody asks for the views to be judged. -/
  | reevaluate {now : Int} {s : PeerStore} (h : Run now s) : Run now (s.reevaluate now)
  /-- A status is set. -/
  | setStatus {now : Int} {s : PeerStore} (h : Run now s) (status : ReportedStatus) :
      Run now (s.setStatus status).2
  /-- Something happens on a link. -/
  | link {now : Int} {s : PeerStore} (h : Run now s) (index : Nat) (f : PeerLink → PeerLink) :
      Run now (s.updateLink index f)
  /-- The store goes on by itself. -/
  | step {now : Int} {s s' : PeerStore} {event : Event} (h : Run now s)
      (hstep : s.step now event = some s') : Run now s'
  /-- A handler runs, and leaves the gate alone. -/
  | handle {now : Int} {s : PeerStore} {house : Gatehouse} {run : HandlerRun}
      {notes : List HandlerNote} (h : Run now s)
      (hrun : s.house.runNext = some (house, run, notes))
      (hpassive : run.handler.isPassive = true) :
      Run now { s with house }

theorem Run.watched (h : Run now s) : s.Watched now := by
  induction h with
  | start hstart hopen => exact .start hstart hopen
  | wait _ hlater ih => exact ih.mono hlater
  | @snapshot now s _ index n ih =>
    refine .reevaluate ?_ now
    unfold putView
    split <;> exact ih.isStopped
  | unlist _ hunlist ih => exact ih.aside (aside_unlist hunlist)
  | @forget now s _ index ih =>
    obtain ⟨s', heq, hstopped⟩ := exists_forgetPeer_eq s now index
    exact heq ▸ .reevaluate (hstopped.trans ih.isStopped) now
  | @reevaluate now s _ ih => exact .reevaluate ih.isStopped now
  | @setStatus now s _ status ih => exact ih.aside (aside_setStatus s status)
  | @link now s _ index f ih => exact ih.aside (aside_updateLink s index f)
  | @step now s _ _ _ hstep ih =>
    rcases aside_or_reevaluate hstep with ha | rfl
    · exact ih.aside ha
    · exact .reevaluate ih.isStopped now
  | handle _ hrun hpassive ih =>
    exact ih.aside ⟨rfl, Gatehouse.gate_of_runNext hrun hpassive, rfl, rfl⟩

/-- Removing a server, as one operation. -/
theorem Run.removePeer (h : Run now s) (url : String) : Run now (s.removePeer now url).2 := by
  unfold PeerStore.removePeer
  split
  · next s' index hunlist => exact (h.unlist hunlist).forget index
  · exact h

/-! ### What the gate says -/

theorem step_watch_eq_none_iff : s.step now .watch = none ↔ s.timerFired now = false := by
  simp [step]

/-- An open gate says that no merged status is busy. -/
theorem Watched.not_busy_of_opened (h : s.Watched now) (hopen : s.house.gate.isBlocked = false)
    (hx : x ∈ s.merged) : x.isBusyAt now = false := by
  obtain ⟨judged, hle, hat⟩ := h.judged
  cases hbusy : x.isBusyAt now with
  | false => rfl
  | true => rw [hat.blocked_of_busy hle hx hbusy] at hopen; cases hopen

/-- A blocked gate says that a merged status is busy, but for the slack. -/
theorem Watched.busy_of_blocked (h : s.Watched now) (hfired : s.timerFired now = false)
    (hblocked : s.house.gate.isBlocked = true) :
    ∃ x ∈ s.merged, x.isBusyAt (now - Verdict.expirySlack) = true := by
  obtain ⟨judged, hle, hat⟩ := h.judged
  obtain ⟨x, hx, hbusy⟩ := hat.isBlocked_iff.mp hblocked
  exact ⟨x, hx, hat.busy_within_slack hfired hx hbusy⟩

/-- When the leases of all merged statuses have ended for as long as the slack, the watcher sees to
it that the gate is open. -/
theorem Watched.opened_of_lapsed (h : s.Watched now)
    (hlapsed : ∀ x ∈ s.merged, x.isBusyAt (now - Verdict.expirySlack) = false) :
    ((s.step now .watch).getD s).house.gate.isBlocked = false := by
  cases hfired : s.timerFired now with
  | false =>
    rw [step_watch_eq_none_iff.mpr hfired, Option.getD_none]
    cases hblocked : s.house.gate.isBlocked with
    | false => rfl
    | true =>
      obtain ⟨x, hx, hbusy⟩ := h.busy_of_blocked hfired hblocked
      rw [hlapsed x hx] at hbusy
      cases hbusy
  | true =>
    rw [step, if_pos hfired, Option.getD_some]
    have hat := JudgedAt.reevaluate h.isStopped now
    cases hblocked : (s.reevaluate now).house.gate.isBlocked with
    | false => rfl
    | true =>
      obtain ⟨x, hx, hbusy⟩ := hat.isBlocked_iff.mp hblocked
      have hearlier := Status.isBusyAt_of_le hbusy (Int.sub_le_self now (by decide) :
        now - Verdict.expirySlack ≤ now)
      rw [hlapsed x hx] at hearlier
      cases hearlier

/-- **Whenever the watcher has nothing to do, an open gate says that no merged status is busy, and a
blocked gate that some merged status is busy under no lease or one that ended less than the slack
ago. If nobody says anything any more, the gate opens when all leases have ended for as long as the
slack.** -/
theorem gate_follows_leases (h : Run now s) (hsettled : s.step now .watch = none) :
    (s.house.gate.isBlocked = false → ∀ x ∈ s.merged, x.isBusyAt now = false) ∧
    (s.house.gate.isBlocked = true →
      ∃ x ∈ s.merged, x.isBusyAt (now - Verdict.expirySlack) = true) ∧
    ∀ later, now ≤ later → (∀ x ∈ s.merged, x.isBusyAt (later - Verdict.expirySlack) = false) →
      ((s.step later .watch).getD s).house.gate.isBlocked = false := by
  refine ⟨fun hopen x hx => h.watched.not_busy_of_opened hopen hx, ?_, ?_⟩
  · exact h.watched.busy_of_blocked (step_watch_eq_none_iff.mp hsettled)
  · intro later hlater hlapsed
    exact (h.watched.mono hlater).opened_of_lapsed hlapsed

/-- A store that has heard of a lease that ends at 100, has heard of another lock key since, and has
lost the server that spoke of that. -/
def leasedStore : Option PeerStore := do
  let .ok s := startWith (fun _ => true) "a" "lock" ["peer:1", "peer:2"] {} 1000 (.fresh {}) 0
    | none
  let s := s.applySnapshot 0 0 ⟨"lock", [("b", ⟨true, "job", 100⟩), ("c", ⟨false, "", 0⟩)]⟩
  let s := s.applySnapshot 3 1 ⟨"other", [("d", ⟨true, "", 0⟩)]⟩
  return (s.removePeer 7 "peer:2").2

theorem run_leasedStore (hs : leasedStore = some s) : Run 7 s := by
  unfold leasedStore at hs
  split at hs
  · next s₀ hstart =>
    cases hs
    have hheard := (Run.start hstart rfl).snapshot 0
      ⟨"lock", [("b", ⟨true, "job", 100⟩), ("c", ⟨false, "", 0⟩)]⟩
    have hother := (hheard.wait (by decide : (0 : Int) ≤ 3)).snapshot 1
      ⟨"other", [("d", ⟨true, "", 0⟩)]⟩
    exact (hother.wait (by decide : (3 : Int) ≤ 7)).removePeer "peer:2"
  · cases hs

/-- Within the slack after the end of the lease the gate is still blocked, and then it opens. -/
theorem gate_follows_leases_within_slack :
    ∃ s, leasedStore = some s ∧ Run 104 s ∧ s.step 104 .watch = none ∧
      s.house.gate.isBlocked = true ∧ (∀ x ∈ s.merged, x.isBusyAt 104 = false) ∧
      (∃ x ∈ s.merged, x.isBusyAt (104 - Verdict.expirySlack) = true) ∧
      (∀ x ∈ s.merged, x.isBusyAt (105 - Verdict.expirySlack) = false) ∧
      ((s.step 105 .watch).getD s).house.gate.isBlocked = false := by
  have hstate : leasedStore.any (fun s => !s.timerFired 104 && s.house.gate.isBlocked &&
      s.merged.all (fun x => !x.isBusyAt 104 && !x.isBusyAt (105 - Verdict.expirySlack))) =
        true := by decide
  obtain ⟨s, hs, hstate⟩ := (Option.any_eq_true _ _).mp hstate
  simp only [Bool.and_eq_true, Bool.not_eq_true', List.all_eq_true] at hstate
  obtain ⟨⟨hfired, hblocked⟩, hlapsed⟩ := hstate
  have hrun : Run 104 s := (run_leasedStore hs).wait (by decide)
  have hsettled := step_watch_eq_none_iff.mpr hfired
  obtain ⟨-, hbusy, hopens⟩ := gate_follows_leases hrun hsettled
  exact ⟨s, hs, hrun, hsettled, hblocked, fun x hx => (hlapsed x hx).1, hbusy hblocked,
    fun x hx => (hlapsed x hx).2, hopens 105 (by decide) fun x hx => (hlapsed x hx).2⟩

end Floodgate.PeerStore
