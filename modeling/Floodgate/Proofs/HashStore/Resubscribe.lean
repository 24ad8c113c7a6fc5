import Floodgate.Proofs.HashStore.Field
import Floodgate.Proofs.HashStore.Log
/-!
# Floodgate.Proofs.HashStore.Resubscribe

**When a store that has lost its stream subscribes again.** It waits for the delay, counted from the
loss of its stream, or of its last attempt. But whenever its lease timer fires while it waits, it
reads the hash and waits for the whole delay anew. So its next attempt is due a delay after the last
lapse, or after the loss if no lease has lapsed since, and with a clock that passes no instant at
which a task can go on it is made then at the latest (`Log.awaits`).

That is no bound on how long a store goes without a stream. Another instance that renews its lease a
little less often than the lease runs makes the timer fire again and again before the delay is over,
and the store makes no attempt for as long as that goes on (`exists_log_starved`).

Main statement: `attempt_follows_last_lapse`.
-/

namespace Floodgate

/-- When a store lost its stream or an attempt to subscribe last, and when its lease timer has fired
since while it waited, latest first. -/
def lossOf? (place : Nat) : List Deed → Option (Int × List Int)
  | [] => none
  | .lost p t :: earlier => if p = place then some (t, []) else lossOf? place earlier
  | .lapsed p t :: earlier =>
    if p = place then (lossOf? place earlier).map fun loss => (loss.1, t :: loss.2)
    else lossOf? place earlier
  | _ :: earlier => lossOf? place earlier

theorem lossOf?_append {place : Nat} {deeds log : List Deed}
    (h : ∀ d ∈ deeds, d.place? ≠ some place) :
    lossOf? place (deeds ++ log) = lossOf? place log := by
  induction deeds with
  | nil => rfl
  | cons d rest ih =>
    have hrest := ih fun d hd => h d (List.mem_cons_of_mem _ hd)
    have hd := h d List.mem_cons_self
    cases d with
    | accepted p w => exact hrest
    | wrote v => exact hrest
    | lost p t => exact (if_neg fun heq => hd (congrArg some heq)).trans hrest
    | lapsed p t => exact (if_neg fun heq => hd (congrArg some heq)).trans hrest

namespace HashScene

variable {s s' : HashScene} {now later : Int} {place q : Nat} {st st' : HashStore} {a : HashAct}
  {deeds log : List Deed} {punctual : Bool} {timer timer' : Option Int}

/-- What a log says of a subscription and its lease timer. -/
inductive Awaits (place : Nat) (log : List Deed) (now : Int) (timer : Option Int) :
    Subscription → Prop where
  | streaming (unread : Nat) : Awaits place log now timer (.streaming unread)
  /-- The end of a stream is noticed at once. -/
  | ended (hloss : lossOf? place log = some (now, [])) : Awaits place log now timer .ended
  /-- The next attempt is due a delay after the last lapse, or after the loss if there is none. Each
  lapse came a slack after the wait had begun, or later. -/
  | waiting {t : Int} {lapses : List Int} (hloss : lossOf? place log = some (t, lapses))
      (hdue : now ≤ lapses.headD t + resubscribeDelay)
      (hearly : lapses.headD t ≤ t + resubscribeDelay * lapses.length)
      (hlate : t + Verdict.expirySlack * lapses.length ≤ lapses.headD t)
      (htimer : ∀ due ∈ timer, lapses.headD t + Verdict.expirySlack ≤ due) :
      Awaits place log now timer (.waiting (lapses.headD t + resubscribeDelay))
  | stopped : Awaits place log now timer .stopped

theorem Awaits.congr {log' : List Deed} {subscription : Subscription}
    (h : Awaits place log now timer subscription) (hloss : lossOf? place log' = lossOf? place log) :
    Awaits place log' now timer subscription := by
  cases h with
  | streaming unread => exact .streaming unread
  | ended h => exact .ended (hloss.trans h)
  | waiting h hdue hearly hlate htimer => exact .waiting (hloss.trans h) hdue hearly hlate htimer
  | stopped => exact .stopped

theorem le_add_delay (now : Int) : now ≤ now + resubscribeDelay :=
  Int.le_add_of_nonneg_right (by decide)

/-- Whoever begins to wait sets the timer anew. -/
theorem slack_le_timer (st : HashStore) (now : Int) :
    ∀ due ∈ (st.waitToSubscribe now).timer, now + Verdict.expirySlack ≤ due := by
  intro due hdue
  obtain ⟨expiry, -, rfl⟩ := Option.map_eq_some_iff.mp hdue
  exact Int.add_le_add_right (Int.le_max_right expiry now) _

/-- Whoever has just lost its stream or an attempt waits for the delay. -/
theorem Awaits.anew (st : HashStore) (hloss : lossOf? place log = some (now, [])) :
    Awaits place log now (st.waitToSubscribe now).timer (st.waitToSubscribe now).subscription :=
  @Awaits.waiting place log now _ now [] hloss (le_add_delay now) (by simp) (by simp)
    (slack_le_timer st now)

/-- A lapse starts the wait anew. It comes no later than the attempt was due. -/
theorem Awaits.lapse {attemptAt : Int} (h : Awaits place log now timer (.waiting attemptAt))
    {due : Int} (hdue : due ∈ timer) (hfired : due ≤ now) (st : HashStore) :
    Awaits place (.lapsed place now :: log) now (st.waitToSubscribe now).timer
      (st.waitToSubscribe now).subscription := by
  cases h with
  | @waiting t lapses hloss hattempt hearly hlate htimer =>
    have hslack := Int.le_trans (htimer due hdue) hfired
    refine @Awaits.waiting place _ now _ t (now :: lapses) ?_ (le_add_delay now) ?_ ?_
      (slack_le_timer st now)
    · rw [lossOf?, if_pos rfl, hloss]
      rfl
    · simp only [List.headD_cons, List.length_cons, resubscribeDelay] at hattempt hearly ⊢
      omega
    · simp only [List.headD_cons, List.length_cons, Verdict.expirySlack] at hslack hlate ⊢
      omega

/-! ### Sections of the subscriber -/

theorem subscription_sync (st : HashStore) (now : Int)
    (reading : Option (List (String × String))) :
    (st.sync now reading).subscription = st.subscription := (HashStore.sync_frame st now reading).1

theorem exists_due_of_timerFired (h : st.timerFired now = true) : ∃ due ∈ st.timer, due ≤ now := by
  unfold HashStore.timerFired at h
  split at h
  · next due hdue => exact ⟨due, hdue, of_decide_eq_true h⟩
  · cases h

theorem Awaits.onWake (h : Awaits place log now st.timer st.subscription) {wake : HashStore.Wake}
    (hready : st.isReady now wake = true) (hup : st.isShutDown = false) (subscribed : Bool)
    (reading : Option (List (String × String))) :
    Awaits place (st.deedsOnWake place now subscribed wake ++ log) now
      (st.onWake now subscribed reading wake).timer
      (st.onWake now subscribed reading wake).subscription := by
  cases wake with
  | shutDown => cases hsub : st.subscription <;> simp [HashStore.isReady, hsub, hup] at hready
  | announcement =>
    cases hsub : st.subscription with
    | streaming unread =>
      rw [HashStore.Follows.onWake_announcement hsub, subscription_sync]
      exact .streaming _
    | _ => simp [HashStore.isReady, hsub] at hready
  | streamEnd =>
    cases hsub : st.subscription with
    | ended =>
      rw [hsub] at h
      cases h with
      | ended hloss => exact .anew st hloss
    | _ => simp [HashStore.isReady, hsub] at hready
  | timer =>
    unfold HashStore.deedsOnWake HashStore.onWake
    cases hsub : st.subscription with
    | streaming unread =>
      simp only [subscription_sync, hsub]
      exact .streaming unread
    | waiting attemptAt =>
      -- the only section that puts an attempt off
      rw [hsub] at h
      simp only [HashStore.isReady, hsub] at hready
      obtain ⟨due, hdue, hfired⟩ := exists_due_of_timerFired hready
      exact h.lapse hdue hfired _
    | ended =>
      rw [hsub] at h
      simp only [subscription_sync, hsub]
      cases h with
      | ended hloss => exact .ended hloss
    | stopped =>
      simp only [subscription_sync, hsub]
      exact .stopped
  | subscribe =>
    cases subscribed with
    | true =>
      show Awaits place log now _ (HashStore.sync _ now reading).subscription
      rw [subscription_sync]
      exact .streaming 0
    | false => exact .anew st (if_pos rfl)

theorem Awaits.breakStream (h : Awaits place log now st.timer st.subscription) :
    Awaits place (st.deedsOnBreak place now ++ log) now st.breakStream.timer
      st.breakStream.subscription := by
  unfold HashStore.deedsOnBreak HashStore.breakStream
  cases hsub : st.subscription with
  | streaming unread => exact .ended (if_pos rfl)
  | _ => exact h

/-! ### Along a log -/

theorem Alike.awaits (halike : Alike st st') (h : Awaits place log now st.timer st.subscription) :
    Awaits place log now st'.timer st'.subscription := by
  rcases halike.subscription with hsame | ⟨_, unread, -, hsub⟩
  · rw [hsame, halike.timer]
    exact h
  · rw [hsub]
    exact .streaming unread

theorem Awaits.becomes (h : st.isShutDown = false → Awaits place log now st.timer st.subscription)
    (hb : Becomes now place st deeds st') (hup : st'.isShutDown = false) :
    Awaits place (deeds ++ log) now st'.timer st'.subscription := by
  cases hb with
  | aside hdeeds halike =>
    exact (halike.awaits (h (halike.isShutDown ▸ hup))).congr (lossOf?_append hdeeds)
  | @accepted instanceName isBusy lockData _ hset =>
    obtain ⟨r, hst'⟩ := st.exists_setStatus_eq instanceName isBusy lockData
    rw [hset] at hst'
    cases hst'
    exact (h hup).congr rfl
  | broken =>
    rw [HashStore.isShutDown_breakStream] at hup
    exact (h hup).breakStream
  | listened hready subscribed reading =>
    rw [HashStore.isShutDown_onWake] at hup
    exact (h hup).onWake hready hup subscribed reading
  | resumed => exact h hup
  | called _ _ ok halike =>
    refine (halike.awaits (h (halike.isShutDown ▸ hup))).congr ?_
    cases ok <;> rfl
  | shutDown =>
    rw [HashStore.isShutDown_shutDown] at hup
    cases hup

/-- Whoever has something to do can go on. -/
theorem wake?_of_work_eq_none (h : s.work now = none) (hat : s.storeAt? q = some st) :
    st.wake? now = none := by
  have hlisten : s.listen now = none := by
    simp only [work, Option.orElse_eq_orElse, Option.orElse_eq_or, Option.or_eq_none_iff,
      Option.map_eq_none_iff] at h
    exact h.2.1
  obtain ⟨e, he, rfl⟩ := Option.map_eq_some_iff.mp hat
  have hnone := List.findSome?_eq_none_iff.mp (Option.map_eq_none_iff.mp hlisten) (e, q)
    (List.mem_zipIdx_iff_getElem?.mpr he)
  exact Option.map_eq_none_iff.mp hnone

/-- A clock that leaves no task behind passes no attempt that is due. -/
theorem Awaits.wait (h : Awaits q log now st.timer st.subscription) (hlater : now ≤ later)
    (hidle : ∀ instant, now ≤ instant → instant < later → st.wake? instant = none) :
    Awaits q log later st.timer st.subscription := by
  cases hsub : st.subscription with
  | streaming unread => exact .streaming unread
  | stopped => exact .stopped
  | ended =>
    rw [hsub] at h
    cases h with
    | ended hloss =>
      rcases Int.lt_or_eq_of_le hlater with hlt | heq
      · have hready :=
          HashStore.wake?_eq_none_iff.mp (hidle now (Int.le_refl now) hlt) .streamEnd
        simp [HashStore.isReady, hsub] at hready
      · exact .ended (heq ▸ hloss)
  | waiting attemptAt =>
    rw [hsub] at h
    cases h with
    | waiting hloss hdue hearly hlate htimer =>
      refine .waiting hloss ?_ hearly hlate htimer
      -- otherwise the store could have subscribed when the attempt was due
      by_contra hlt
      have hready := HashStore.wake?_eq_none_iff.mp (hidle _ hdue (Int.not_le.mp hlt)) .subscribe
      simp [HashStore.isReady, hsub] at hready

theorem Log.awaits (h : Log true now log s) : ∀ q st, s.storeAt? q = some st →
    st.isShutDown = false → Awaits q log now st.timer st.subscription := by
  induction h with
  | empty =>
    intro q st hq
    simp [storeAt?, HashScene.empty] at hq
  | wait _ hlater hidle ih =>
    intro q st hq hup
    exact (ih q st hq hup).wait hlater fun instant hnow hlt =>
      wake?_of_work_eq_none (hidle rfl instant hnow hlt) hq
  | act _ hact ih =>
    intro q st' hq hup
    rcases becomes_of_act hact hq with ⟨-, ⟨-, hfresh⟩, -⟩ | ⟨st, hst, hb⟩
    · rw [hfresh]
      exact .streaming 0
    · exact .becomes (ih q st hst) hb hup

/-! ### A store that makes no attempt -/

/-- Options under which a replicator has nothing to do before the end of the calendar. -/
def idleOptions : ReplicatorOptions where
  renewalPeriod := some (.ofMillis 9000000000000000)
  expirationPeriod := some .maxSpan
  recoverPeriod := some (.ofMillis 9000000000000000)

def idlePlan : ReplicationPlan where
  renewal := .ofMillis 9000000000000000
  expiration := .maxSpan
  recovery := .ofMillis 9000000000000000
  retry := .standard
  renewal_pos := by decide
  recovery_pos := by decide
  renewal_lt := by decide
  expiration_le := by decide

/-- What another instance writes to renew its lease. -/
def leaseWrite (time : Int) (lease : Timestamp) : HashWrite :=
  ⟨none, "k", "b", HashStore.encode true none (some lease), time⟩

/-- A store that has read that lease. -/
def leasedStore (lease : Timestamp) (subscription : Subscription) : HashStore where
  lockKey := "k"
  house := (Gatehouse.fresh {}).drive (.busy none none)
  replicator := .start idlePlan 0
  statuses := [⟨"b", true, none, some lease⟩]
  isCurrent := true
  subscription
  nextExpiry := some lease.millis
  timer := some (lease.millis + Verdict.expirySlack)
  isShutDown := false

/-- A server that holds a lease, with some stores, each of which has tried to subscribe once. -/
def sceneOf (lease : Timestamp) (stores : List HashStore) : HashScene where
  server := ⟨[(HashStore.hashKey "k", [("b", HashStore.encode true none (some lease))])], true⟩
  refuses := false
  subscriptions := stores.length
  stores := stores.map (⟨"s", ·, false⟩)
  lockKeys := ["k"]

/-- A store that begins to wait at an instant. -/
def starvedStore (now : Int) (lease : Timestamp) : HashStore :=
  leasedStore lease (.waiting (now + resubscribeDelay))

section Starved

variable {lease lease' : Timestamp}

theorem decode_leaseWrite (time : Int) (lease : Timestamp) :
    HashStore.decode "b" (leaseWrite time lease).value = ⟨"b", true, none, some lease⟩ :=
  HashStore.decode_encode "b" true (some lease) nofun

theorem readAll_sceneOf (stores : List HashStore) (time : Int) :
    (sceneOf lease stores).server.readAll (HashStore.hashKey "k") =
      some [("b", (leaseWrite time lease).value)] := by
  simp [sceneOf, HashServer.readAll, HashServer.fields, leaseWrite]

theorem ofStatuses_running (hrunning : now < lease.millis) :
    Verdict.ofStatuses [⟨"b", true, none, some lease⟩] now = .busy none (some lease) := by
  simp [Verdict.ofStatuses, Status.isBusyAt, Status.leaseRunsAt, hrunning, Verdict.merge,
    Verdict.dataEntries, Verdict.earliest]

theorem expiryTimer_running (hrunning : now < lease.millis) :
    Verdict.expiryTimer now (some lease.millis) = some (lease.millis + Verdict.expirySlack) := by
  rw [Verdict.expiryTimer, Option.map_some, Int.max_eq_left (Int.le_of_lt hrunning)]

theorem waitToSubscribe_leasedStore (hrunning : now < lease.millis) (subscription : Subscription) :
    (leasedStore lease subscription).waitToSubscribe now = starvedStore now lease := by
  simp [HashStore.waitToSubscribe, HashStore.watchExpiry, starvedStore, leasedStore,
    expiryTimer_running hrunning]

theorem sync_leasedStore (hrunning : now < lease'.millis) (subscription : Subscription) :
    (leasedStore lease subscription).sync now (some [("b", (leaseWrite now lease').value)]) =
      leasedStore lease' subscription := by
  simp [HashStore.sync, HashStore.refresh, HashStore.evaluate, HashStore.watchExpiry, leasedStore,
    decode_leaseWrite, ofStatuses_running hrunning, Verdict.nextExpiry,
    expiryTimer_running hrunning, Gatehouse.drive, Gatehouse.block, Gate.block, Gatehouse.fresh,
    Gate.fresh]

/-- A store that finds a running lease in the hash. -/
theorem start_leased (hrunning : 0 < lease.millis) :
    HashStore.start "k" idleOptions (.fresh {}) 0 true
        (some [("b", (leaseWrite 0 lease).value)]) =
      .ok (leasedStore lease (.streaming 0)) := by
  have hvalid : idleOptions.validate = .ok idlePlan := rfl
  have hkey : Text.isBlankName "k" = false := by decide
  simp [HashStore.start, hvalid, hkey, HashStore.refresh, HashStore.evaluate,
    HashStore.watchExpiry, leasedStore, decode_leaseWrite, ofStatuses_running hrunning,
    Verdict.nextExpiry, expiryTimer_running hrunning, Gatehouse.drive]

/-! #### The store loses its stream -/

theorem act_write_empty : empty.act 0
      (.write "k" "b" (leaseWrite 0 lease).value (HashStore.channelName "k")) =
    some ([.wrote (leaseWrite 0 lease)], sceneOf lease []) := by
  simp [act, deedsOnWrite, write, HashServer.write, HashServer.fields, announce, empty, sceneOf,
    leaseWrite, Assoc.put, HashServer.empty]

theorem act_start_sceneOf (hrunning : 0 < lease.millis) :
    (sceneOf lease []).act 0 (.start "s" "k" idleOptions {}) =
      some ([], sceneOf lease [leasedStore lease (.streaming 0)]) := by
  have haccepts : (sceneOf lease []).accepts = true := rfl
  simp only [act, start, readAll_sceneOf [] 0, haccepts, start_leased hrunning]
  rfl

theorem act_breakStream_sceneOf :
    (sceneOf lease [leasedStore lease (.streaming 0)]).act 0 (.breakStream 0) =
      some ([.lost 0 0], sceneOf lease [leasedStore lease .ended]) := rfl

theorem act_listen_sceneOf (wake : HashStore.Wake) (hready : st.isReady now wake = true)
    (hkey : st.lockKey = "k") (hwake : wake ≠ .subscribe) :
    (sceneOf lease [st]).act now (.listen 0 wake) = some (st.deedsOnWake 0 now true wake,
      sceneOf lease [st.onWake now true (some [("b", (leaseWrite now lease).value)]) wake]) := by
  have hplace : (sceneOf lease [st]).stores[0]? = some ⟨"s", st, false⟩ := rfl
  rw [act_listen hplace hready, listenAt, if_neg hwake, hkey, readAll_sceneOf [st] now]
  rfl

/-- A store loses its stream while the other instance holds a lease. -/
theorem Log.lose (hrunning : 0 < lease.millis) :
    Log true 0 [.lost 0 0, .wrote (leaseWrite 0 lease)] (sceneOf lease [starvedStore 0 lease]) := by
  have hstarted : Log true 0 _ (sceneOf lease [leasedStore lease (.streaming 0)]) :=
    ((Log.empty 0).act act_write_empty).act (act_start_sceneOf hrunning)
  have hend := (hstarted.act act_breakStream_sceneOf).act
    (act_listen_sceneOf .streamEnd rfl rfl (by decide))
  rw [HashStore.onWake, waitToSubscribe_leasedStore hrunning] at hend
  exact hend

/-! #### It begins to wait anew again and again -/

/-- A store that waits does not hear of a field that is written. -/
theorem act_write_sceneOf : (sceneOf lease [starvedStore now lease]).act later
      (.write "k" "b" (leaseWrite later lease').value (HashStore.channelName "k")) =
    some ([.wrote (leaseWrite later lease')], sceneOf lease' [starvedStore now lease]) := by
  simp [act, deedsOnWrite, write, HashServer.write, HashServer.fields, announce, HashStore.hear,
    sceneOf, starvedStore, leasedStore, leaseWrite, Assoc.put]

/-- A store that reads a running lease when its timer fires begins to wait anew. -/
theorem onWake_starvedStore (hrunning : later < lease'.millis) (subscribed : Bool) :
    (starvedStore now lease).onWake later subscribed
      (some [("b", (leaseWrite later lease').value)]) .timer = starvedStore later lease' := by
  show ((starvedStore now lease).sync later _).waitToSubscribe later = _
  rw [starvedStore, sync_leasedStore hrunning, waitToSubscribe_leasedStore hrunning]

/-- A replicator that has just started does nothing before its first tick. -/
theorem work_start {plan : ReplicationPlan} {since instant : Int}
    (hrenewal : instant < since + plan.renewal.timerMillis)
    (hrecovery : instant < since + plan.recovery.timerMillis) :
    (Replicator.start plan since : Replicator FieldWrite).work instant = none := by
  simp only [Replicator.work, Replicator.candidates, Replicator.start]
  simp [Replicator.step, Int.not_le.mpr hrenewal, Int.not_le.mpr hrecovery]

/-- Nothing is done before the timer fires. -/
theorem work_sceneOf {instant : Int} (htimer : instant < lease.millis + Verdict.expirySlack)
    (hattempt : instant < now + resubscribeDelay) (htick : instant < 9000000000000000) :
    (sceneOf lease [starvedStore now lease]).work instant = none := by
  have hidle : (starvedStore now lease).replicator.work instant = none :=
    work_start (by simpa [idlePlan] using htick) (by simpa [idlePlan] using htick)
  have hwake : (starvedStore now lease).wake? instant = none := by
    refine HashStore.wake?_eq_none_iff.mpr fun wake => ?_
    cases wake <;>
      simp [HashStore.isReady, HashStore.timerFired, starvedStore, leasedStore,
        Int.not_le.mpr htimer, Int.not_le.mpr hattempt]
  have hrun : (starvedStore now lease).house.runNext = none := rfl
  simp [work, deliver, listen, handle, sceneOf, hidle, hwake, hrun]

/-- The other instance renews its lease a little late, and the store begins to wait anew. -/
theorem Log.starve (h : Log true now log (sceneOf lease [starvedStore now lease]))
    (hlater : lease.millis + Verdict.expirySlack = later) (hnow : now ≤ later)
    (hattempt : later ≤ now + resubscribeDelay) (htick : later ≤ 9000000000000000)
    (hrunning : later < lease'.millis) :
    Log true later (.lapsed 0 later :: .wrote (leaseWrite later lease') :: log)
      (sceneOf lease' [starvedStore later lease']) := by
  have hwait : Log true later log (sceneOf lease [starvedStore now lease]) :=
    h.wait hnow fun _ instant _ hlt => work_sceneOf (hlater ▸ hlt)
      (Int.lt_of_lt_of_le hlt hattempt) (Int.lt_of_lt_of_le hlt htick)
  have hfired : (starvedStore now lease).isReady later .timer = true := by
    simpa [HashStore.isReady, HashStore.timerFired, starvedStore, leasedStore] using
      Int.le_of_eq hlater
  have hrenewed : Log true later _ (sceneOf lease' [starvedStore now lease]) :=
    hwait.act act_write_sceneOf
  have hend := hrenewed.act (act_listen_sceneOf .timer hfired rfl (by decide))
  rw [onWake_starvedStore hrunning] at hend
  exact hend

/-- A store makes no attempt for as long as the other instance goes on like this. -/
theorem exists_log_starved (n : Nat) (h : 905 * (n : Int) + 900 ≤ 8210266876799999) :
    ∃ log lapses lease, Log true (905 * n) log (sceneOf lease [starvedStore (905 * n) lease]) ∧
      lossOf? 0 log = some (0, lapses) ∧ lapses.length = n ∧ lease.millis = 905 * n + 900 := by
  -- each round ends 905 after it has begun, just before the attempt is due at 1000
  induction n with
  | zero => exact ⟨_, [], ⟨900, by decide, by decide⟩, .lose (by decide), rfl, rfl, rfl⟩
  | succ n ih =>
    rw [Int.natCast_succ] at h ⊢
    obtain ⟨log, lapses, lease, hlog, hloss, hlength, hlease⟩ := ih (by omega)
    have hnext : 905 * ((n : Int) + 1) = 905 * n + 905 := by omega
    refine ⟨_, 905 * ((n : Int) + 1) :: lapses, ⟨905 * (n + 1) + 900, by omega, h⟩,
      hlog.starve ?_ ?_ ?_ ?_ ?_, ?_, congrArg _ hlength, rfl⟩
    · rw [hlease, Verdict.expirySlack]
      omega
    · omega
    · rw [resubscribeDelay]
      omega
    · omega
    · show 905 * ((n : Int) + 1) < 905 * (n + 1) + 900
      omega
    · exact (if_pos rfl).trans (congrArg _ hloss)

/-! ### When a store subscribes again -/

/-- **A store that has lost its stream notices at once. While it waits, its next attempt is due a
delay after the last time its lease timer fired, or after the loss if that has not happened since,
and only in the latter case within the delay of the loss; the attempt is never passed over.** -/
theorem attempt_follows_last_lapse (h : Log true now log s) (hat : s.storeAt? q = some st)
    (hup : st.isShutDown = false) :
    (st.subscription = .ended → lossOf? q log = some (now, [])) ∧
    ∀ attemptAt, st.subscription = .waiting attemptAt →
      ∃ t lapses, lossOf? q log = some (t, lapses) ∧
        attemptAt = lapses.headD t + resubscribeDelay ∧ now ≤ attemptAt ∧
        (attemptAt ≤ t + resubscribeDelay ↔ lapses = []) ∧
        attemptAt ≤ t + resubscribeDelay * (lapses.length + 1) := by
  have hawaits := h.awaits q st hat hup
  refine ⟨fun hended => ?_, fun attemptAt hwaiting => ?_⟩
  · rw [hended] at hawaits
    cases hawaits with
    | ended hloss => exact hloss
  · rw [hwaiting] at hawaits
    cases hawaits with
    | @waiting t lapses hloss hdue hearly hlate =>
      refine ⟨t, lapses, hloss, rfl, hdue, ⟨fun hle => List.length_eq_zero_iff.mp ?_, ?_⟩, ?_⟩
      · rw [Verdict.expirySlack] at hlate
        omega
      · rintro rfl
        exact Int.le_refl _
      · rw [resubscribeDelay] at hearly ⊢
        omega

/-- After two lapses the attempt is due more than a delay after the loss, but no more than three. -/
theorem attempt_follows_last_lapse_after_two : ∃ log s st t lapses attemptAt,
    Log true 1810 log s ∧ s.storeAt? 0 = some st ∧ st.isShutDown = false ∧
      st.subscription = .waiting attemptAt ∧ lossOf? 0 log = some (t, lapses) ∧
      lapses.length = 2 ∧ t + resubscribeDelay < attemptAt ∧
      attemptAt ≤ t + resubscribeDelay * 3 := by
  obtain ⟨log, lapses, lease, hlog, hloss, hlength, -⟩ := exists_log_starved 2 (by decide)
  obtain ⟨t, lapses', hloss', -, -, hprompt, hbound⟩ :=
    (attempt_follows_last_lapse (q := 0) hlog rfl rfl).2 _ rfl
  cases hloss.symm.trans hloss'
  refine ⟨log, _, _, 0, lapses, _, hlog, rfl, rfl, rfl, hloss, hlength, ?_, ?_⟩
  · refine Int.not_le.mp fun hle => ?_
    rw [hprompt.mp hle] at hlength
    cases hlength
  · rw [hlength] at hbound
    exact hbound

/-- A store that lost its stream at 0 has made no attempt by 1810, a delay after the loss and
longer: its only subscription is the one that it was started with. -/
theorem no_attempt_within_delay : ∃ log s st attemptAt t lapses,
    Log true 1810 log s ∧ s.storeAt? 0 = some st ∧ st.isShutDown = false ∧
      st.subscription = .waiting attemptAt ∧ lossOf? 0 log = some (t, lapses) ∧
      s.subscriptions = 1 ∧ t + resubscribeDelay < 1810 :=
  have ⟨log, lapses, lease, hlog, hloss, _⟩ := exists_log_starved 2 (by decide)
  ⟨log, _, starvedStore 1810 lease, _, 0, lapses, hlog, rfl, rfl, rfl, hloss, rfl, by decide⟩

end Starved

end HashScene

end Floodgate
