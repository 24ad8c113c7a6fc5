import Floodgate.HashStore.Basic
import Floodgate.Proofs.Verdict
/-!
# Floodgate.Proofs.HashStore.Follows

**What a subscriber holds, and when it looks again.** A subscriber reads and judges in one section,
so its gate is what judging the statuses it holds made of it some time ago (`JudgedAt`), and it has
to look again no later than at the first lease end among the statuses that were busy then.

Its timer is set for that lease end when it judges. While its stream is down it is also set anew
whenever the subscriber begins to wait: when it notices that the stream has ended, and when an
attempt to subscribe fails. A lease that has ended by then is noticed a slack after that, not after
its end (`ArmedAt`). That happens once for a lease at most: attempts are much further apart than the
slack, and a timer that has fired makes the subscriber judge again.

With its stream open and nothing unread, a subscriber whose last reading succeeded holds what the
hash says (`Follows.current`), because whatever was written since has been announced to it.

Main statement: `Follows` holds after every section of the subscriber (`Follows.onWake`), in
whatever order they come (`isReady`), and is kept by what happens around it.
-/

namespace Floodgate

namespace HashServer

variable {s s' : HashServer} {hash other field value : String} {fields : List (String × String)}

/-- A reading that succeeds gives the fields of the hash. -/
theorem eq_fields_of_readAll (h : s.readAll hash = some fields) : fields = s.fields hash := by
  unfold readAll at h
  split at h
  · exact (Option.some.inj h).symm
  · cases h

/-- Writing into a hash leaves the other hashes alone. -/
theorem fields_of_write_of_ne (h : s.write hash field value = some s') (hne : other ≠ hash) :
    s'.fields other = s.fields other := by
  unfold write at h
  split at h
  · cases h
    simp only [fields, Assoc.lookup_put_of_ne hne]
  · cases h

end HashServer

namespace HashStore

variable {s s' : HashStore} {server server' : HashServer} {now later set : Int} {wake : Wake}

theorem hashKey_injective {key key' : String} (h : hashKey key = hashKey key') : key = key' :=
  (String.append_right_inj _).mp h

theorem channelName_injective {key key' : String} (h : channelName key = channelName key') :
    key = key' :=
  (String.append_right_inj _).mp h

/-! ### Requests -/

@[simp] theorem isShutDown_hear (s : HashStore) (channel : String) :
    (s.hear channel).isShutDown = s.isShutDown := by
  unfold hear
  split
  · split <;> rfl
  · rfl

@[simp] theorem isShutDown_breakStream (s : HashStore) :
    s.breakStream.isShutDown = s.isShutDown := by
  unfold breakStream
  split <;> rfl

@[simp] theorem isShutDown_shutDown (s : HashStore) (now : Int) :
    (s.shutDown now).isShutDown = true := by
  unfold shutDown
  split <;> rfl

/-- Setting a status is for the replicator to carry out. -/
theorem exists_setStatus_eq (s : HashStore) (instanceName : String) (isBusy : Bool)
    (lockData : Option String) :
    ∃ replicator, (s.setStatus instanceName isBusy lockData).2 = { s with replicator } := by
  unfold setStatus
  split
  · exact ⟨s.replicator, rfl⟩
  · split <;> exact ⟨_, rfl⟩

/-! ### Sections in any order -/

/-- Whether a section of the subscriber is possible. When several are, it carries out any of them,
not only the one that `wake?` names. -/
def isReady (s : HashStore) (now : Int) (wake : Wake) : Bool :=
  match wake, s.subscription with
  | _, .stopped => false
  | .shutDown, _ => s.isShutDown
  | .announcement, .streaming unread => 0 < unread
  | .streamEnd, .ended => true
  | .timer, _ => s.timerFired now
  | .subscribe, .waiting attemptAt => attemptAt ≤ now
  | _, _ => false

/-- Nothing is left to do exactly if no section is possible. -/
theorem wake?_eq_none_iff : s.wake? now = none ↔ ∀ wake, s.isReady now wake = false := by
  constructor
  · intro h wake
    unfold wake? at h
    unfold isReady
    cases wake <;> grind
  · intro h
    have hdown := h .shutDown
    have hannouncement := h .announcement
    have hend := h .streamEnd
    have htimer := h .timer
    have hsubscribe := h .subscribe
    unfold isReady at hdown hannouncement hend htimer hsubscribe
    unfold wake?
    grind

theorem isReady_of_wake? (h : s.wake? now = some wake) : s.isReady now wake = true := by
  unfold wake? at h
  unfold isReady
  grind

/-! ### What judging leaves behind -/

/-- What the fields of a hash say. -/
def statusesOf (fields : List (String × String)) : List Status :=
  fields.map fun (instanceId, value) => decode instanceId value

/-- When the subscriber began to wait for its next attempt to subscribe, if it waits. -/
def waitingSince? (s : HashStore) : Option Int :=
  match s.subscription with
  | .waiting attemptAt => some (attemptAt - resubscribeDelay)
  | _ => none

/-- The gate and the next look are what judging the statuses has made of them. -/
structure JudgedAt (s : HashStore) (judged : Int) : Prop where
  isBlocked : s.house.gate.isBlocked = !(Verdict.ofStatuses s.statuses judged).isAllIdle
  nextExpiry_le : ∀ x ∈ s.statuses, x.isBusyAt judged = true → ∀ t, x.validUntil = some t →
    ∃ expiry, s.nextExpiry = some expiry ∧ expiry ≤ t.millis

/-- The gate is blocked exactly when an instance was busy. -/
theorem JudgedAt.isBlocked_iff {judged : Int} (h : s.JudgedAt judged) :
    s.house.gate.isBlocked = true ↔ ∃ x ∈ s.statuses, x.isBusyAt judged = true := by
  rw [h.isBlocked, Bool.not_eq_true']
  exact Verdict.isAllIdle_ofStatuses

/-- The timer was set at an instant, before the next look or, if the subscriber began to wait then,
no later than a slack after it. -/
structure ArmedAt (s : HashStore) (set : Int) : Prop where
  timer : s.timer = Verdict.expiryTimer set s.nextExpiry
  waiting : ∀ since ∈ s.waitingSince?, since = set
  in_time : ∀ expiry ∈ s.nextExpiry,
    set ≤ expiry ∨ set ∈ s.waitingSince? ∧ set ≤ expiry + Verdict.expirySlack

/-- A subscriber of a store that has not been shut down follows the hash. -/
structure Follows (server : HashServer) (now : Int) (s : HashStore) : Prop where
  judged : ∃ judged ≤ now, s.JudgedAt judged
  armed : ∃ set ≤ now, s.ArmedAt set
  /-- The clock does not pass a timer. -/
  due : ∀ due ∈ s.timer, now ≤ due
  /-- What has been written since the last reading is among what is unread. -/
  current : s.subscription = .streaming 0 → s.isCurrent = true →
    s.statuses = statusesOf (server.fields (hashKey s.lockKey))
  goesOn : s.subscription ≠ .stopped

/-! ### Reading and judging -/

section Sync

variable (s : HashStore) (now : Int) (reading : Option (List (String × String)))

theorem sync_frame : (s.sync now reading).subscription = s.subscription ∧
    (s.sync now reading).lockKey = s.lockKey ∧
    (s.sync now reading).isShutDown = s.isShutDown := by
  cases reading <;> exact ⟨rfl, rfl, rfl⟩

/-- A reading that succeeds is taken up as a whole. -/
theorem statuses_sync (h : (s.sync now reading).isCurrent = true) :
    ∃ fields, reading = some fields ∧ (s.sync now reading).statuses = statusesOf fields := by
  cases reading with
  | none => cases h
  | some fields => exact ⟨fields, rfl, rfl⟩

@[simp] theorem isShutDown_sync : (s.sync now reading).isShutDown = s.isShutDown :=
  (sync_frame s now reading).2.2

@[simp] theorem isShutDown_onWake (subscribed : Bool) (wake : Wake) :
    (s.onWake now subscribed reading wake).isShutDown = s.isShutDown := by
  unfold onWake
  split
  · rfl
  · split <;> exact isShutDown_sync ..
  · rfl
  · split <;> exact isShutDown_sync ..
  · split
    · exact isShutDown_sync ..
    · rfl

theorem timer_sync : (s.sync now reading).timer =
    Verdict.expiryTimer now (s.sync now reading).nextExpiry := by
  cases reading <;> rfl

/-- If the hash could be read, the next look is due when the verdict expires. -/
theorem nextExpiry_sync_some (fields : List (String × String)) :
    (s.sync now (some fields)).nextExpiry =
      (Verdict.ofStatuses (statusesOf fields) now).nextExpiry.map (·.millis) := rfl

/-- If the hash could not be read, it is also due after a while. -/
theorem nextExpiry_sync_none : (s.sync now none).nextExpiry =
    some (((Verdict.ofStatuses s.statuses now).nextExpiry.map (·.millis)).elim
      (now + readRetryDelay) (min · (now + readRetryDelay))) := by
  simp only [sync, evaluate, watchExpiry]
  cases (Verdict.ofStatuses s.statuses now).nextExpiry <;> rfl

/-- The next look is due at some instant after this one, and no later than the verdict expires. -/
theorem nextExpiry_sync :
    (∀ expiry ∈ (s.sync now reading).nextExpiry, now < expiry) ∧
    ∀ t ∈ (Verdict.ofStatuses (s.sync now reading).statuses now).nextExpiry,
      ∃ expiry, (s.sync now reading).nextExpiry = some expiry ∧ expiry ≤ t.millis := by
  cases reading with
  | some fields =>
    rw [nextExpiry_sync_some]
    refine ⟨fun expiry hexpiry => ?_, fun t ht => ⟨t.millis, ?_, Int.le_refl _⟩⟩
    · obtain ⟨t, ht, rfl⟩ := Option.map_eq_some_iff.mp hexpiry
      exact Verdict.lt_nextExpiry ht
    · exact Option.map_eq_some_iff.mpr ⟨t, ht, rfl⟩
  | none =>
    have hretry : now < now + readRetryDelay := Int.lt_add_of_pos_right now (by decide)
    have hstatuses : (s.sync now none).statuses = s.statuses := rfl
    rw [nextExpiry_sync_none, hstatuses]
    cases hverdict : (Verdict.ofStatuses s.statuses now).nextExpiry with
    | none =>
      refine ⟨fun expiry hexpiry => ?_, fun t ht => absurd ht (by simp)⟩
      cases hexpiry
      exact hretry
    | some first =>
      refine ⟨fun expiry hexpiry => ?_, fun t ht => ⟨_, rfl, ?_⟩⟩
      · cases hexpiry
        exact Int.lt_min.mpr ⟨Verdict.lt_nextExpiry hverdict, hretry⟩
      · cases ht
        exact Int.min_le_left _ _

theorem judgedAt_sync : (s.sync now reading).JudgedAt now where
  isBlocked := by cases reading <;> exact Gatehouse.isBlocked_drive _ _
  nextExpiry_le x hx hbusy t ht := by
    obtain ⟨first, hfirst, hle⟩ := Verdict.nextExpiry_le hx hbusy ht
    obtain ⟨expiry, hexpiry, hbefore⟩ := (nextExpiry_sync s now reading).2 first hfirst
    exact ⟨expiry, hexpiry, Int.le_trans hbefore hle⟩

end Sync

/-! ### Timers -/

/-- A timer set for a next look that is still to come fires a slack after it. -/
theorem armedAt_sync (h : s.waitingSince? = none) (now : Int)
    (reading : Option (List (String × String))) : (s.sync now reading).ArmedAt now where
  timer := timer_sync s now reading
  waiting since hsince := by
    rw [waitingSince?, (sync_frame s now reading).1, ← waitingSince?, h] at hsince
    cases hsince
  in_time expiry hexpiry := .inl (Int.le_of_lt ((nextExpiry_sync s now reading).1 expiry hexpiry))

/-- Whoever begins to wait sets the timer anew. -/
theorem armedAt_waitToSubscribe
    (h : ∀ expiry ∈ s.nextExpiry, now ≤ expiry + Verdict.expirySlack) :
    (s.waitToSubscribe now).ArmedAt now := by
  have hsince : (s.waitToSubscribe now).waitingSince? = some now :=
    congrArg some (Int.add_sub_cancel now resubscribeDelay)
  refine ⟨rfl, fun since hwaiting => ?_, fun expiry hexpiry => .inr ⟨hsince, h expiry hexpiry⟩⟩
  exact (Option.some.inj (hsince.symm.trans hwaiting)).symm

/-- A timer does not fire before it has been set. -/
theorem ArmedAt.le_due (h : s.ArmedAt set) {due : Int} (hdue : due ∈ s.timer) : set ≤ due := by
  rw [h.timer] at hdue
  obtain ⟨expiry, -, rfl⟩ := Option.map_eq_some_iff.mp hdue
  exact Int.le_trans (Int.le_max_right expiry set) (Int.le_add_of_nonneg_right (by decide))

/-- The clock is no later than a slack after the next look, or than twice the slack if the
subscriber has begun to wait since. -/
theorem ArmedAt.le_slack (h : s.ArmedAt set) (hdue : ∀ due ∈ s.timer, now ≤ due) {expiry : Int}
    (hexpiry : expiry ∈ s.nextExpiry) :
    now ≤ expiry + Verdict.expirySlack ∨
      set ∈ s.waitingSince? ∧ now ≤ set + Verdict.expirySlack ∧
        set ≤ expiry + Verdict.expirySlack := by
  have hle := hdue (max expiry set + Verdict.expirySlack)
    (h.timer.trans (congrArg (Verdict.expiryTimer set) hexpiry))
  rcases h.in_time expiry hexpiry with hset | ⟨hwaiting, hset⟩
  · rw [Int.max_eq_left hset] at hle
    exact .inl hle
  · rcases Int.le_total set expiry with hbefore | hafter
    · rw [Int.max_eq_left hbefore] at hle
      exact .inl hle
    · rw [Int.max_eq_right hafter] at hle
      exact .inr ⟨hwaiting, hle, hset⟩

namespace Follows

theorem mono (h : Follows server now s) (hlater : now ≤ later)
    (hdue : ∀ due ∈ s.timer, later ≤ due) : Follows server later s where
  judged :=
    have ⟨judged, hle, hat⟩ := h.judged
    ⟨judged, Int.le_trans hle hlater, hat⟩
  armed :=
    have ⟨set, hle, hat⟩ := h.armed
    ⟨set, Int.le_trans hle hlater, hat⟩
  due := hdue
  current := h.current
  goesOn := h.goesOn

/-! ### Sections of the subscriber -/

theorem streaming_ne_stopped (unread : Nat) : Subscription.streaming unread ≠ .stopped := nofun

/-- A subscriber that does not wait follows the hash once it has read and judged. -/
theorem sync (hwaiting : s.waitingSince? = none) (hgoes : s.subscription ≠ .stopped) :
    Follows server now (s.sync now (server.readAll (hashKey s.lockKey))) := by
  have harmed := armedAt_sync hwaiting now (server.readAll (hashKey s.lockKey))
  obtain ⟨hsubscription, hkey, -⟩ := sync_frame s now (server.readAll (hashKey s.lockKey))
  refine ⟨⟨now, Int.le_refl now, judgedAt_sync ..⟩, ⟨now, Int.le_refl now, harmed⟩,
    fun due hdue => harmed.le_due hdue, fun _ hcurrent => ?_, ?_⟩
  · obtain ⟨fields, hread, hstatuses⟩ := statuses_sync _ _ _ hcurrent
    rw [hstatuses, hkey, HashServer.eq_fields_of_readAll hread]
  · rw [hsubscription]
    exact hgoes

/-- Beginning to wait no later than a slack after the next look leaves the gate as it is. -/
theorem waitToSubscribe (hjudged : ∃ judged ≤ now, s.JudgedAt judged)
    (hsoon : ∀ expiry ∈ s.nextExpiry, now ≤ expiry + Verdict.expirySlack) :
    Follows server now (s.waitToSubscribe now) := by
  have harmed := armedAt_waitToSubscribe hsoon
  refine ⟨?_, ⟨now, Int.le_refl now, harmed⟩, fun due hdue => harmed.le_due hdue, ?_, ?_⟩
  · obtain ⟨judged, hle, hat⟩ := hjudged
    exact ⟨judged, hle, hat.isBlocked, hat.nextExpiry_le⟩
  · exact nofun
  · exact nofun

/-- A subscriber that is about to wait is in time: it was not waiting before, or it has waited for
so long that its timer would have fired. -/
theorem le_slack_of_isReady (h : Follows server now s)
    (hready : s.isReady now wake = true) (hwake : wake = .streamEnd ∨ wake = .subscribe) :
    ∀ expiry ∈ s.nextExpiry, now ≤ expiry + Verdict.expirySlack := by
  obtain ⟨set, -, harmed⟩ := h.armed
  intro expiry hexpiry
  rcases harmed.le_slack h.due hexpiry with hle | ⟨hwaiting, hle, -⟩
  · exact hle
  · -- It began to wait when the timer was set, and the timer fires long before the next attempt.
    have hlong : set + resubscribeDelay ≤ now := by
      unfold waitingSince? at hwaiting
      split at hwaiting
      · next attemptAt hsubscription =>
        have hset : attemptAt - resubscribeDelay = set := Option.some.inj hwaiting
        rw [← hset, Int.sub_add_cancel]
        rcases hwake with rfl | rfl
        · simp [isReady, hsubscription] at hready
        · simpa [isReady, hsubscription] using hready
      · cases hwaiting
    simp only [resubscribeDelay, Verdict.expirySlack] at hlong hle
    omega

theorem onWake_announcement {unread : Nat} (hsub : s.subscription = .streaming unread)
    (subscribed : Bool) (reading : Option (List (String × String))) :
    s.onWake now subscribed reading .announcement =
      { s with subscription := .streaming (unread - 1) }.sync now reading := by
  rw [HashStore.onWake, hsub]

/-- **After whatever a subscriber does, it follows the hash.** -/
theorem onWake (h : Follows server now s) (hup : s.isShutDown = false)
    (hready : s.isReady now wake = true) (subscribed : Bool) :
    Follows server now
      (s.onWake now subscribed (server.readAll (hashKey s.lockKey)) wake) := by
  cases wake with
  | shutDown => cases hsub : s.subscription <;> simp [isReady, hsub, hup] at hready
  | announcement =>
    cases hsub : s.subscription with
    | streaming unread =>
      rw [onWake_announcement hsub]
      exact sync (s := { s with subscription := .streaming (unread - 1) }) rfl
        (streaming_ne_stopped _)
    | _ => simp [isReady, hsub] at hready
  | streamEnd => exact waitToSubscribe h.judged (h.le_slack_of_isReady hready (.inl rfl))
  | timer =>
    rw [HashStore.onWake]
    split
    · -- A lapse during the wait starts the wait anew, but with a next look that is still to come.
      refine waitToSubscribe ⟨now, Int.le_refl now, judgedAt_sync ..⟩ fun expiry hexpiry => ?_
      have hlt := (nextExpiry_sync s now _).1 expiry hexpiry
      exact Int.le_trans (Int.le_of_lt hlt) (Int.le_add_of_nonneg_right (by decide))
    · next hnot =>
      refine sync ?_ h.goesOn
      unfold waitingSince?
      split
      · next attemptAt hsub => exact absurd hsub (hnot attemptAt)
      · rfl
  | subscribe =>
    cases subscribed with
    | true =>
      exact sync (s := { s with subscription := .streaming 0 }) rfl (streaming_ne_stopped 0)
    | false => exact waitToSubscribe h.judged (h.le_slack_of_isReady hready (.inr rfl))

/-- A store that starts has read the hash. -/
theorem start {lockKey : String} {options : ReplicatorOptions} {house : Gatehouse}
    {subscribed : Bool} (hstart : HashStore.start lockKey options house now subscribed
      (server.readAll (hashKey lockKey)) = .ok s) : Follows server now s := by
  unfold HashStore.start at hstart
  split at hstart
  · cases hstart
  · split at hstart
    · cases hstart
    · next plan _ =>
      split at hstart
      · split at hstart
        · cases hstart
        · next fields hread =>
          have hsync : HashStore.sync
              { lockKey, house, replicator := .start plan now, statuses := [], isCurrent := false,
                subscription := .streaming 0, nextExpiry := none, timer := none,
                isShutDown := false } now (some fields) = s := Except.ok.inj hstart
          rw [← hsync, ← hread]
          exact sync rfl (streaming_ne_stopped 0)
      · cases hstart

/-! ### What happens around it -/

/-- What is changed outside the subscriber does not matter to it. -/
theorem aside (h : Follows server now s) {house : Gatehouse} (hgate : house.gate = s.house.gate)
    (replicator : Replicator FieldWrite) :
    Follows server now { s with house, replicator } where
  judged := by
    obtain ⟨judged, hle, hat⟩ := h.judged
    exact ⟨judged, hle, (congrArg Gate.isBlocked hgate).trans hat.isBlocked, hat.nextExpiry_le⟩
  armed :=
    have ⟨set, hle, hat⟩ := h.armed
    ⟨set, hle, hat.timer, hat.waiting, hat.in_time⟩
  due := h.due
  current := h.current
  goesOn := h.goesOn

/-- A subscriber has to do with no other hash than its own. -/
theorem of_fields (h : Follows server now s)
    (hfields : server'.fields (hashKey s.lockKey) = server.fields (hashKey s.lockKey)) :
    Follows server' now s where
  judged := h.judged
  armed := h.armed
  due := h.due
  current hstreaming hcurrent := hfields ▸ h.current hstreaming hcurrent
  goesOn := h.goesOn

/-- A stream that has something to read or has ended says nothing about what is held. -/
theorem resubscribed (h : Follows server now s) {subscription : Subscription}
    (hstream : ∃ unread, s.subscription = .streaming unread)
    (hnew : subscription = .ended ∨ ∃ unread, subscription = .streaming (unread + 1)) :
    Follows server' now { s with subscription } := by
  obtain ⟨unread, hstream⟩ := hstream
  have hsince : s.waitingSince? = none := by rw [waitingSince?, hstream]
  obtain ⟨judged, hjudged, hat⟩ := h.judged
  obtain ⟨set, hset, harmed⟩ := h.armed
  refine ⟨⟨judged, hjudged, hat.isBlocked, hat.nextExpiry_le⟩, ⟨set, hset, harmed.timer, ?_, ?_⟩,
    h.due, ?_, ?_⟩
  · rcases hnew with rfl | ⟨_, rfl⟩ <;> exact nofun
  · intro expiry hexpiry
    rcases harmed.in_time expiry hexpiry with hle | ⟨hwaiting, -⟩
    · exact .inl hle
    · rw [hsince] at hwaiting
      cases hwaiting
  · rcases hnew with rfl | ⟨_, rfl⟩ <;> exact nofun
  · rcases hnew with rfl | ⟨_, rfl⟩ <;> exact nofun

theorem breakStream (h : Follows server now s) : Follows server now s.breakStream := by
  unfold HashStore.breakStream
  split
  · next unread hstream => exact h.resubscribed ⟨unread, hstream⟩ (.inl rfl)
  · exact h

theorem hear_of_streaming (h : Follows server now s) {unread : Nat}
    (hstream : s.subscription = .streaming unread) :
    Follows server' now (s.hear (channelName s.lockKey)) := by
  have hcapacity : min (unread + 1) streamCapacity = min unread (streamCapacity - 1) + 1 := by
    simp only [streamCapacity]
    omega
  simp only [hear, hstream, if_true]
  exact h.resubscribed ⟨unread, hstream⟩ (.inr ⟨_, congrArg Subscription.streaming hcapacity⟩)

/-- Whatever is written is announced to those who listen, and those who do not listen read it when
they subscribe. -/
theorem hear (h : Follows server now s) {lockKey field value : String}
    (hwrite : server.write (hashKey lockKey) field value = some server') :
    Follows server' now (s.hear (channelName lockKey)) := by
  by_cases hkey : lockKey = s.lockKey
  · cases hsub : s.subscription with
    | streaming unread => exact hkey ▸ h.hear_of_streaming hsub
    | _ =>
      -- Nothing is said of what is held without an open stream.
      rw [HashStore.hear, hsub]
      exact { h with current := fun hstreaming => by rw [hsub] at hstreaming; cases hstreaming }
  · have hother : hashKey s.lockKey ≠ hashKey lockKey := fun heq =>
      hkey (hashKey_injective heq).symm
    have hnot : channelName lockKey ≠ channelName s.lockKey := fun heq =>
      hkey (channelName_injective heq)
    have hsame : s.hear (channelName lockKey) = s := by
      unfold HashStore.hear
      split
      · exact if_neg hnot
      · rfl
    rw [hsame]
    exact h.of_fields (HashServer.fields_of_write_of_ne hwrite hother)

/-! ### What the gate says -/

/-- An open gate says that no status held is busy. -/
theorem not_busy_of_opened (h : Follows server now s) (hopen : s.house.gate.isBlocked = false)
    {x : Status} (hx : x ∈ s.statuses) : x.isBusyAt now = false := by
  obtain ⟨judged, hle, hat⟩ := h.judged
  cases hbusy : x.isBusyAt now with
  | false => rfl
  | true =>
    rw [hat.isBlocked_iff.mpr ⟨x, hx, Status.isBusyAt_of_le hbusy hle⟩] at hopen
    cases hopen

/-- A blocked gate says that a status held is busy, but for the slack, or for twice the slack for as
long as the slack after the subscriber has begun to wait. -/
theorem busy_of_blocked (h : Follows server now s) (hfired : s.timerFired now = false)
    (hblocked : s.house.gate.isBlocked = true) :
    (∃ x ∈ s.statuses, x.isBusyAt (now - Verdict.expirySlack) = true) ∨
      (∃ since ∈ s.waitingSince?, now < since + Verdict.expirySlack) ∧
        ∃ x ∈ s.statuses, x.isBusyAt (now - 2 * Verdict.expirySlack) = true := by
  obtain ⟨judged, -, hat⟩ := h.judged
  obtain ⟨set, -, harmed⟩ := h.armed
  obtain ⟨x, hx, hbusy⟩ := hat.isBlocked_iff.mp hblocked
  have hflag := (Status.isBusyAt_iff.mp hbusy).1
  cases hlease : x.validUntil with
  | none =>
    have hnever : ∀ t, x.validUntil ≠ some t := fun t => by simp [hlease]
    exact .inl ⟨x, hx, Status.isBusyAt_iff.mpr ⟨hflag, fun t ht => absurd ht (hnever t)⟩⟩
  | some t =>
    obtain ⟨expiry, hexpiry, hle⟩ := hat.nextExpiry_le x hx hbusy t hlease
    -- The timer is still to fire, so the next instant is not past it either.
    have hdue : ∀ due ∈ s.timer, now + 1 ≤ due := fun due hdue => by
      have heq : s.timer = some due := hdue
      exact Int.add_one_le_of_lt (by simpa [timerFired, heq] using hfired)
    have hbefore {instant : Int} (hinstant : instant < expiry) : x.isBusyAt instant = true := by
      refine Status.isBusyAt_iff.mpr ⟨hflag, fun u hu => ?_⟩
      cases hlease.symm.trans hu
      exact Int.lt_of_lt_of_le hinstant hle
    rcases harmed.le_slack hdue hexpiry with hslack | ⟨hwaiting, hslack, hset⟩
    · exact .inl ⟨x, hx, hbefore (by omega)⟩
    · exact .inr ⟨⟨set, hwaiting, by omega⟩, x, hx, hbefore (by omega)⟩

end Follows

end HashStore

end Floodgate
