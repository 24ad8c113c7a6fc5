import Floodgate.Gate.Handler
import Floodgate.HashStore.Field
import Floodgate.HashStore.Server
import Floodgate.Replication.Basic
/-!
# Floodgate.HashStore.Basic

**Statuses shared through a hash, one field for each instance.** A store writes statuses through a
replicator, and every write is announced on the channel of the lock key. Its subscriber reads the
whole hash whenever something is announced, decodes it, and drives the gate by the verdict.

Between announcements the subscriber watches the earliest lease end of the verdict. When the hash
cannot be read, it judges the statuses it holds and tries again within a second, so that leases
lapse also while the server is away. When its stream ends, it waits for a second before it
subscribes again, and a lease that lapses in the meantime starts that second anew.

A stream keeps the latest 64 announcements; a subscriber that falls behind misses the older ones,
which does no harm because each one makes it read everything.
-/

namespace Floodgate

/-- Why a store could not be started. -/
inductive HashStoreError where
  | emptyLockKey
  | options (cause : ReplicatorOptionsError)
  /-- The server failed. -/
  | redis
  deriving DecidableEq, Repr

/-- The wording of the error. -/
def HashStoreError.message : HashStoreError → String
  | emptyLockKey => "lock key must not be empty"
  | options _ => "invalid replicator options"
  | redis => "redis error"

/-- A status on its way into the hash; its lease end is stamped by the call that writes it. -/
structure FieldWrite where
  field : String
  isBusy : Bool
  lockData : Option String
  deriving DecidableEq, Repr

def FieldWrite.value (w : FieldWrite) (lease : Timestamp) : String :=
  HashStore.encode w.isBusy w.lockData (some lease)

/-- How a subscriber hears of changes. -/
inductive Subscription where
  /-- Its stream is open, with so many announcements that it has not read. -/
  | streaming (unread : Nat)
  /-- Its stream has ended, and it has not noticed yet. -/
  | ended
  /-- It subscribes again at the instant. -/
  | waiting (attemptAt : Int)
  | stopped
  deriving DecidableEq, Repr

/-- How many announcements a stream keeps. -/
def streamCapacity : Nat := 64

/-- How long a subscriber waits before it subscribes again, in milliseconds. -/
def resubscribeDelay : Nat := 1000

/-- How soon a hash that could not be read is read again, in milliseconds. -/
def readRetryDelay : Nat := 1000

/-- A store of one lock key. -/
structure HashStore where
  lockKey : String
  /-- The gate that it drives. -/
  house : Gatehouse
  replicator : Replicator FieldWrite
  /-- The statuses it read last. -/
  statuses : List Status
  /-- Whether its last attempt to read the hash succeeded. -/
  isCurrent : Bool
  /-- How it hears of changes. -/
  subscription : Subscription
  /-- When it has to look again without being told. -/
  nextExpiry : Option Int
  timer : Option Int
  isShutDown : Bool

namespace HashStore

/-- Judges the statuses held, drives the gate, and says when the verdict may change on its own. -/
def evaluate (s : HashStore) (now : Int) : HashStore × Option Int :=
  let verdict := Verdict.ofStatuses s.statuses now
  ({ s with house := s.house.drive verdict }, verdict.nextExpiry.map (·.millis))

/-- Takes up what a reading of the hash gave. -/
def refresh (s : HashStore) (now : Int) (fields : List (String × String)) :
    HashStore × Option Int :=
  let statuses := fields.map fun (instanceId, value) => decode instanceId value
  { s with statuses, isCurrent := true }.evaluate now

/-- Sets the timer for the next look. -/
def watchExpiry (s : HashStore) (now : Int) (nextExpiry : Option Int) : HashStore :=
  { s with nextExpiry, timer := Verdict.expiryTimer now nextExpiry }

/-- Reads the hash, or judges the statuses held if it cannot be read and looks again within a
second. -/
def sync (s : HashStore) (now : Int) (reading : Option (List (String × String))) : HashStore :=
  match reading with
  | some fields =>
    let (s, expiry) := s.refresh now fields
    s.watchExpiry now expiry
  | none =>
    let (s, expiry) := { s with isCurrent := false }.evaluate now
    let retryAt := now + readRetryDelay
    s.watchExpiry now (some (match expiry with
      | some expiry => min expiry retryAt
      | none => retryAt))

/-- Starts a store: the lock key is checked first, then the options; then the store subscribes, and
at last it reads the hash. -/
def start (lockKey : String) (options : ReplicatorOptions) (house : Gatehouse) (now : Int)
    (subscribed : Bool) (reading : Option (List (String × String))) :
    Except HashStoreError HashStore :=
  if Text.isBlankName lockKey then .error .emptyLockKey
  else
    match options.validate with
    | .error cause => .error (.options cause)
    | .ok plan =>
      if subscribed then
        match reading with
        | none => .error .redis
        | some fields =>
          let s : HashStore :=
            { lockKey, house, replicator := .start plan now, statuses := [], isCurrent := false,
              subscription := .streaming 0, nextExpiry := none, timer := none,
              isShutDown := false }
          let (s, expiry) := s.refresh now fields
          .ok (s.watchExpiry now expiry)
      else
        .error .redis

/-- Sets the status of an instance. It is written in the background. -/
def setStatus (s : HashStore) (instanceName : String) (isBusy : Bool) (lockData : Option String) :
    Except StoreError Unit × HashStore :=
  if s.replicator.isShutDown then (.error .shutDown, s)
  else
    match LockData.validate lockData [String.singleton delimiter] with
    | .error e => (.error e, s)
    | .ok () =>
      let replicator := (s.replicator.register instanceName ⟨instanceName, isBusy, lockData⟩).1
      (.ok (), { s with replicator })

def hear (s : HashStore) (channel : String) : HashStore :=
  match s.subscription with
  | .streaming unread =>
    if channel = channelName s.lockKey then
      { s with subscription := .streaming (min (unread + 1) streamCapacity) }
    else
      s
  | _ => s

/-- Its stream ends. -/
def breakStream (s : HashStore) : HashStore :=
  match s.subscription with
  | .streaming _ => { s with subscription := .ended }
  | _ => s

/-- Waits before it subscribes again. -/
def waitToSubscribe (s : HashStore) (now : Int) : HashStore :=
  { s with subscription := .waiting (now + resubscribeDelay) }.watchExpiry now s.nextExpiry

/-- What a subscriber can do. -/
inductive Wake where
  | shutDown
  | announcement
  | streamEnd
  | timer
  | subscribe
  deriving DecidableEq, Repr

def timerFired (s : HashStore) (now : Int) : Bool :=
  match s.timer with
  | some due => due ≤ now
  | none => false

/-- What the subscriber can do now. A shut-down comes before everything else. -/
def wake? (s : HashStore) (now : Int) : Option Wake :=
  match s.subscription with
  | .stopped => none
  | .streaming unread =>
    if s.isShutDown then some .shutDown
    else if 0 < unread then some .announcement
    else if s.timerFired now then some .timer
    else none
  | .ended => if s.isShutDown then some .shutDown else some .streamEnd
  | .waiting attemptAt =>
    if s.isShutDown then some .shutDown
    else if s.timerFired now then some .timer
    else if attemptAt ≤ now then some .subscribe
    else none

/-- One section of the subscriber. `subscribed` says whether subscribing again succeeds, and
`reading` is what reading the hash gives. -/
def onWake (s : HashStore) (now : Int) (subscribed : Bool)
    (reading : Option (List (String × String))) : Wake → HashStore
  | .shutDown => { s with subscription := .stopped, timer := none }
  | .announcement =>
    let s := match s.subscription with
      | .streaming unread => { s with subscription := .streaming (unread - 1) }
      | _ => s
    s.sync now reading
  | .streamEnd => s.waitToSubscribe now
  | .timer =>
    match s.subscription with
    | .waiting _ => (s.sync now reading).waitToSubscribe now
    | _ => s.sync now reading
  | .subscribe =>
    if subscribed then { s with subscription := .streaming 0 }.sync now reading
    else s.waitToSubscribe now

/-- Shuts the store down. Statuses already written stay in the hash until their lease ends. -/
def shutDown (s : HashStore) (now : Int) : HashStore :=
  match s.replicator.step now .shutDown with
  | some (replicator, _) => { s with replicator, isShutDown := true }
  | none => { s with isShutDown := true }

/-- The instants at which timers of the store fire. -/
def timers (s : HashStore) : List Int :=
  let subscriber := match s.subscription with
    | .streaming _ => s.timer.toList
    | .waiting attemptAt => attemptAt :: s.timer.toList
    | .ended | .stopped => []
  subscriber ++ s.replicator.timers

end HashStore

end Floodgate
