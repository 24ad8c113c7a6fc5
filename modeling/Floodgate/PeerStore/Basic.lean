import Floodgate.Gate.Handler
import Floodgate.PeerStore.Link
import Floodgate.PeerStore.Views
import Floodgate.Replication.Basic
import Floodgate.Text.Blank
/-!
# Floodgate.PeerStore.Basic

**Statuses shared through status servers.** A store keeps a link to every server. A status that is
set goes to all of them through a replicator, under one replication key for each server and
instance; the snapshots that come back are kept as one view for each server and merged, and the
verdict on the merged statuses drives the gate.

Judging the views anew is made of separate steps, each one section of its own when several tasks do
it at once: change the views (`putView`, `dropView`), merge and judge them (`verdict`), drive the
gate (`driveGate`), and publish when the verdict may change on its own (`publishExpiry`). A watcher
sets a timer by the latest expiry that was published and judges anew when it fires.

Removing a server takes it off the list and closes its link; when the link has stopped, everything
written to or received from the server is forgotten.

What a store does by itself is an `Event`, which `step` carries out if it is possible now. Requests
and what a server sends come from outside and are functions of their own. Sending a report takes no
time, so the calls that a section of the replicator starts end within it.
-/

namespace Floodgate

/-- Why a store could not be started. -/
inductive PeerStoreError where
  | emptyInstanceName
  | emptyLockKey
  /-- A server has no address. -/
  | invalidUri (url : String)
  | options (cause : ReplicatorOptionsError)
  deriving DecidableEq, Repr

/-- The wording of the error. -/
def PeerStoreError.message : PeerStoreError → String
  | emptyInstanceName => "instance name must not be empty"
  | emptyLockKey => "lock key must not be empty"
  | invalidUri url => "invalid server url '" ++ url ++ "'"
  | options _ => "invalid replicator options"

/-- A status that was set. -/
structure ReportedStatus where
  instanceName : String
  isBusy : Bool
  lockData : Option String
  deriving DecidableEq, Repr

/-- A report on its way to a server. -/
structure PeerWrite where
  /-- The index of the server's link. -/
  index : Nat
  status : ReportedStatus
  deriving DecidableEq, Repr

/-- A store of one lock key. -/
structure PeerStore where
  /-- The instance that the store belongs to. -/
  instanceName : String
  lockKey : String
  /-- The gate that it drives. -/
  house : Gatehouse
  replicator : Replicator PeerWrite
  /-- A link for each server that it started with. -/
  links : List PeerLink
  /-- The latest snapshot of each server, by the index of its link. -/
  views : List (Nat × View)
  lastStatus : Option ReportedStatus
  /-- When the verdict may change on its own. -/
  nextExpiry : Option Timestamp
  timer : Option Int
  /-- How long a link pauses before it connects again, in milliseconds. -/
  reconnectMillis : Nat
  /-- Whether the watcher of leases has stopped. -/
  isStopped : Bool

namespace PeerStore

/-- The links to the given servers. -/
def freshLinks (urls : List String) : List PeerLink := urls.mapIdx PeerLink.fresh

/-- Starts a store: its instance name is checked first, then the lock key, then the addresses of
the servers in their order, and last the options. What can be the address of a server is for the
transport to say. -/
def startWith (isAddress : String → Bool) (instanceName lockKey : String) (urls : List String)
    (options : ReplicatorOptions) (reconnectMillis : Nat) (house : Gatehouse) (now : Int) :
    Except PeerStoreError PeerStore :=
  if Text.isBlankName instanceName then .error .emptyInstanceName
  else if Text.isBlankName lockKey then .error .emptyLockKey
  else
    match urls.find? (!isAddress ·) with
    | some url => .error (.invalidUri url)
    | none =>
      match options.validate with
      | .error cause => .error (.options cause)
      | .ok plan =>
        .ok { instanceName, lockKey, house, replicator := .start plan now
              links := freshLinks urls, views := [], lastStatus := none, nextExpiry := none
              timer := none, reconnectMillis, isStopped := false }

/-! ### Links -/

def link? (s : PeerStore) (index : Nat) : Option PeerLink := s.links.find? (·.index == index)

def updateLink (s : PeerStore) (index : Nat) (f : PeerLink → PeerLink) : PeerStore :=
  { s with links := s.links.map fun l => if l.index = index then f l else l }

/-- The links to the servers that have not been removed. -/
def listed (s : PeerStore) : List PeerLink := s.links.filter (·.isListed)

/-- The addresses of the servers that have not been removed. -/
def peerUrls (s : PeerStore) : List String := s.listed.map (·.url)

/-- Whether a stream to every server that the store started with has been open at least once. -/
def isReady (s : PeerStore) : Bool := s.links.all (·.hasRegistered)

/-- The attempt or the stream of a link has failed. -/
def failLink (s : PeerStore) (now : Int) (index : Nat) : PeerStore :=
  s.updateLink index (·.fail now s.reconnectMillis)

/-! ### Reporting -/

/-- The replication key of an instance's reports to a server. -/
def replicationKey (index : Nat) (instanceName : String) : String :=
  Text.natText index ++ "-" ++ instanceName

/-- The report of a status, with a lease if there is one. -/
def request (s : PeerStore) (status : ReportedStatus) (lease : Option Timestamp) :
    StatusRequest where
  lockKey := s.lockKey
  instanceId := status.instanceName
  status := ⟨status.isBusy, status.lockData.getD "", Timestamp.toWire lease⟩

/-- What the first message of a stream says: the status that was set last, idle if none was. -/
def registered (s : PeerStore) : ReportedStatus :=
  s.lastStatus.getD ⟨s.instanceName, false, none⟩

/-- The first message of a stream, with a fresh lease if the calendar reaches its end. -/
def registration (s : PeerStore) (now : Int) : Option StatusRequest :=
  (s.replicator.leaseDeadline now).map fun lease => s.request s.registered (some lease)

/-- Registers a status for one server. -/
def report (s : PeerStore) (status : ReportedStatus) (l : PeerLink) : PeerStore :=
  let key := replicationKey l.index status.instanceName
  let s := s.updateLink l.index fun l =>
    { l with keys := if key ∈ l.keys then l.keys else l.keys ++ [key] }
  { s with replicator := (s.replicator.register key ⟨l.index, status⟩).1 }

/-- Sets the status of an instance. It is reported to the servers in the background. -/
def setStatus (s : PeerStore) (status : ReportedStatus) : Except StoreError Unit × PeerStore :=
  if s.replicator.isShutDown then (.error .shutDown, s)
  else
    match LockData.validate status.lockData [] with
    | .error e => (.error e, s)
    | .ok () => (.ok (), s.listed.foldl (report · status) { s with lastStatus := some status })

/-- Sends a report to a server. It fails if no stream to the server is open. -/
def send (s : PeerStore) (write : PeerWrite) (lease : Timestamp) :
    Except StoreError Unit × PeerStore :=
  match s.link? write.index with
  | none => (.error (.disconnected ""), s)
  | some l =>
    match l.send (s.request write.status (some lease)) with
    | some l => (.ok (), s.updateLink write.index fun _ => l)
    | none => (.error (.disconnected l.url), s)

/-! ### Judging the views -/

/-- Takes up the snapshot of a server. A snapshot of another lock key changes nothing. -/
def putView (s : PeerStore) (index : Nat) (n : Notification) : PeerStore :=
  if n.lockKey = s.lockKey then
    { s with views := Assoc.put index (View.ofStatuses n.statuses) s.views }
  else
    s

/-- Forgets the snapshot of a server. -/
def dropView (s : PeerStore) (index : Nat) : PeerStore :=
  { s with views := Assoc.erase index s.views }

def merged (s : PeerStore) : List Status := mergeViews (s.views.map (·.2))

/-- The verdict on the merged statuses. -/
def verdict (s : PeerStore) (now : Int) : Verdict := Verdict.ofStatuses s.merged now

def driveGate (s : PeerStore) (verdict : Verdict) : PeerStore :=
  { s with house := s.house.drive verdict }

/-- Publishes when a verdict may change on its own; the watcher sets its timer by it. -/
def publishExpiry (s : PeerStore) (now : Int) (expiry : Option Timestamp) : PeerStore :=
  let timer :=
    if s.isStopped then none else Verdict.expiryTimer now (expiry.map (·.millis))
  { s with nextExpiry := expiry, timer }

/-- Judges the views anew. -/
def reevaluate (s : PeerStore) (now : Int) : PeerStore :=
  let verdict := s.verdict now
  (s.driveGate verdict).publishExpiry now verdict.nextExpiry

/-- Takes up the snapshot of a server and judges the views anew. -/
def applySnapshot (s : PeerStore) (now : Int) (index : Nat) (n : Notification) : PeerStore :=
  (s.putView index n).reevaluate now

def timerFired (s : PeerStore) (now : Int) : Bool :=
  match s.timer with
  | some due => due ≤ now
  | none => false

/-! ### Removing a server, and shutting down -/

/-- Takes the first server of an address off the list and closes its link. -/
def unlist (s : PeerStore) (url : String) : Option (PeerStore × Nat) :=
  (s.listed.find? (·.url == url)).map fun l =>
    (s.updateLink l.index fun l => { l.close with isListed := false }, l.index)

/-- Forgets everything written to or received from a server whose link has stopped. -/
def forgetPeer (s : PeerStore) (now : Int) (index : Nat) : PeerStore :=
  let keys := match s.link? index with
    | some l => l.keys
    | none => []
  let s := { s with replicator := keys.foldl Replicator.forget s.replicator }
  let s := s.updateLink index fun l => { l with keys := [] }
  (s.dropView index).reevaluate now

/-- Removes the first server of an address. The flag says whether there was one. -/
def removePeer (s : PeerStore) (now : Int) (url : String) : Bool × PeerStore :=
  match s.unlist url with
  | some (s, index) => (true, s.forgetPeer now index)
  | none => (false, s)

/-- Shuts the store down. What has been reported stays on the servers until its lease ends. -/
def shutDown (s : PeerStore) (now : Int) : PeerStore :=
  let s := { s with
    isStopped := true
    timer := none
    links := s.links.map fun (l : PeerLink) => if l.isListed then l.close else l }
  match s.replicator.step now .shutDown with
  | some (replicator, _) => { s with replicator }
  | none => s

/-! ### What a store does by itself -/

def carryOut (now : Int) (s : PeerStore) (c : Call PeerWrite) : PeerStore :=
  let (result, s) := s.send c.action c.lease
  match s.replicator.step now (.callEnded c.caller result.isOk) with
  | some (replicator, _) => { s with replicator }
  | none => s

/-- What a store does by itself. -/
inductive Event where
  /-- A section of the replicator, with the calls that it starts. -/
  | replicate (event : Replicator.Event PeerWrite)
  /-- The watcher judges the views anew, because its timer has fired. -/
  | watch
  /-- The pause of a link is over, and it connects again. -/
  | resume (index : Nat)

/-- Carries out one section, if it is possible now. -/
def step (s : PeerStore) (now : Int) : Event → Option PeerStore
  | .replicate event =>
    if event.isOwn then
      (s.replicator.step now event).map fun (replicator, calls) =>
        calls.foldl (carryOut now) { s with replicator }
    else
      none
  | .watch => if s.timerFired now then some (s.reevaluate now) else none
  | .resume index =>
    (s.link? index).bind fun l => (l.retry now).map fun l => s.updateLink index fun _ => l

/-- The sections of a store, in the order in which it tries them. -/
def candidates (s : PeerStore) : List Event :=
  s.replicator.candidates.map .replicate ++ [.watch] ++ s.links.map fun l => .resume l.index

/-- Carries out the first section that is possible now. -/
def work (s : PeerStore) (now : Int) : Option PeerStore := s.candidates.findSome? (s.step now)

/-- The instants at which timers of the store fire. -/
def timers (s : PeerStore) : List Int :=
  s.links.filterMap PeerLink.pauseEnd? ++ s.timer.toList ++ s.replicator.timers

end PeerStore

end Floodgate
