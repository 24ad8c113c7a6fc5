import Floodgate.Replication.Options
/-!
# Floodgate.Replication.Basic

**At-least-once delivery of the latest write of each key.** A replicator holds, for every key, the
latest write registered for it. Registering a write starts a delivery and supersedes the one that
was pending; a delivery repeats its call under the retry policy until the call succeeds, the
delivery is cancelled, or the policy gives up. What was given up stays pending until a flush
registers it again. Leases are kept alive by renewals, which call the latest write of every key.

Design points:

* **A generation names a delivery.** Registrations are numbered; the pending mark of a key carries
  the generation of its delivery, so a delivery that finishes late changes nothing that a later one
  has written.
* **A lane orders the calls of a key.** Each entry gets a lane when it is made, and whoever wants to
  call waits for it in line. The lines of all lanes are kept as one list of claims in the order in
  which they were made: a claim is granted if it is the first of its lane. An entry made after its
  key was forgotten gets a new lane.
* **Every change is one section** between two moments at which other tasks may run. A section is an
  `Event`, and `step` carries it out if it is possible now. What a replicator does to the outside,
  starting a call of a write, is returned as a `Call`; how the call ended comes back as an event.
* **Only attempts count as in flight.** Renewals are not counted, and neither are deliveries that
  wait for a lane or for a retry. The loops for renewal and recovery skip a tick while something is
  in flight.
-/

namespace Floodgate

/-! ### Types -/

/-- Who calls a write. -/
inductive Caller where
  | delivery (generation : Nat)
  | renewal (number : Nat)
  deriving DecidableEq, Repr

/-- The start of a call. -/
structure Call (α : Type) where
  caller : Caller
  /-- The key that the write belongs to. -/
  key : String
  /-- The write. -/
  action : α
  /-- The lease deadline to write down. -/
  lease : Timestamp

/-- A write that has been registered and not yet delivered. -/
structure Pending where
  generation : Nat
  /-- Whether the delivery is still trying. -/
  retrying : Bool
  deriving DecidableEq, Repr

/-- What a replicator knows of a key. -/
structure ReplicationEntry (α : Type) where
  key : String
  /-- The latest write registered for it. -/
  current : α
  lane : Nat
  /-- Whether the latest write has still to be delivered. -/
  pending : Option Pending

/-- Where a delivery stands. -/
inductive Delivery.Stage where
  /-- It is about to see whether it has been cancelled, and then to wait for its lane. -/
  | ready
  /-- It waits for its lane. -/
  | queued
  | calling
  /-- It waits until the instant, or until it is cancelled, before it tries again. -/
  | backoff (until_ : Int)
  deriving DecidableEq, Repr

/-- The delivery of a registered write. -/
structure Delivery (α : Type) where
  /-- The number of its registration. -/
  generation : Nat
  key : String
  /-- The write. -/
  action : α
  lane : Nat
  /-- Whether it has been superseded, forgotten or shut down. -/
  cancelled : Bool
  /-- How many attempts have failed. -/
  failures : Nat
  /-- Where it stands. -/
  stage : Delivery.Stage

/-- The renewal of the lease of one key. -/
structure Renewal where
  number : Nat
  key : String
  /-- The lane that it waits for or holds. -/
  lane : Nat
  calling : Bool
  deriving DecidableEq, Repr

/-- A place in the line of a lane. -/
structure LaneClaim where
  lane : Nat
  /-- Who waits for it or holds it. -/
  caller : Caller
  deriving DecidableEq, Repr

/-- A replicator of writes of type `α`. -/
structure Replicator (α : Type) where
  /-- Its periods and its retry policy. -/
  plan : ReplicationPlan
  /-- The keys it knows, each once. -/
  entries : List (ReplicationEntry α)
  /-- The deliveries that have not finished, in the order of their registration. -/
  deliveries : List (Delivery α)
  /-- The renewals of the present tick that have not finished. -/
  renewals : List Renewal
  /-- The claims on lanes, oldest first. -/
  claims : List LaneClaim
  /-- The generations that the recovery loop waits for. -/
  recovering : List Nat
  /-- The generations that the flushes asked for from outside wait for, one list for each. -/
  flushes : List (List Nat)
  /-- The generations whose task has died. Who waits for one of them waits for ever. -/
  dead : List Nat
  /-- How many attempts are in progress. -/
  inFlight : Nat
  nextGeneration : Nat
  nextLane : Nat
  nextRenewal : Nat
  isShutDown : Bool
  /-- When the renewal loop ticks next; none once it has stopped. -/
  renewalTick : Option Int
  /-- When the recovery loop ticks next; none once it has stopped. -/
  recoveryTick : Option Int

namespace Replicator

variable {α : Type}

/-- A replicator that starts now. Its loops tick first one period later. -/
def start (plan : ReplicationPlan) (now : Int) : Replicator α where
  plan
  entries := []
  deliveries := []
  renewals := []
  claims := []
  recovering := []
  flushes := []
  dead := []
  inFlight := 0
  nextGeneration := 1
  nextLane := 0
  nextRenewal := 0
  isShutDown := false
  renewalTick := some (now + plan.renewal.timerMillis)
  recoveryTick := some (now + plan.recovery.timerMillis)

/-! ### Looking -/

def entryFor? (r : Replicator α) (key : String) : Option (ReplicationEntry α) :=
  r.entries.find? (·.key == key)

/-- Whether a key has a write that has still to be delivered. -/
def isPending (r : Replicator α) (key : String) : Bool :=
  match r.entryFor? key with
  | some entry => entry.pending.isSome
  | none => false

def delivery? (r : Replicator α) (generation : Nat) : Option (Delivery α) :=
  r.deliveries.find? (·.generation == generation)

def renewal? (r : Replicator α) (number : Nat) : Option Renewal :=
  r.renewals.find? (·.number == number)

/-- Whether the delivery of a generation that has been given out has come to its end. One whose task
has died has not, although it is gone. -/
def hasReturned (r : Replicator α) (generation : Nat) : Bool :=
  (r.delivery? generation).isNone && generation ∉ r.dead

/-- Whether a caller holds a lane: its claim is the first on it. -/
def holds (r : Replicator α) (lane : Nat) (caller : Caller) : Bool :=
  (r.claims.find? (·.lane == lane)).map (·.caller) == some caller

/-- Whether a caller's call is in progress. -/
def isCalling (r : Replicator α) : Caller → Bool
  | .delivery generation =>
    r.deliveries.any fun d => d.generation == generation && d.stage == .calling
  | .renewal number => r.renewals.any fun n => n.number == number && n.calling

/-- The lease deadline of a write made now. -/
def leaseDeadline (r : Replicator α) (now : Int) : Option Timestamp := r.plan.leaseDeadline now

/-! ### Changing one part -/

def updateEntry (r : Replicator α) (key : String)
    (f : ReplicationEntry α → ReplicationEntry α) : Replicator α :=
  { r with entries := r.entries.map fun e => if e.key = key then f e else e }

def updateDelivery (r : Replicator α) (generation : Nat) (f : Delivery α → Delivery α) :
    Replicator α :=
  { r with deliveries := r.deliveries.map fun d => if d.generation = generation then f d else d }

/-- Gets in line for a lane. -/
def claim (r : Replicator α) (lane : Nat) (caller : Caller) : Replicator α :=
  { r with claims := r.claims ++ [⟨lane, caller⟩] }

/-- Leaves the line of a lane, or lets go of it. -/
def release (r : Replicator α) (caller : Caller) : Replicator α :=
  { r with claims := r.claims.filter (·.caller ≠ caller) }

/-- Ends a delivery. -/
def finish (r : Replicator α) (generation : Nat) : Replicator α :=
  let r := r.release (.delivery generation)
  { r with deliveries := r.deliveries.filter (·.generation ≠ generation) }

/-- Ends a renewal. -/
def finishRenewal (r : Replicator α) (number : Nat) : Replicator α :=
  let r := r.release (.renewal number)
  { r with renewals := r.renewals.filter (·.number ≠ number) }

/-- Cancels the delivery of a pending write. -/
def cancel (r : Replicator α) (pending : Option Pending) : Replicator α :=
  match pending with
  | some p => r.updateDelivery p.generation fun d => { d with cancelled := true }
  | none => r

/-! ### Registering -/

/-- The entry of a key, made with a new lane if there is none. -/
def withEntry (r : Replicator α) (key : String) (action : α) :
    Replicator α × ReplicationEntry α :=
  match r.entryFor? key with
  | some entry => (r, entry)
  | none =>
    let entry := ⟨key, action, r.nextLane, none⟩
    ({ r with entries := r.entries ++ [entry], nextLane := r.nextLane + 1 }, entry)

/-- Registers a write as the latest one of its key and starts its delivery, under a new generation.
The delivery that was pending is cancelled. Once the replicator has been shut down, the delivery is
cancelled from the start. -/
def register (r : Replicator α) (key : String) (action : α) : Replicator α × Nat :=
  let generation := r.nextGeneration
  let (r, entry) := r.withEntry key action
  let r := r.cancel entry.pending
  let r := r.updateEntry key fun e =>
    { e with current := action, pending := some ⟨generation, true⟩ }
  let delivery :=
    { generation, key, action, lane := entry.lane, cancelled := r.isShutDown, failures := 0,
      stage := .ready }
  ({ r with
    deliveries := r.deliveries ++ [delivery]
    nextGeneration := generation + 1 }, generation)

/-- Forgets a key: its pending delivery is cancelled, and it is no longer renewed. -/
def forget (r : Replicator α) (key : String) : Replicator α :=
  match r.entryFor? key with
  | some entry =>
    let r := r.cancel entry.pending
    { r with entries := r.entries.filter (·.key ≠ key) }
  | none => r

/-! ### Taking up what was given up -/

/-- The keys whose delivery has given up, with its generation. -/
def abandoned (r : Replicator α) : List (String × Nat) :=
  r.entries.filterMap fun e =>
    match e.pending with
    | some p => if p.retrying then none else some (e.key, p.generation)
    | none => none

/-- The latest write of a key, if the generation that gave it up is still the latest one. -/
def abandonedWrite? (r : Replicator α) (key : String) (generation : Nat) : Option α :=
  match r.entryFor? key with
  | some entry => if entry.pending = some ⟨generation, false⟩ then some entry.current else none
  | none => none

/-- Registers the latest write of a key again, if the generation that gave it up is still the
latest one. -/
def reregister (r : Replicator α) (key : String) (generation : Nat) :
    Replicator α × Option Nat :=
  match r.abandonedWrite? key generation with
  | some action =>
    let (r, generation) := r.register key action
    (r, some generation)
  | none => (r, none)

/-- Registers again what some keys gave up, and collects the new generations. -/
def reregisterAll (r : Replicator α) : List (String × Nat) → Replicator α × List Nat
  | [] => (r, [])
  | (key, generation) :: rest =>
    let (r, new) := r.reregister key generation
    let (r, news) := r.reregisterAll rest
    (r, new.toList ++ news)

/-- Registers again everything that was given up, with the new generations. -/
def flush (r : Replicator α) : Replicator α × List Nat := r.reregisterAll r.abandoned

/-- A flush asked for from outside: one task starts all its deliveries and waits for them. -/
def flushPending (r : Replicator α) : Replicator α × List Nat :=
  let (r, generations) := r.flush
  ({ r with flushes := r.flushes ++ [generations] }, generations)

/-! ### Delivering -/

/-- Notes that the write of a generation has been delivered, if it is still the latest one. -/
def markDelivered (r : Replicator α) (key : String) (generation : Nat) : Replicator α :=
  r.updateEntry key fun e =>
    if e.pending.map (·.generation) = some generation then { e with pending := none } else e

/-- Notes that the delivery of a generation has given up, if it is still the latest one. -/
def markAbandoned (r : Replicator α) (key : String) (generation : Nat) : Replicator α :=
  r.updateEntry key fun e =>
    if e.pending.map (·.generation) = some generation then
      { e with pending := some ⟨generation, false⟩ }
    else
      e

/-- Stops the renewal loop: the renewals of its present tick are dropped, also in the middle of a
call. -/
def stopRenewals (r : Replicator α) : Replicator α :=
  let numbers := r.renewals.map (·.number)
  { r with
    renewalTick := none
    renewals := []
    claims := r.claims.filter fun c => c.caller ∉ numbers.map Caller.renewal }

/-- Drops deliveries, also in the middle of a call. -/
def drop (r : Replicator α) (generations : List Nat) : Replicator α :=
  let dropped := r.deliveries.filter (·.generation ∈ generations)
  { r with
    deliveries := r.deliveries.filter (·.generation ∉ generations)
    claims := r.claims.filter fun c => c.caller ∉ generations.map Caller.delivery
    inFlight := r.inFlight - (dropped.filter (·.stage == .calling)).length }

/-- Stops the recovery loop: the deliveries of its present tick are dropped. -/
def stopRecovery (r : Replicator α) : Replicator α :=
  { r.drop r.recovering with recoveryTick := none, recovering := [] }

/-- The generations that are delivered by the task that delivers one of them: those of its flush, or
it alone. -/
def companions (r : Replicator α) (generation : Nat) : List Nat :=
  (r.flushes.find? (generation ∈ ·)).getD [generation]

/-- Ends a delivery whose lease would end beyond the calendar. Its task dies, and what else the task
delivers is dropped; if the task is the recovery loop, the loop has stopped. -/
def perish (r : Replicator α) (generation : Nat) : Replicator α :=
  if generation ∈ r.recovering then
    { r.stopRecovery with dead := r.dead ++ r.recovering }
  else
    { r.drop (r.companions generation) with dead := r.dead ++ r.companions generation }

/-- One section of a delivery, if it can go on now. -/
def resumeDelivery (r : Replicator α) (now : Int) (d : Delivery α) :
    Option (Replicator α × List (Call α)) :=
  match d.stage with
  | .ready =>
    if d.cancelled then
      some (r.finish d.generation, [])
    else
      let r := r.updateDelivery d.generation fun d => { d with stage := .queued }
      some (r.claim d.lane (.delivery d.generation), [])
  | .queued =>
    if r.holds d.lane (.delivery d.generation) then
      if d.cancelled then
        some (r.finish d.generation, [])
      else
        match r.leaseDeadline now with
        | none => some (r.perish d.generation, [])
        | some lease =>
          let r := r.updateDelivery d.generation fun d => { d with stage := .calling }
          some ({ r with inFlight := r.inFlight + 1 },
            [⟨.delivery d.generation, d.key, d.action, lease⟩])
    else
      none
  | .calling => none
  | .backoff until_ =>
    if d.cancelled || until_ ≤ now then
      some (r.updateDelivery d.generation fun d => { d with stage := .ready }, [])
    else
      none

/-- The end of a delivery's call: the lane is free again, and the write is delivered, tried again
later, or given up. -/
def endAttempt (r : Replicator α) (now : Int) (d : Delivery α) (ok : Bool) : Replicator α :=
  let r := { r.release (.delivery d.generation) with inFlight := r.inFlight - 1 }
  if ok then
    (r.markDelivered d.key d.generation).finish d.generation
  else
    let failures := d.failures + 1
    match r.plan.retry.delayAfter failures with
    | some delay =>
      r.updateDelivery d.generation fun d =>
        { d with failures, stage := .backoff (now + delay.timerMillis) }
    | none => (r.markAbandoned d.key d.generation).finish d.generation

/-! ### Renewing -/

/-- One section of a renewal, if it can go on now: once it holds its lane, it calls the write that
is the latest one of its key by then. -/
def resumeRenewal (r : Replicator α) (now : Int) (n : Renewal) :
    Option (Replicator α × List (Call α)) :=
  if n.calling then none
  else if r.holds n.lane (.renewal n.number) then
    match r.entryFor? n.key with
    | none => some (r.finishRenewal n.number, [])
    | some entry =>
      match r.leaseDeadline now with
      | none => some (r.stopRenewals, [])
      | some lease =>
        let renewals := r.renewals.map fun m =>
          if m.number = n.number then { m with calling := true } else m
        some ({ r with renewals }, [⟨.renewal n.number, n.key, entry.current, lease⟩])
  else
    none

def renew (r : Replicator α) (entry : ReplicationEntry α) : Replicator α :=
  let number := r.nextRenewal
  let renewal : Renewal := ⟨number, entry.key, entry.lane, false⟩
  let r := { r with renewals := r.renewals ++ [renewal], nextRenewal := number + 1 }
  r.claim entry.lane (.renewal number)

/-- Starts a renewal of every key, unless an attempt is in flight. -/
def renewAll (r : Replicator α) : Replicator α :=
  if r.inFlight = 0 then r.entries.foldl renew r else r

/-- Registers again everything that was given up, unless an attempt is in flight. -/
def recover (r : Replicator α) : Replicator α :=
  if r.inFlight = 0 then
    let (r, generations) := r.flush
    { r with recovering := generations }
  else
    r

/-! ### Sections -/

/-- Whether the renewals of the last tick have not all finished. -/
def isRenewing (r : Replicator α) : Bool := !r.renewals.isEmpty

/-- Whether the deliveries that the recovery loop started have not all finished. -/
def isRecovering (r : Replicator α) : Bool := r.deliveries.any (·.generation ∈ r.recovering)

/-- What can happen to a replicator. -/
inductive Event (α : Type) where
  | register (key : String) (action : α)
  | forget (key : String)
  /-- Everything that was given up is registered again. -/
  | flush
  /-- A delivery or a renewal goes on. -/
  | resume (caller : Caller)
  | callEnded (caller : Caller) (ok : Bool)
  | renewalTick
  | recoveryTick
  /-- The replicator is shut down: every delivery is cancelled. -/
  | shutDown
  /-- The renewal loop notices the shut-down. -/
  | stopRenewals
  /-- The recovery loop notices the shut-down. -/
  | stopRecovery

/-- Carries out one section, if it is possible now, with the calls that it starts. -/
def step (r : Replicator α) (now : Int) : Event α → Option (Replicator α × List (Call α))
  | .register key action => some ((r.register key action).1, [])
  | .forget key => some (r.forget key, [])
  | .flush => some (r.flushPending.1, [])
  | .resume (.delivery generation) => (r.delivery? generation).bind (r.resumeDelivery now)
  | .resume (.renewal number) => (r.renewal? number).bind (r.resumeRenewal now)
  | .callEnded (.delivery generation) ok =>
    match r.delivery? generation with
    | some d => if d.stage = .calling then some (r.endAttempt now d ok, []) else none
    | none => none
  | .callEnded (.renewal number) _ =>
    match r.renewal? number with
    | some n => if n.calling then some (r.finishRenewal number, []) else none
    | none => none
  | .renewalTick =>
    match r.renewalTick with
    | some due =>
      if due ≤ now && !r.isRenewing then
        let r := { r with renewalTick := some (due + r.plan.renewal.timerMillis) }
        some (r.renewAll, [])
      else
        none
    | none => none
  | .recoveryTick =>
    match r.recoveryTick with
    | some due =>
      if due ≤ now && !r.isRecovering then
        let r := { r with recoveryTick := some (due + r.plan.recovery.timerMillis) }
        some (r.recover, [])
      else
        none
    | none => none
  | .shutDown =>
    some ({ r with
      isShutDown := true
      deliveries := r.deliveries.map fun d => { d with cancelled := true } }, [])
  | .stopRenewals =>
    if r.isShutDown && r.renewalTick.isSome then some (r.stopRenewals, []) else none
  | .stopRecovery =>
    if r.isShutDown && r.recoveryTick.isSome then some (r.stopRecovery, []) else none

/-- Whether an event is a section that the replicator carries out by itself. The other events come
from outside. -/
def Event.isOwn : Event α → Bool
  | .resume _ | .renewalTick | .recoveryTick | .stopRenewals | .stopRecovery => true
  | .register _ _ | .forget _ | .flush | .callEnded _ _ | .shutDown => false

/-- Whether the loops have noticed the shut-down. -/
def loopsStopped (r : Replicator α) : Bool := r.renewalTick.isNone && r.recoveryTick.isNone

/-! ### What to do next -/

/-- The sections that a replicator can carry out by itself, in the order in which it tries them: a
loop that has to stop, the deliveries, the renewals, and the loops. -/
def candidates (r : Replicator α) : List (Event α) :=
  [.stopRenewals, .stopRecovery] ++
    r.deliveries.map (fun d => .resume (.delivery d.generation)) ++
    r.renewals.map (fun n => .resume (.renewal n.number)) ++
    [.renewalTick, .recoveryTick]

/-- Carries out the first section that is possible now. -/
def work (r : Replicator α) (now : Int) : Option (Replicator α × List (Call α)) :=
  r.candidates.findSome? (r.step now)

/-- The instants at which timers of a replicator fire: retry delays that have not been cut short,
and the ticks of loops that have finished their last one. -/
def timers (r : Replicator α) : List Int :=
  let delays := r.deliveries.filterMap fun d =>
    match d.stage with
    | .backoff until_ => if d.cancelled then none else some until_
    | _ => none
  let renewal := if r.isRenewing then [] else r.renewalTick.toList
  let recovery := if r.isRecovering then [] else r.recoveryTick.toList
  delays ++ renewal ++ recovery

end Replicator

end Floodgate
