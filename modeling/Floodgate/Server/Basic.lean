import Floodgate.Server.Forwarder
import Floodgate.Server.Options
/-!
# Floodgate.Server.Basic

**The status server of many lock keys.** An instance reports its status in a single call, or on a
stream: the first report of a stream selects the lock key, and from then on the stream carries
further reports of that key one way and snapshots of it the other way. The first report that is
refused ends the stream with the reason. Every prune period the server drops statuses whose lease
ended longer ago than the retention.

A stream is served by two tasks, a handler for the reports and a `Forwarder` for the snapshots.
When the handler ends, it takes the forwarder with it; what has been sent by then still arrives.
What the tasks do is an `Event`, which `step` carries out if it is possible now; opening a stream, a
report that arrives, and a subscriber that reads (`arrive`) or leaves come from outside.
-/

namespace Floodgate

/-- What a server sends on a stream. -/
inductive Outbound where
  | snapshot (snapshot : Notification)
  /-- The reason why the stream ends. -/
  | refusal (error : RequestError)
  deriving DecidableEq, Repr

/-- Where the handler of a stream stands. -/
inductive ServerStream.Handler where
  /-- It waits for the first report. -/
  | waiting
  | registered (lockKey : String)
  /-- It waits for room to send the reason why the stream ends. -/
  | refusing (error : RequestError)
  | ended
  deriving DecidableEq, Repr

/-- A stream of one subscriber. -/
structure ServerStream where
  number : Nat
  /-- Reports that have arrived and not been handled, oldest first. -/
  inbound : List StatusRequest
  /-- Whether the subscriber has ended its side. -/
  isClosed : Bool
  /-- The task that handles reports. -/
  handler : ServerStream.Handler
  /-- The task that sends snapshots. -/
  forwarder : Option Forwarder
  /-- What has been sent and not been received, oldest first. -/
  outbound : List Outbound
  deriving DecidableEq, Repr

/-- How many messages to a subscriber can be on their way. -/
def outboundCapacity : Nat := 16

/-- Whether there is room for a message to the subscriber. -/
def ServerStream.hasRoom (s : ServerStream) : Bool := s.outbound.length < outboundCapacity

/-- A status server. -/
structure StatusServer where
  plan : PrunePlan
  table : StatusTable
  streams : List ServerStream
  nextStream : Nat
  /-- When it prunes next; none once pruning has stopped. -/
  pruneTick : Option Int

/-- What a subscriber finds on its stream. -/
inductive Arrival where
  | snapshot (snapshot : Notification)
  /-- The stream has ended with an error. -/
  | refused (error : RequestError)
  | ended
  deriving DecidableEq, Repr

namespace StatusServer

/-- A server that starts now. It prunes at once, and then every period. -/
def start (plan : PrunePlan) (now : Int) : StatusServer := ⟨plan, .empty, [], 0, some now⟩

def stream? (s : StatusServer) (number : Nat) : Option ServerStream :=
  s.streams.find? (·.number == number)

def updateStream (s : StatusServer) (number : Nat) (f : ServerStream → ServerStream) :
    StatusServer :=
  { s with streams := s.streams.map fun e => if e.number = number then f e else e }

/-! ### From the subscribers -/

/-- Takes a report in a single call. -/
def setStatus (s : StatusServer) (r : StatusRequest) : Except RequestError Unit × StatusServer :=
  match r.validate with
  | .ok () => (.ok (), { s with table := s.table.upsert r })
  | .error e => (.error e, s)

def openStream (s : StatusServer) : StatusServer × Nat :=
  ({ s with
    streams := s.streams ++ [⟨s.nextStream, [], false, .waiting, none, []⟩]
    nextStream := s.nextStream + 1 }, s.nextStream)

/-- A report arrives on a stream. -/
def receive (s : StatusServer) (number : Nat) (r : StatusRequest) : StatusServer :=
  s.updateStream number fun e => { e with inbound := e.inbound ++ [r] }

/-- The subscriber ends its side of a stream. -/
def close (s : StatusServer) (number : Nat) : StatusServer :=
  s.updateStream number fun e => { e with isClosed := true }

/-- Takes the receiver of a forwarder out of the table. -/
def abortForwarder (s : StatusServer) (forwarder : Option Forwarder) : StatusServer :=
  match forwarder with
  | some f => { s with table := s.table.unsubscribe f.receiver }
  | none => s

/-- The subscriber goes away: the tasks of its stream end. -/
def leave (s : StatusServer) (number : Nat) : StatusServer :=
  match s.stream? number with
  | some e =>
    let s := s.abortForwarder e.forwarder
    { s with streams := s.streams.filter (·.number ≠ number) }
  | none => s

/-! ### The tasks of a stream -/

/-- Ends the handler of a stream, and its forwarder with it. -/
def endHandler (s : StatusServer) (e : ServerStream) : StatusServer :=
  (s.abortForwarder e.forwarder).updateStream e.number fun e =>
    { e with handler := .ended, forwarder := none }

/-- The handler of a stream refuses a report. -/
def refuse (s : StatusServer) (e : ServerStream) (error : RequestError) : StatusServer :=
  s.updateStream e.number fun e => { e with handler := .refusing error }

/-- The first report of a stream: it is recorded, and snapshots of its lock key start to flow. -/
def register (s : StatusServer) (e : ServerStream) (r : StatusRequest) : StatusServer :=
  match r.validate with
  | .error error => s.refuse e error
  | .ok () =>
    let (table, receiver) := (s.table.upsert r).subscribe r.lockKey
    { s with table }.updateStream e.number fun e =>
      { e with handler := .registered r.lockKey, forwarder := some ⟨receiver, .reading⟩ }

/-- A later report of a stream. -/
def record (s : StatusServer) (e : ServerStream) (lockKey : String) (r : StatusRequest) :
    StatusServer :=
  match r.validate with
  | .error error => s.refuse e error
  | .ok () =>
    if r.lockKey = lockKey then { s with table := s.table.upsert r }
    else s.refuse e .lockKeyDiffers

/-- One section of the handler of a stream, if it can go on. -/
def handle (s : StatusServer) (e : ServerStream) : Option StatusServer :=
  match e.handler with
  | .ended => none
  | .refusing error =>
    if e.hasRoom then
      let s := s.updateStream e.number fun e =>
        { e with outbound := e.outbound ++ [.refusal error] }
      some (s.endHandler e)
    else
      none
  | .waiting =>
    match e.inbound with
    | [] => if e.isClosed then some (s.endHandler e) else none
    | r :: rest => some ((s.updateStream e.number fun e => { e with inbound := rest }).register e r)
  | .registered lockKey =>
    match e.inbound with
    | [] => if e.isClosed then some (s.endHandler e) else none
    | r :: rest =>
      some ((s.updateStream e.number fun e => { e with inbound := rest }).record e lockKey r)

/-- One section of the forwarder of a stream, if it can go on. -/
def forward (s : StatusServer) (e : ServerStream) : Option StatusServer := do
  let f ← e.forwarder
  let (table, f, sent) ← f.step s.table e.hasRoom
  pure ({ s with table }.updateStream e.number fun e =>
    { e with
      forwarder := some f
      outbound := e.outbound ++ (sent.map Outbound.snapshot).toList })

/-- What arrives at the subscriber of a stream, if anything does: the oldest message sent, or the
end of the stream once its handler has ended and everything has been received. A stream that has
ended is gone. -/
def arrive (s : StatusServer) (e : ServerStream) : Option (StatusServer × Arrival) :=
  match e.outbound with
  | .snapshot snapshot :: rest =>
    some (s.updateStream e.number fun e => { e with outbound := rest }, .snapshot snapshot)
  | .refusal error :: _ => some (s.leave e.number, .refused error)
  | [] => if e.handler = .ended then some (s.leave e.number, .ended) else none

/-! ### Pruning -/

/-- Prunes, if it is time to. A cutoff before the calendar ends pruning for good. -/
def pruneIfDue (s : StatusServer) (now : Int) : Option StatusServer :=
  match s.pruneTick with
  | some due =>
    if due ≤ now then
      match s.plan.cutoff now with
      | some cutoff =>
        some { s with
          table := (s.table.prune cutoff).1
          pruneTick := some (due + s.plan.period.timerMillis) }
      | none => some { s with pruneTick := none }
    else
      none
  | none => none

def stopPruning (s : StatusServer) : StatusServer := { s with pruneTick := none }

/-! ### What to do next -/

/-- What a server does by itself. -/
inductive Event where
  | handle (stream : Nat)
  | forward (stream : Nat)
  | prune

/-- Carries out one section, if it is possible now. -/
def step (s : StatusServer) (now : Int) : Event → Option StatusServer
  | .handle stream => (s.stream? stream).bind s.handle
  | .forward stream => (s.stream? stream).bind s.forward
  | .prune => s.pruneIfDue now

/-- The sections of a server, in the order in which it tries them. -/
def candidates (s : StatusServer) : List Event :=
  s.streams.map (fun e => .handle e.number) ++
    s.streams.map (fun e => .forward e.number) ++ [.prune]

/-- Carries out the first section that is possible now. -/
def work (s : StatusServer) (now : Int) : Option StatusServer := s.candidates.findSome? (s.step now)

/-- What arrives first at a subscriber, if anything does at any. -/
def deliver (s : StatusServer) : Option (StatusServer × Nat × Arrival) :=
  s.streams.findSome? fun e => (s.arrive e).map fun (s, arrival) => (s, e.number, arrival)

end StatusServer

end Floodgate
