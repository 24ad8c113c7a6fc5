import Floodgate.Assoc
import Floodgate.Wire
/-!
# Floodgate.Server.Table

**What every instance reported, by lock key.** Each lock key has an entry with the latest status of
each instance, and the entry publishes a snapshot of them whenever they change. A receiver is
attached to one entry and remembers which of its snapshots it has seen; a receiver that is slow
sees only the latest one.

Pruning drops the statuses whose lease ended before a cutoff, and then the entries that have
neither a status nor a receiver. Entries are numbered when they are made, so that an entry made
anew for a lock key can be told from the one before it.
-/

namespace Floodgate

/-- What a table knows of one lock key. -/
structure TableEntry where
  number : Nat
  lockKey : String
  /-- The latest status of each instance. -/
  instances : List (String × WireStatus)
  /-- The latest snapshot that was published. -/
  snapshot : Notification
  /-- How many snapshots have been published. -/
  version : Nat
  deriving DecidableEq, Repr

/-- Someone who reads the snapshots of an entry. -/
structure Receiver where
  number : Nat
  entry : Nat
  /-- The version of the latest snapshot that it has seen. -/
  seen : Nat
  deriving DecidableEq, Repr

/-- The statuses of all lock keys. -/
structure StatusTable where
  /-- The entries, each lock key once. -/
  entries : List TableEntry
  receivers : List Receiver
  nextEntry : Nat
  nextReceiver : Nat
  deriving DecidableEq, Repr

namespace TableEntry

/-- An entry without statuses. -/
def fresh (number : Nat) (lockKey : String) : TableEntry := ⟨number, lockKey, [], ⟨lockKey, []⟩, 0⟩

/-- Publishes a snapshot of the statuses. -/
def publish (e : TableEntry) : TableEntry :=
  { e with snapshot := ⟨e.lockKey, e.instances⟩, version := e.version + 1 }

/-- Records the status of an instance, and publishes. -/
def put (e : TableEntry) (instanceId : String) (status : WireStatus) : TableEntry :=
  { e with instances := Assoc.put instanceId status e.instances }.publish

end TableEntry

/-- Whether the lease of a status ended before a cutoff. A status without a lease never expires. -/
def WireStatus.expiredBefore (w : WireStatus) (cutoff : Timestamp) : Bool :=
  match Timestamp.ofWire w.validUntilMillis with
  | some validUntil => validUntil.millis < cutoff.millis
  | none => false

namespace StatusTable

/-- A table without entries. -/
def empty : StatusTable := ⟨[], [], 0, 0⟩

def entryFor? (t : StatusTable) (lockKey : String) : Option TableEntry :=
  t.entries.find? (·.lockKey == lockKey)

/-- The table with an entry for a lock key, made if there is none. -/
def withEntry (t : StatusTable) (lockKey : String) : StatusTable :=
  match t.entryFor? lockKey with
  | some _ => t
  | none =>
    { t with
      entries := t.entries ++ [.fresh t.nextEntry lockKey]
      nextEntry := t.nextEntry + 1 }

/-- Records a report and publishes the new snapshot of its lock key. -/
def upsert (t : StatusTable) (r : StatusRequest) : StatusTable :=
  let t := t.withEntry r.lockKey
  { t with entries := t.entries.map fun e =>
      if e.lockKey = r.lockKey then e.put r.instanceId r.status else e }

/-- Attaches a receiver to the entry of a lock key. It has seen the present snapshot. -/
def subscribe (t : StatusTable) (lockKey : String) : StatusTable × Nat :=
  let t := t.withEntry lockKey
  match t.entryFor? lockKey with
  | none => (t, t.nextReceiver)
  | some e =>
    ({ t with
      receivers := t.receivers ++ [⟨t.nextReceiver, e.number, e.version⟩]
      nextReceiver := t.nextReceiver + 1 }, t.nextReceiver)

def entryOf? (t : StatusTable) (receiver : Nat) : Option (Receiver × TableEntry) := do
  let r ← t.receivers.find? (·.number == receiver)
  let e ← t.entries.find? (·.number == r.entry)
  pure (r, e)

/-- Whether a snapshot has been published that a receiver has not seen. -/
def hasChanged (t : StatusTable) (receiver : Nat) : Bool :=
  match t.entryOf? receiver with
  | some (r, e) => r.seen != e.version
  | none => false

/-- The latest snapshot for a receiver, which has seen it from now on. -/
def read (t : StatusTable) (receiver : Nat) : Option (Notification × StatusTable) :=
  (t.entryOf? receiver).map fun (_, e) =>
    (e.snapshot, { t with receivers := t.receivers.map fun r =>
      if r.number = receiver then { r with seen := e.version } else r })

/-- Drops a receiver. -/
def unsubscribe (t : StatusTable) (receiver : Nat) : StatusTable :=
  { t with receivers := t.receivers.filter (·.number ≠ receiver) }

/-- Whether an entry has a receiver. -/
def isWatched (t : StatusTable) (e : TableEntry) : Bool := t.receivers.any (·.entry == e.number)

/-- An entry without its expired statuses, published if there were any, and their number. -/
def pruneEntry (cutoff : Timestamp) (e : TableEntry) : TableEntry × Nat :=
  let kept := e.instances.filter fun (_, status) => !status.expiredBefore cutoff
  let removed := e.instances.length - kept.length
  if removed = 0 then (e, 0) else ({ e with instances := kept }.publish, removed)

/-- Drops expired statuses, and then the entries that are empty and that nobody watches. The answer
counts the statuses. -/
def prune (t : StatusTable) (cutoff : Timestamp) : StatusTable × Nat :=
  let pruned := t.entries.map (pruneEntry cutoff)
  let entries := (pruned.map (·.1)).filter fun e => !e.instances.isEmpty || t.isWatched e
  ({ t with entries }, pruned.foldl (fun total e => total + e.2) 0)

/-- The latest snapshots of all lock keys, in order. -/
def snapshots (t : StatusTable) : List Notification :=
  (t.entries.map (·.snapshot)).mergeSort fun a b => a.lockKey ≤ b.lockKey

end StatusTable

end Floodgate
