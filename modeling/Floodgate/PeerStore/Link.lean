import Floodgate.Wire
/-!
# Floodgate.PeerStore.Link

**The connection of a store to one status server.** A link tries to connect, registers, and then
keeps a stream open; after every failure it pauses and tries again, until it is closed. Reports
can be sent only while the stream is open. A failed attempt takes at least a millisecond.
-/

namespace Floodgate

/-- Where a link stands. -/
inductive PeerLink.Stage where
  | connecting
  /-- Its registration is on the way, and reports cannot be sent yet. -/
  | registering
  | streaming
  | pausing (until_ : Int)
  | closed
  deriving DecidableEq, Repr

/-- The connection of a store to one status server. -/
structure PeerLink where
  /-- The place of the server among those that the store started with. -/
  index : Nat
  /-- The address of the server. -/
  url : String
  stage : PeerLink.Stage
  /-- Whether the server is still one of the store's. -/
  isListed : Bool
  /-- Whether a stream to the server has ever been open. -/
  hasRegistered : Bool
  /-- The replication keys of the reports to this server. -/
  keys : List String
  /-- Reports sent and not yet arrived, oldest first. -/
  outbox : List StatusRequest
  deriving DecidableEq, Repr

namespace PeerLink

/-- A link that starts to connect. -/
def fresh (index : Nat) (url : String) : PeerLink :=
  ⟨index, url, .connecting, true, false, [], []⟩

/-- Connected: the registration is the first message of the stream. -/
def connect (l : PeerLink) (registration : StatusRequest) : PeerLink :=
  { l with stage := .registering, outbox := [registration] }

/-- The stream is open: reports can be sent. -/
def openStream (l : PeerLink) : PeerLink := { l with stage := .streaming, hasRegistered := true }

/-- The attempt or the stream has failed: the link tries again after a pause. -/
def fail (l : PeerLink) (now : Int) (pause : Nat) : PeerLink :=
  { l with stage := .pausing (now + (max pause 1 : Nat)), outbox := [] }

def pauseEnd? (l : PeerLink) : Option Int :=
  match l.stage with
  | .pausing until_ => some until_
  | _ => none

/-- The pause is over: the link tries again, if it has not been closed. -/
def retry (l : PeerLink) (now : Int) : Option PeerLink :=
  match l.stage with
  | .pausing until_ => if until_ ≤ now then some { l with stage := .connecting } else none
  | _ => none

/-- Closes the link for good. -/
def close (l : PeerLink) : PeerLink := { l with stage := .closed, outbox := [] }

/-- Whether the link is at one end of a connection. -/
def isConnected (l : PeerLink) : Bool := l.stage == .registering || l.stage == .streaming

/-- Takes the oldest report on the way. -/
def takeReport (l : PeerLink) : Option (StatusRequest × PeerLink) :=
  match l.outbox with
  | [] => none
  | r :: rest => some (r, { l with outbox := rest })

/-- Sends a report, if the stream is open. -/
def send (l : PeerLink) (r : StatusRequest) : Option PeerLink :=
  if l.stage = .streaming then some { l with outbox := l.outbox ++ [r] } else none

end PeerLink

end Floodgate
