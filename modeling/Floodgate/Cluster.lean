import Floodgate.PeerStore.Basic
import Floodgate.Server.Basic
/-!
# Floodgate.Cluster

**Stores and status servers on one network.** Stores and servers have places, which they keep for
good. A `Connection` joins a link of a store to a stream of a server. What a link has sent waits in
the link's outbox until it arrives, and what the server has sent waits on its stream; both arrive
oldest first, and a message takes no time of its own.

Design points:

* **Every change is one section,** as in a replicator: an `Event` says which store, server or
  message goes on, and `step` carries it out if it is possible now. Requests from outside
  (`setStatus`, `stop`, …) are functions of their own.
* **Either end can end a connection.** A link that has been closed hangs up, and the tasks of its
  stream end. A stream that the server has ended arrives as a failure of the link, which pauses and
  connects again.
* **A server that has been stopped drains.** It accepts no new streams, goes on serving the open
  ones, and prunes no more once the last one has ended.
* **Whether messages get through is the network's business.** On a severed network every attempt to
  connect fails, whichever servers are listening.
-/

namespace Floodgate

/-- What becomes of attempts to connect. -/
inductive Network where
  /-- They reach the server that listens at the address. -/
  | joined
  /-- They all fail. -/
  | severed
  deriving DecidableEq, Repr

/-- A server on the network. -/
structure ClusterServer where
  /-- Where it listens. -/
  address : String
  server : StatusServer
  /-- Whether it accepts new streams. -/
  isListening : Bool

/-- A link of a store and the stream of a server that it holds. -/
structure Connection where
  store : Nat
  link : Nat
  server : Nat
  stream : Nat
  deriving DecidableEq, Repr

/-- Stores and servers on one network. -/
structure Cluster where
  /-- What becomes of attempts to connect. -/
  network : Network
  /-- The servers by their places. -/
  servers : List ClusterServer
  /-- The stores by their places. -/
  stores : List PeerStore
  connections : List Connection

namespace Cluster

/-- A network without stores and servers. -/
def empty (network : Network) : Cluster := ⟨network, [], [], []⟩

/-! ### Looking -/

def server? (c : Cluster) (place : Nat) : Option StatusServer := (c.servers[place]?).map (·.server)

/-- The place of the server that listens at an address. -/
def listener? (c : Cluster) (address : String) : Option Nat :=
  c.servers.findIdx? fun e => e.isListening && e.address == address

/-- The place of the server that an attempt to connect reaches. -/
def reached? (c : Cluster) (address : String) : Option Nat :=
  match c.network with
  | .joined => c.listener? address
  | .severed => none

/-- The store and the link at one end of a connection. -/
def linkOf? (c : Cluster) (e : Connection) : Option (PeerStore × PeerLink) := do
  let s ← c.stores[e.store]?
  let l ← s.link? e.link
  pure (s, l)

/-- The server and the stream at the other end of a connection. -/
def streamOf? (c : Cluster) (e : Connection) : Option (StatusServer × ServerStream) := do
  let s ← c.server? e.server
  let t ← s.stream? e.stream
  pure (s, t)

/-! ### Changing one part -/

def setStore (c : Cluster) (place : Nat) (s : PeerStore) : Cluster :=
  { c with stores := c.stores.set place s }

def setServer (c : Cluster) (place : Nat) (s : StatusServer) : Cluster :=
  { c with servers := c.servers.modify place fun e => { e with server := s } }

/-- Takes a connection out. -/
def disconnect (c : Cluster) (e : Connection) : Cluster :=
  { c with connections := c.connections.filter (· ≠ e) }

/-! ### Connections -/

/-- A link tries to connect. If it reaches a server, a stream is opened with the registration of the
store on its way. A registration whose lease would end beyond the calendar ends the link. -/
def connect (c : Cluster) (now : Int) (store : Nat) (s : PeerStore) (l : PeerLink) : Cluster :=
  match c.reached? l.url with
  | none => c.setStore store (s.failLink now l.index)
  | some place =>
    match s.registration now, c.server? place with
    | some first, some server =>
      let (server, stream) := server.openStream
      let c := c.setStore store (s.updateLink l.index (·.connect first))
      let c := c.setServer place server
      { c with connections := c.connections ++ [⟨store, l.index, place, stream⟩] }
    | _, _ => c.setStore store (s.updateLink l.index (·.close))

/-- The server has answered: reports can be sent. -/
def answer (c : Cluster) (e : Connection) : Option Cluster := do
  let (s, l) ← c.linkOf? e
  guard (l.stage = .registering)
  pure (c.setStore e.store (s.updateLink e.link (·.openStream)))

/-- The oldest report on the way arrives at the server. It is lost if the stream has ended. -/
def transmit (c : Cluster) (e : Connection) : Option Cluster := do
  let (s, l) ← c.linkOf? e
  guard l.isConnected
  let (r, l) ← l.takeReport
  let server ← c.server? e.server
  pure ((c.setStore e.store (s.updateLink e.link fun _ => l)).setServer e.server
    (server.receive e.stream r))

/-- What arrives first on the stream arrives at the store: it takes up a snapshot, and its link
fails when the stream has ended. -/
def receive (c : Cluster) (now : Int) (e : Connection) : Option Cluster := do
  let (s, l) ← c.linkOf? e
  guard (l.stage = .streaming)
  let (server, stream) ← c.streamOf? e
  let (server, arrival) ← server.arrive stream
  let c := c.setServer e.server server
  match arrival with
  | .snapshot n => pure (c.setStore e.store (s.applySnapshot now e.link n))
  | .refused _ | .ended => pure ((c.setStore e.store (s.failLink now e.link)).disconnect e)

/-- A link that has been closed hangs up. -/
def hangUp (c : Cluster) (e : Connection) : Option Cluster := do
  let (_, l) ← c.linkOf? e
  guard !l.isConnected
  let server ← c.server? e.server
  pure ((c.setServer e.server (server.leave e.stream)).disconnect e)

/-! ### Sections -/

/-- What goes on next. -/
inductive Event where
  | connect (store link : Nat)
  | answer (connection : Connection)
  /-- A report arrives at a server. -/
  | transmit (connection : Connection)
  /-- Something arrives at a store. -/
  | receive (connection : Connection)
  | hangUp (connection : Connection)
  | serve (server : Nat) (event : StatusServer.Event)
  | work (store : Nat) (event : PeerStore.Event)
  /-- A server that has drained stops. -/
  | retire (server : Nat)

/-- Carries out an event of a connection. -/
def along (c : Cluster) (e : Connection) (f : Connection → Option Cluster) : Option Cluster :=
  if e ∈ c.connections then f e else none

/-- Carries out one section, if it is possible now. -/
def step (c : Cluster) (now : Int) : Event → Option Cluster
  | .connect store link => do
    let s ← c.stores[store]?
    let l ← s.link? link
    guard (l.stage = .connecting)
    pure (c.connect now store s l)
  | .answer e => c.along e c.answer
  | .transmit e => c.along e c.transmit
  | .receive e => c.along e (c.receive now)
  | .hangUp e => c.along e c.hangUp
  | .serve place event => do
    let s ← c.server? place
    let s ← s.step now event
    pure (c.setServer place s)
  | .work place event => do
    let s ← c.stores[place]?
    let s ← s.step now event
    pure (c.setStore place s)
  | .retire place => do
    let e ← c.servers[place]?
    guard (!e.isListening && e.server.streams.isEmpty && e.server.pruneTick.isSome)
    pure (c.setServer place e.server.stopPruning)

/-- The sections of a cluster, in the order in which it tries them. -/
def candidates (c : Cluster) : List Event :=
  c.stores.zipIdx.flatMap (fun (s, place) => s.links.map fun l => .connect place l.index) ++
    c.connections.flatMap (fun e => [.hangUp e, .answer e, .transmit e]) ++
    c.servers.zipIdx.flatMap (fun (e, place) => e.server.candidates.map (.serve place)) ++
    c.connections.map .receive ++
    c.stores.zipIdx.flatMap (fun (s, place) => s.candidates.map (.work place)) ++
    c.servers.zipIdx.map fun (_, place) => .retire place

/-- Carries out the first section that is possible now. -/
def work (c : Cluster) (now : Int) : Option Cluster := c.candidates.findSome? (c.step now)

/-- The instants at which timers of stores and servers fire. -/
def timers (c : Cluster) : List Int :=
  c.stores.flatMap (·.timers) ++ c.servers.filterMap (·.server.pruneTick)

/-! ### Requests -/

/-- Adds a store, and says at which place. -/
def addStore (c : Cluster) (s : PeerStore) : Cluster × Nat :=
  ({ c with stores := c.stores ++ [s] }, c.stores.length)

def addServer (c : Cluster) (address : String) (plan : PrunePlan) (now : Int) : Cluster :=
  { c with servers := c.servers ++ [⟨address, .start plan now, true⟩] }

/-- Stops the server that listens at an address from accepting streams. The answer says whether no
stream was open; there is none if no server listens there. -/
def stop (c : Cluster) (address : String) : Option (Bool × Cluster) := do
  let place ← c.listener? address
  let server ← c.server? place
  let servers := c.servers.modify place fun e => { e with isListening := false }
  pure (server.streams.isEmpty, { c with servers })

def setStatus (c : Cluster) (place : Nat) (status : ReportedStatus) :
    Option (Except StoreError Unit × Cluster) := do
  let s ← c.stores[place]?
  let (result, s) := s.setStatus status
  pure (result, c.setStore place s)

/-- Removes a server from the store at a place. The flag says whether the store had it. -/
def removePeer (c : Cluster) (now : Int) (place : Nat) (url : String) :
    Option (Bool × Cluster) := do
  let s ← c.stores[place]?
  let (known, s) := s.removePeer now url
  pure (known, c.setStore place s)

def shutDown (c : Cluster) (now : Int) (place : Nat) : Cluster :=
  match c.stores[place]? with
  | some s => c.setStore place (s.shutDown now)
  | none => c

end Cluster

end Floodgate
