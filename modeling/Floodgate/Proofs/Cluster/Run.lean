import Floodgate.Proofs.Cluster.Growth
/-!
# Floodgate.Proofs.Cluster.Run

**What stores and servers can do when nobody stops.** A `Run` puts together stores and servers,
statuses that are set, each through the store of its instance, and sections in any order. Only
pruning is left out, and nobody is stopped or removed, so that a stream stays open once it has been
opened. Every cluster that a run reaches is coherent (`Run.coherent`).
-/

namespace Floodgate.Cluster

variable {network : Network} {c c' : Cluster} {lockKey : String} {addresses : List String}
  {now : Int} {accepted : List ReportedStatus}

/-- A run of stores of one lock key that are to reach the servers of some addresses, with the
statuses that have been accepted, the latest first, and the present instant. -/
inductive Run (network : Network) (lockKey : String) (addresses : List String) :
    List ReportedStatus → Int → Cluster → Prop where
  /-- There is nobody yet. -/
  | start (now : Int) : Run network lockKey addresses [] now (.empty network)
  /-- Time passes. -/
  | wait {accepted : List ReportedStatus} {now later : Int} {c : Cluster}
      (h : Run network lockKey addresses accepted now c) (hlater : now ≤ later) :
      Run network lockKey addresses accepted later c
  /-- A store starts, of an instance with a name of its own. -/
  | addStore {accepted : List ReportedStatus} {now : Int} {c : Cluster}
      {isAddress : String → Bool} {name : String} {urls : List String}
      {options : ReplicatorOptions} {reconnectMillis : Nat} {house : Gatehouse} {s : PeerStore}
      (h : Run network lockKey addresses accepted now c)
      (hstart : PeerStore.startWith isAddress name lockKey urls options reconnectMillis house
        now = .ok s)
      (hurls : ∀ url, url ∈ urls ↔ url ∈ addresses)
      (hname : ∀ s' ∈ c.stores, s'.instanceName ≠ name) :
      Run network lockKey addresses accepted now (c.addStore s).1
  /-- A server starts, at an address of its own. -/
  | addServer {accepted : List ReportedStatus} {now : Int} {c : Cluster} {address : String}
      (h : Run network lockKey addresses accepted now c) (plan : PrunePlan)
      (haddress : ∀ e ∈ c.servers, e.address ≠ address) :
      Run network lockKey addresses accepted now (c.addServer address plan now)
  /-- The status of an instance is set through its store. -/
  | accepted {accepted : List ReportedStatus} {now : Int} {c c' : Cluster} {i : Nat}
      {s : PeerStore} {x : ReportedStatus} (h : Run network lockKey addresses accepted now c)
      (hs : c.stores[i]? = some s) (hx : x.instanceName = s.instanceName)
      (hset : c.setStatus i x = some (.ok (), c')) :
      Run network lockKey addresses (x :: accepted) now c'
  /-- A status is refused. -/
  | refused {accepted : List ReportedStatus} {now : Int} {c c' : Cluster} {i : Nat}
      {x : ReportedStatus} {error : StoreError}
      (h : Run network lockKey addresses accepted now c)
      (hset : c.setStatus i x = some (.error error, c')) :
      Run network lockKey addresses accepted now c'
  /-- Somebody goes on, or a message arrives; no server prunes. -/
  | step {accepted : List ReportedStatus} {now : Int} {c c' : Cluster} {event : Event}
      (h : Run network lockKey addresses accepted now c)
      (hevent : ∀ p, event ≠ .serve p .prune) (hstep : c.step now event = some c') :
      Run network lockKey addresses accepted now c'

theorem along_eq_some_iff {f : Connection → Option Cluster} {e : Connection} :
    c.along e f = some c' ↔ e ∈ c.connections ∧ f e = some c' := by
  unfold Cluster.along
  split <;> simp [*]

/-- Every section keeps a cluster coherent. -/
theorem Coherent.step (h : Coherent lockKey addresses accepted now c) {event : Event}
    (hevent : ∀ p, event ≠ .serve p .prune) (hstep : c.step now event = some c') :
    Coherent lockKey addresses accepted now c' := by
  cases event with
  | connect i k =>
    simp only [Cluster.step, Option.bind_eq_bind, Option.bind_eq_some_iff, pure,
      Option.some.injEq, Option.guard_eq_some'] at hstep
    obtain ⟨s, hs, l, hl, _, hstage, rfl⟩ := hstep
    exact h.connect hs hl hstage
  | answer e => exact h.answer (along_eq_some_iff.mp hstep).2
  | transmit e =>
    obtain ⟨he, hstep⟩ := along_eq_some_iff.mp hstep
    exact h.transmit he hstep
  | receive e =>
    obtain ⟨he, hstep⟩ := along_eq_some_iff.mp hstep
    exact h.receive he hstep
  | hangUp e =>
    obtain ⟨he, hstep⟩ := along_eq_some_iff.mp hstep
    rw [h.hangUp he] at hstep
    cases hstep
  | serve p event =>
    simp only [Cluster.step, Option.bind_eq_bind, Option.bind_eq_some_iff, pure,
      Option.some.injEq] at hstep
    obtain ⟨sv, hsv, sv', hstep, rfl⟩ := hstep
    exact h.serve hsv (fun heq => hevent p (heq ▸ rfl)) hstep
  | work i event =>
    simp only [Cluster.step, Option.bind_eq_bind, Option.bind_eq_some_iff, pure,
      Option.some.injEq] at hstep
    obtain ⟨s, hs, s', hstep, rfl⟩ := hstep
    exact h.works hs (.of_step (h.up s (mem_of_store hs)) hstep)
  | retire p =>
    simp only [Cluster.step, Option.bind_eq_bind, Option.bind_eq_some_iff, pure,
      Option.some.injEq, Option.guard_eq_some'] at hstep
    obtain ⟨server, hserver, _, hidle, -⟩ := hstep
    simp [h.isListening server (List.mem_of_getElem? hserver)] at hidle

theorem Run.coherent (h : Run network lockKey addresses accepted now c) :
    Coherent lockKey addresses accepted now c := by
  induction h with
  | start now => exact .empty network lockKey addresses now
  | wait _ hlater ih => exact ih.mono hlater
  | addStore _ hstart hurls hname ih => exact ih.addStore hstart hurls hname
  | addServer _ plan haddress ih => exact ih.addServer plan haddress
  | accepted _ hs hx hset ih => exact ih.setStatus hs hx hset
  | refused _ hset ih => exact ih.setStatus_refused hset
  | step _ hevent hstep ih => exact ih.step hevent hstep

/-! ### Carrying out sections -/

/-- Carries out some sections at one instant. -/
def replay (c : Cluster) (now : Int) : List Event → Option Cluster
  | [] => some c
  | event :: rest => (c.step now event).bind (replay · now rest)

theorem Run.replay (h : Run network lockKey addresses accepted now c) {events : List Event}
    (hevents : ∀ event ∈ events, ∀ p, event ≠ .serve p .prune)
    (hreplay : c.replay now events = some c') :
    Run network lockKey addresses accepted now c' := by
  induction events generalizing c with
  | nil =>
    cases hreplay
    exact h
  | cons event rest ih =>
    obtain ⟨c₁, hstep, hrest⟩ := Option.bind_eq_some_iff.mp hreplay
    exact ih (h.step (hevents event List.mem_cons_self) hstep)
      (fun event' hevent' => hevents event' (List.mem_cons_of_mem _ hevent')) hrest

end Floodgate.Cluster
