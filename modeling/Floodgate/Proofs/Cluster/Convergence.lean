import Floodgate.Proofs.Cluster.Run
import Floodgate.Proofs.PeerStore.Merge
/-!
# Floodgate.Proofs.Cluster.Convergence

**When everything has been said and heard, everybody knows the same.** In a state of a run in which
every stream is open and nothing is pending or on its way (`Quiet`), every store holds one status
for every instance, and it says what was accepted last of that instance, whatever the leases on the
servers are (`quiet_converges`). The gate is blocked exactly when one of these is busy and its lease
was running when the views were last judged; as long as the timer has not fired, the lease is still
running, but for the slack.

The invariant behind it is `Coherent`. In a quiet state both chains between two stores are empty, so
what one has said last is what the other holds.
-/

namespace Floodgate.Cluster

variable {network : Network} {c : Cluster} {lockKey : String} {addresses : List String}
  {now : Int} {accepted : List ReportedStatus} {i p : Nat} {e : Connection} {s s' : PeerStore}
  {l : PeerLink} {sv : StatusServer} {t : ServerStream}

/-! ### Quiet states -/

/-- Every stream is open, no write is pending, and nothing is on its way. -/
structure Quiet (c : Cluster) : Prop where
  /-- Every stream is open. -/
  streaming : ∀ s ∈ c.stores, ∀ l ∈ s.links, l.stage = .streaming
  /-- No write is pending. -/
  settled : ∀ s ∈ c.stores, ∀ e ∈ s.replicator.entries, e.pending = none
  /-- Everything that was sent has arrived at its server. -/
  transmitted : ∀ s ∈ c.stores, ∀ l ∈ s.links, l.outbox = []
  /-- Everything that has arrived has been recorded. -/
  recorded : ∀ e ∈ c.servers, ∀ t ∈ e.server.streams, t.inbound = []
  /-- The latest snapshot has been sent. -/
  forwarded : ∀ e ∈ c.servers, ∀ t ∈ e.server.streams, ∀ f, t.forwarder = some f →
    f.stage = .parked ∧ e.server.table.hasChanged f.receiver = false
  /-- Everything that was sent has arrived at its store. -/
  received : ∀ e ∈ c.servers, ∀ t ∈ e.server.streams, t.outbound = []

/-- Whether a cluster is quiet. -/
def isQuiet (c : Cluster) : Bool :=
  c.stores.all (fun s =>
    s.links.all (fun l => l.stage == .streaming && l.outbox.isEmpty) &&
      s.replicator.entries.all (·.pending.isNone)) &&
  c.servers.all (fun e => e.server.streams.all fun t =>
    t.inbound.isEmpty && t.outbound.isEmpty &&
      t.forwarder.all fun f => f.stage == .parked && !e.server.table.hasChanged f.receiver)

theorem isQuiet_eq_true_iff : c.isQuiet = true ↔ c.Quiet := by
  simp only [isQuiet, Bool.and_eq_true, List.all_eq_true, Option.all_eq_true, beq_iff_eq,
    List.isEmpty_iff, Option.isNone_iff_eq_none, Bool.not_eq_true']
  constructor
  · intro ⟨hstores, hservers⟩
    exact {
      streaming := fun s hs l hl => ((hstores s hs).1 l hl).1
      settled := fun s hs => (hstores s hs).2
      transmitted := fun s hs l hl => ((hstores s hs).1 l hl).2
      recorded := fun e he t ht => (hservers e he t ht).1.1
      forwarded := fun e he t ht => (hservers e he t ht).2
      received := fun e he t ht => (hservers e he t ht).1.2 }
  · intro h
    exact ⟨fun s hs => ⟨fun l hl => ⟨h.streaming s hs l hl, h.transmitted s hs l hl⟩,
        h.settled s hs⟩,
      fun e he t ht => ⟨⟨h.recorded e he t ht, h.received e he t ht⟩, h.forwarded e he t ht⟩⟩

section Quiet

variable (h : Coherent lockKey addresses accepted now c) (hq : c.Quiet)

include h hq

omit h in
/-- No store has anything more to say. -/
theorem Quiet.idle (hends : c.Ends e s l sv t) : s.Idle l t.inbound := by
  have hmem := mem_of_store hends.store
  obtain ⟨server, hserver, rfl⟩ := Option.map_eq_some_iff.mp hends.server
  refine ⟨?_, ?_⟩
  · unfold PeerStore.awaits Replicator.isPending
    cases hentry : s.replicator.entryFor? (PeerStore.replicationKey l.index s.instanceName) with
    | none => rfl
    | some entry =>
      simp only [hq.settled s hmem entry (List.mem_of_find?_eq_some hentry)]
      rfl
  · rw [hq.transmitted s hmem l (PeerStore.mem_of_link? hends.link),
      hq.recorded server (List.mem_of_getElem? hserver) t
        (StatusServer.mem_of_stream? hends.stream)]
    rfl

/-- What a server says of the instance of a store is what was set last. -/
theorem Quiet.told (hs : c.stores[i]? = some s) (hsv : c.server? p = some sv) {w : WireStatus}
    (hw : sv.table.statusOf? lockKey s.instanceName = some w) : w.Says s.registered :=
  (h.told i s hs p sv hsv w hw).2 fun _ _ hstore hserver _ _ hl ht =>
    hq.idle ⟨hstore ▸ hs, hl, hserver ▸ hsv, ht⟩

/-- Every link has a connection. -/
theorem Quiet.connection (hs : c.stores[i]? = some s) (hl : l ∈ s.links) :
    ∃ e ∈ c.connections, e.store = i ∧ ∃ sv t, c.Ends e s l sv t := by
  have hconnected : l.isConnected = true := by
    rw [PeerLink.isConnected, hq.streaming s (mem_of_store hs) l hl]
    rfl
  obtain ⟨e, he, rfl, hlink⟩ := h.linked i s hs l hl hconnected
  obtain ⟨s₁, l₁, sv, t, hends, -⟩ := h.joined e he
  obtain rfl := Option.some.inj (hs.symm.trans hends.store)
  have hfound := (PeerStore.link?_eq_some_iff (h.up s (mem_of_store hs)).indices).mpr ⟨hl, rfl⟩
  obtain rfl := Option.some.inj (hfound.symm.trans (hlink ▸ hends.link))
  exact ⟨e, he, rfl, sv, t, hends⟩

/-- The registration of every connection has been recorded. -/
theorem Quiet.handler_ne (he : e ∈ c.connections) (hends : c.Ends e s l sv t) :
    t.handler ≠ .waiting := fun hwaiting =>
  (h.joined_of_ends he hends).1.registering hwaiting (hq.idle hends).2

/-- A store holds the present snapshot of every server. -/
theorem Quiet.view (he : e ∈ c.connections) (hends : c.Ends e s l sv t) :
    ∃ statuses : List Status, s.views.lookup l.index = some (View.ofStatuses statuses) ∧
      ∀ x, x ∈ statuses ↔ ∃ id w, sv.table.statusOf? lockKey id = some w ∧ x = w.toStatus id := by
  obtain ⟨server, hserver, rfl⟩ := Option.map_eq_some_iff.mp hends.server
  have hmem := List.mem_of_getElem? hserver
  have ht := StatusServer.mem_of_stream? hends.stream
  have htable := (h.serving _ _ hends.server).table
  cases (h.joined_of_ends he hends).1.fed with
  | waiting hhandler => exact absurd hhandler (hq.handler_ne h he hends)
  | @fed f rcv entry _ hforwarder hattached hkey _ _ _ hparked =>
    obtain ⟨hstage, hunchanged⟩ := hq.forwarded server hmem t ht f hforwarder
    have hseen : rcv.seen = entry.version := by
      rw [StatusTable.hasChanged, hattached] at hunchanged
      simpa using hunchanged
    have hshown := hparked hstage hseen
    rw [hq.received server hmem t ht] at hshown
    have hentry := StatusTable.mem_of_entryOf? hattached
    refine ⟨entry.snapshot.statuses, hshown, fun x => ?_⟩
    rw [Notification.statuses, htable.snapshot entry hentry, List.mem_map]
    constructor
    · intro ⟨⟨id, w⟩, hw, hx⟩
      refine ⟨id, w, ?_, hx.symm⟩
      rw [← hkey, htable.statusOf?_of_mem hentry]
      exact (Assoc.lookup_eq_some_iff (htable.instances entry hentry)).mpr hw
    · intro ⟨id, w, hw, hx⟩
      rw [← hkey, htable.statusOf?_of_mem hentry] at hw
      exact ⟨(id, w), (Assoc.lookup_eq_some_iff (htable.instances entry hentry)).mp hw, hx.symm⟩

end Quiet

/-! ### What everybody knows -/

/-- The status of an instance that was accepted last, idle if none was. -/
def lastAccepted (accepted : List ReportedStatus) (instanceName : String) : ReportedStatus :=
  (lastAccepted? accepted instanceName).getD ⟨instanceName, false, none⟩

theorem Coherent.registered_eq (h : Coherent lockKey addresses accepted now c)
    (hs : s ∈ c.stores) : s.registered = lastAccepted accepted s.instanceName := by
  rw [PeerStore.registered, lastAccepted, h.lastStatus s hs]

/-- A store that knows of every instance what was accepted last. -/
structure Knows (accepted : List ReportedStatus) (c : Cluster) (s : PeerStore) : Prop where
  /-- It knows of the instances of the cluster. -/
  instances : ∀ id, id ∈ s.merged.map (·.instanceId) ↔ id ∈ c.stores.map (·.instanceName)
  /-- It has one status of each. -/
  nodup : (s.merged.map (·.instanceId)).Nodup
  /-- A status says what was accepted last. -/
  isBusy : ∀ x ∈ s.merged, x.isBusy = (lastAccepted accepted x.instanceId).isBusy
  /-- Empty lock data is read as none. -/
  lockData : ∀ x ∈ s.merged,
    x.lockData = lockDataOfWire ((lastAccepted accepted x.instanceId).lockData.getD "")

theorem Quiet.knows (hq : c.Quiet) (h : Coherent lockKey addresses accepted now c)
    (haddresses : addresses ≠ []) (hs : s ∈ c.stores) : Knows accepted c s := by
  obtain ⟨i, hi⟩ := List.mem_iff_getElem?.mp hs
  have hup := h.up s hs
  -- a merged status comes from a table, where the store of its instance has put it
  have hmerged : ∀ x ∈ s.merged, ∃ s' ∈ c.stores, ∃ w : WireStatus,
      w.Says s'.registered ∧ x = w.toStatus s'.instanceName := by
    intro x hx
    obtain ⟨v, hv, k, hk⟩ := mem_mergeViews hx
    obtain ⟨⟨j, v⟩, hview, rfl⟩ := List.mem_map.mp hv
    obtain ⟨l, hl⟩ := hup.viewed j (List.mem_map_of_mem hview)
    obtain ⟨e, he, -, sv, t, hends⟩ := hq.connection h hi (PeerStore.mem_of_link? hl)
    obtain ⟨statuses, hlookup, hstatuses⟩ := hq.view h he hends
    rw [PeerStore.index_of_link? hl, (Assoc.lookup_eq_some_iff hup.views).mpr hview] at hlookup
    cases hlookup
    obtain ⟨id, w, hw, rfl⟩ := (hstatuses x).mp (mem_ofStatuses hk).1
    obtain ⟨s', hs', rfl⟩ := h.named _ _ hends.server id (Option.isSome_of_eq_some hw)
    obtain ⟨i', hi'⟩ := List.mem_iff_getElem?.mp hs'
    exact ⟨s', hs', w, hq.told h hi' hends.server hw, rfl⟩
  refine ⟨fun id => ⟨fun hid => ?_, fun hid => ?_⟩, nodup_mergeViews _, ?_, ?_⟩
  · obtain ⟨x, hx, rfl⟩ := List.mem_map.mp hid
    obtain ⟨s', hs', w, -, rfl⟩ := hmerged x hx
    exact List.mem_map.mpr ⟨s', hs', rfl⟩
  · obtain ⟨s', hs', rfl⟩ := List.mem_map.mp hid
    obtain ⟨i', hi'⟩ := List.mem_iff_getElem?.mp hs'
    -- both stores have a connection to the server of the first address
    obtain ⟨url, hurl⟩ := List.exists_mem_of_ne_nil _ haddresses
    obtain ⟨l, hl, hlurl⟩ := List.mem_map.mp ((hup.urls url).mpr hurl)
    obtain ⟨l', hl', hlurl'⟩ := List.mem_map.mp (((h.up s' hs').urls url).mpr hurl)
    obtain ⟨e, he, -, sv, t, hends⟩ := hq.connection h hi hl
    obtain ⟨e', he', -, sv', t', hends'⟩ := hq.connection h hi' hl'
    have hserver : e.server = e'.server := by
      have haddress := (h.joined_of_ends he hends).2
      have haddress' := (h.joined_of_ends he' hends').2
      rw [hlurl, ← List.getElem?_map] at haddress
      rw [hlurl', ← List.getElem?_map] at haddress'
      have hlt := (List.getElem?_eq_some_iff.mp haddress).1
      exact (List.getElem?_inj hlt h.addresses).mp (haddress.trans haddress'.symm)
    obtain rfl := Option.some.inj (hends.server.symm.trans (hserver ▸ hends'.server))
    obtain ⟨w, hw⟩ := Option.isSome_iff_exists.mp
      ((h.joined_of_ends he' hends').1.known (hq.handler_ne h he' hends'))
    obtain ⟨statuses, hlookup, hstatuses⟩ := hq.view h he hends
    obtain ⟨x, hx⟩ := exists_mem_ofStatuses ((hstatuses _).mpr ⟨_, w, hw, rfl⟩)
    have hview : View.ofStatuses statuses ∈ s.views.map (·.2) :=
      List.mem_map_of_mem ((Assoc.lookup_eq_some_iff hup.views).mp hlookup)
    obtain ⟨x', hx', hname⟩ := exists_mem_mergeViews hview hx
    refine List.mem_map.mpr ⟨x', hx', hname.trans ?_⟩
    exact (mem_ofStatuses hx).2
  · intro x hx
    obtain ⟨s', hs', w, hw, rfl⟩ := hmerged x hx
    exact hw.1.trans (congrArg ReportedStatus.isBusy (h.registered_eq hs'))
  · intro x hx
    obtain ⟨s', hs', w, hw, rfl⟩ := hmerged x hx
    show lockDataOfWire w.lockData = _
    rw [hw.2, h.registered_eq hs']
    rfl

/-- Whether some instance was last accepted as busy, under a lease that runs at an instant. -/
def BusyAt (accepted : List ReportedStatus) (s : PeerStore) (instant : Int) : Prop :=
  ∃ x ∈ s.merged, (lastAccepted accepted x.instanceId).isBusy = true ∧
    x.leaseRunsAt instant = true

theorem Knows.busyAt_iff (h : Knows accepted c s) (instant : Int) :
    BusyAt accepted s instant ↔ ∃ x ∈ s.merged, x.isBusyAt instant = true := by
  constructor
  · rintro ⟨x, hx, hbusy, hruns⟩
    refine ⟨x, hx, ?_⟩
    rw [Status.isBusyAt, h.isBusy x hx, hbusy, hruns]
    rfl
  · rintro ⟨x, hx, hboth⟩
    rw [Status.isBusyAt, Bool.and_eq_true, h.isBusy x hx] at hboth
    exact ⟨x, hx, hboth⟩

/-- **In a quiet state every store knows what was accepted last of every instance, and its gate is
blocked exactly when some instance is busy.** -/
theorem quiet_converges (h : Run network lockKey addresses accepted now c)
    (haddresses : addresses ≠ []) (hq : c.Quiet) (hs : s ∈ c.stores) :
    Knows accepted c s ∧
      (∃ judged ≤ now, s.JudgedAt judged ∧
        (s.house.gate.isBlocked = true ↔ BusyAt accepted s judged)) ∧
      (BusyAt accepted s now → s.house.gate.isBlocked = true) ∧
      (s.timerFired now = false → s.house.gate.isBlocked = true →
        BusyAt accepted s (now - Verdict.expirySlack)) := by
  have hcoherent := h.coherent
  have hknows := hq.knows hcoherent haddresses hs
  have hjudged : ∃ judged ≤ now, s.JudgedAt judged := by
    refine (hcoherent.judged s hs).resolve_left fun hnil => ?_
    -- a store without views would not even know of its own instance
    have hown := (hknows.instances s.instanceName).mpr (List.mem_map_of_mem hs)
    rw [PeerStore.merged, hnil] at hown
    exact absurd hown List.not_mem_nil
  obtain ⟨judged, hle, hat⟩ := hjudged
  refine ⟨hknows, ⟨judged, hle, hat, ?_⟩, ?_, ?_⟩
  · rw [hknows.busyAt_iff]
    exact hat.isBlocked_iff
  · rw [hknows.busyAt_iff]
    rintro ⟨x, hx, hbusy⟩
    exact hat.blocked_of_busy hle hx hbusy
  · intro hfired hblocked
    rw [hknows.busyAt_iff]
    obtain ⟨x, hx, hbusy⟩ := hat.isBlocked_iff.mp hblocked
    exact ⟨x, hx, hat.busy_within_slack hfired hx hbusy⟩

/-! ### Two stores and a server -/

/-- A server that no store has reached. -/
def loneServer : Cluster :=
  (Cluster.empty .joined).addServer "peer:1" ⟨.ofSecs 10, .ofSecs 60, by decide, by decide⟩ 0

/-- Two stores that have opened their streams to it. -/
def openedPair : Option Cluster := do
  let .ok a := PeerStore.startWith (fun _ => true) "a" "lock" ["peer:1"] {} 1000 (.fresh {}) 0
    | none
  let .ok b := PeerStore.startWith (fun _ => true) "b" "lock" ["peer:1"] {} 1000 (.fresh {}) 0
    | none
  ((loneServer.addStore a).1.addStore b).1.replay 0 [.connect 0 0, .connect 1 0,
    .answer ⟨0, 0, 0, 0⟩, .transmit ⟨0, 0, 0, 0⟩, .answer ⟨1, 0, 0, 1⟩, .transmit ⟨1, 0, 0, 1⟩,
    .serve 0 (.handle 0), .serve 0 (.handle 1), .serve 0 (.forward 0), .serve 0 (.forward 0),
    .serve 0 (.forward 1), .serve 0 (.forward 1), .receive ⟨0, 0, 0, 0⟩, .receive ⟨1, 0, 0, 1⟩]

/-- The first of them is set to busy, and everybody hears of it. -/
def settledPair : Option Cluster := do
  let (.ok (), c) ← (← openedPair).setStatus 0 ⟨"a", true, some "job"⟩ | none
  c.replay 0 [.work 0 (.replicate (.resume (.delivery 1))),
    .work 0 (.replicate (.resume (.delivery 1))), .transmit ⟨0, 0, 0, 0⟩, .serve 0 (.handle 0),
    .serve 0 (.forward 0), .serve 0 (.forward 0), .serve 0 (.forward 0), .serve 0 (.forward 1),
    .serve 0 (.forward 1), .serve 0 (.forward 1), .receive ⟨0, 0, 0, 0⟩, .receive ⟨1, 0, 0, 1⟩]

theorem run_openedPair (hc : openedPair = some c) : Run .joined "lock" ["peer:1"] [] 0 c := by
  unfold openedPair at hc
  split at hc
  · next a ha =>
    split at hc
    · next b hb =>
      have hlone : Run .joined "lock" ["peer:1"] [] 0 loneServer :=
        (Run.start 0).addServer _ fun e he => absurd he List.not_mem_nil
      have halone := hlone.addStore ha (fun url => Iff.rfl) fun s hs => absurd hs List.not_mem_nil
      have hboth := halone.addStore hb (fun url => Iff.rfl) fun s hs => by
        obtain rfl := List.mem_singleton.mp hs
        obtain ⟨-, -, plan, rfl⟩ := PeerStore.start_eq_ok ha
        exact (by decide : "a" ≠ "b")
      exact hboth.replay (by simp) hc
    · cases hc
  · cases hc

theorem run_settledPair (hc : settledPair = some c) :
    Run .joined "lock" ["peer:1"] [⟨"a", true, some "job"⟩] 0 c := by
  unfold settledPair at hc
  obtain ⟨c₀, hopened, hc⟩ := Option.bind_eq_some_iff.mp hc
  obtain ⟨⟨answer, c₁⟩, hset, hc⟩ := Option.bind_eq_some_iff.mp hc
  split at hc
  · next c₂ heq =>
    cases heq
    have hfirst : (openedPair.bind (·.stores[0]?)).map (·.instanceName) = some "a" := by
      decide +kernel
    rw [hopened] at hfirst
    obtain ⟨s, hs, hname⟩ := Option.map_eq_some_iff.mp hfirst
    exact ((run_openedPair hopened).accepted hs hname.symm hset).replay (by simp) hc
  · cases hc

theorem quiet_converges_of_pair :
    ∃ c, settledPair = some c ∧ Run .joined "lock" ["peer:1"] [⟨"a", true, some "job"⟩] 0 c ∧
      ["peer:1"] ≠ [] ∧ c.Quiet ∧ ∀ s ∈ c.stores,
        Knows [⟨"a", true, some "job"⟩] c s ∧
        (∃ judged ≤ 0, s.JudgedAt judged ∧
          (s.house.gate.isBlocked = true ↔ BusyAt [⟨"a", true, some "job"⟩] s judged)) ∧
        (BusyAt [⟨"a", true, some "job"⟩] s 0 → s.house.gate.isBlocked = true) ∧
        (s.timerFired 0 = false → s.house.gate.isBlocked = true →
          BusyAt [⟨"a", true, some "job"⟩] s (0 - Verdict.expirySlack)) := by
  have hquiet : settledPair.any isQuiet = true := by decide +kernel
  obtain ⟨c, hc, hq⟩ := (Option.any_eq_true _ _).mp hquiet
  have hrun := run_settledPair hc
  have hcalm := isQuiet_eq_true_iff.mp hq
  exact ⟨c, hc, hrun, by decide, hcalm, fun s hs => quiet_converges hrun (by decide) hcalm hs⟩

end Floodgate.Cluster
