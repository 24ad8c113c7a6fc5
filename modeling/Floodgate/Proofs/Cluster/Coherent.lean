import Floodgate.Cluster
import Floodgate.Proofs.PeerStore.Operations
import Floodgate.Proofs.Server.Stream
/-!
# Floodgate.Proofs.Cluster.Coherent

**Between what a store has said and what its peers hold, nothing is missing.** A connection carries
reports one way and snapshots the other way, each in order. `Joined` puts the two chains together:
the line of reports ends with what was set last (`PeerStore.Tells`), and the chain of snapshots ends
with the present table (`ServerStream.Fed`). In between is the table, where `Told` says that the
status of an instance is what was set last unless its store still has something to say there.

`Coherent` is the invariant of a cluster. A change of one store or of one server keeps it
if it keeps the connections that end there (`Coherent.setStore`, `Coherent.setServer`).
-/

namespace Floodgate.Cluster

variable {c c' : Cluster} {lockKey : String} {addresses : List String} {now : Int}
  {accepted : List ReportedStatus} {i p : Nat} {e e' : Connection} {s s' : PeerStore}
  {l l' : PeerLink} {sv sv' : StatusServer} {t t' : ServerStream}

/-! ### Connections -/

/-- What is at the ends of a connection. -/
structure Ends (c : Cluster) (e : Connection) (s : PeerStore) (l : PeerLink) (sv : StatusServer)
    (t : ServerStream) : Prop where
  store : c.stores[e.store]? = some s
  link : s.link? e.link = some l
  server : c.server? e.server = some sv
  stream : sv.stream? e.stream = some t

/-- A link and a stream between which nothing is missing. -/
structure Joined (lockKey : String) (s : PeerStore) (l : PeerLink) (sv : StatusServer)
    (t : ServerStream) : Prop where
  isConnected : l.isConnected = true
  /-- The reports end with what was set last. -/
  tells : s.Tells l t.inbound
  /-- The registration is on its way. -/
  registering : t.handler = .waiting → t.inbound ++ l.outbox ≠ []
  /-- Once it has been recorded, the server knows of the instance. -/
  known : t.handler ≠ .waiting → (sv.table.statusOf? lockKey s.instanceName).isSome = true
  /-- The snapshots end with the present one. -/
  fed : t.Fed lockKey sv.table (s.views.lookup l.index)

theorem Joined.congr (h : Joined lockKey s l sv t) (hname : s'.instanceName = s.instanceName)
    (hkey : s'.lockKey = s.lockKey) (hawaits : s'.awaits l.index = s.awaits l.index)
    (hregistered : s'.registered = s.registered) (hviews : s'.views = s.views) :
    Joined lockKey s' l sv t where
  isConnected := h.isConnected
  tells := by
    refine ⟨fun r hr => (h.tells.valid r hr).congr hname hkey, ?_⟩
    rw [hawaits, hregistered]
    exact h.tells.last
  registering := h.registering
  known := hname ▸ h.known
  fed := hviews ▸ h.fed

/-- Whether a store has nothing more to say to a server. -/
def AllIdle (connections : List Connection) (i : Nat) (s : PeerStore) (p : Nat)
    (sv : StatusServer) : Prop :=
  ∀ e ∈ connections, e.store = i → e.server = p → ∀ l t, s.link? e.link = some l →
    sv.stream? e.stream = some t → s.Idle l t.inbound

/-- What a server says of the instance of a store is what was set last, unless the store has more to
say to it. -/
def Told (lockKey : String) (connections : List Connection) (i : Nat) (s : PeerStore) (p : Nat)
    (sv : StatusServer) : Prop :=
  ∀ w, sv.table.statusOf? lockKey s.instanceName = some w →
    (∃ e ∈ connections, e.store = i ∧ e.server = p) ∧
      (AllIdle connections i s p sv → w.Says s.registered)

/-- The status of an instance that was accepted last. -/
def lastAccepted? (accepted : List ReportedStatus) (instanceName : String) :
    Option ReportedStatus :=
  accepted.find? (·.instanceName == instanceName)

/-! ### The invariant -/

/-- A cluster of stores of one lock key that are to reach the servers of some addresses, in which
the statuses `accepted` have been set, the latest first. -/
structure Coherent (lockKey : String) (addresses : List String) (accepted : List ReportedStatus)
    (now : Int) (c : Cluster) : Prop where
  /-- Every store reports its own status. -/
  up : ∀ s ∈ c.stores, s.Up lockKey addresses
  /-- Every gate is as the views were judged. -/
  judged : ∀ s ∈ c.stores, s.Judged now
  /-- A store knows what was set last. -/
  lastStatus : ∀ s ∈ c.stores, s.lastStatus = lastAccepted? accepted s.instanceName
  /-- What was set was set through stores of the cluster. -/
  accepted : ∀ x ∈ accepted, ∃ s ∈ c.stores, s.instanceName = x.instanceName
  /-- Instances have names of their own. -/
  names : (c.stores.map (·.instanceName)).Nodup
  /-- Servers keep their streams open. -/
  serving : ∀ p sv, c.server? p = some sv → sv.Serving
  /-- No server has been stopped. -/
  isListening : ∀ e ∈ c.servers, e.isListening = true
  /-- Servers have addresses of their own. -/
  addresses : (c.servers.map (·.address)).Nodup
  /-- Connections are in order. -/
  joined : ∀ e ∈ c.connections, ∃ s l sv t, c.Ends e s l sv t ∧ Joined lockKey s l sv t ∧
    (c.servers[e.server]?).map (·.address) = some l.url
  /-- A link that is connected has a connection. -/
  linked : ∀ i s, c.stores[i]? = some s → ∀ l ∈ s.links, l.isConnected = true →
    ∃ e ∈ c.connections, e.store = i ∧ e.link = l.index
  /-- A stream has a connection. -/
  streamed : ∀ p sv, c.server? p = some sv → ∀ x ∈ sv.streams.map (·.number),
    ∃ e ∈ c.connections, e.server = p ∧ e.stream = x
  /-- A link has one connection. -/
  link_unique : ∀ e ∈ c.connections, ∀ e' ∈ c.connections,
    e.store = e'.store → e.link = e'.link → e = e'
  /-- A stream has one connection. -/
  stream_unique : ∀ e ∈ c.connections, ∀ e' ∈ c.connections,
    e.server = e'.server → e.stream = e'.stream → e = e'
  /-- Servers know what was set last. -/
  told : ∀ i s, c.stores[i]? = some s → ∀ p sv, c.server? p = some sv →
    Told lockKey c.connections i s p sv
  /-- Servers know of instances of the cluster only. -/
  named : ∀ p sv, c.server? p = some sv → ∀ id, (sv.table.statusOf? lockKey id).isSome = true →
    ∃ s ∈ c.stores, s.instanceName = id

theorem Coherent.empty (network : Network) (lockKey : String) (addresses : List String)
    (now : Int) : Coherent lockKey addresses [] now (.empty network) := by
  constructor <;> simp [Cluster.empty, server?]

theorem Coherent.mono {later : Int} (h : Coherent lockKey addresses accepted now c)
    (hlater : now ≤ later) : Coherent lockKey addresses accepted later c :=
  { h with judged := fun s hs => (h.judged s hs).mono hlater }

theorem mem_of_store (h : c.stores[i]? = some s) : s ∈ c.stores := List.mem_of_getElem? h

/-- A name belongs to one place. -/
theorem Coherent.place_unique (h : Coherent lockKey addresses accepted now c) {j : Nat}
    (hs : c.stores[i]? = some s) (hs' : c.stores[j]? = some s')
    (hname : s.instanceName = s'.instanceName) : i = j := by
  have hi : (c.stores.map (·.instanceName))[i]? = some s.instanceName := by
    rw [List.getElem?_map, hs, Option.map_some]
  have hj : (c.stores.map (·.instanceName))[j]? = some s.instanceName := by
    rw [List.getElem?_map, hs', Option.map_some, hname]
  have hlt : i < (c.stores.map (·.instanceName)).length :=
    (List.getElem?_eq_some_iff.mp hi).1
  exact (List.getElem?_inj hlt h.names).mp (hi.trans hj.symm)

/-- The ends of a connection are in order. -/
theorem Coherent.joined_of_ends (h : Coherent lockKey addresses accepted now c)
    (he : e ∈ c.connections) (hends : c.Ends e s l sv t) : Joined lockKey s l sv t ∧
      (c.servers[e.server]?).map (·.address) = some l.url := by
  obtain ⟨s₀, l₀, sv₀, t₀, h₀, hjoined, haddress⟩ := h.joined e he
  obtain rfl := Option.some.inj (hends.store.symm.trans h₀.store)
  obtain rfl := Option.some.inj (hends.link.symm.trans h₀.link)
  obtain rfl := Option.some.inj (hends.server.symm.trans h₀.server)
  obtain rfl := Option.some.inj (hends.stream.symm.trans h₀.stream)
  exact ⟨hjoined, haddress⟩

/-! ### Changing a store -/

theorem store_setStore (hs : c.stores[i]? = some s) (s' : PeerStore) (j : Nat) :
    (c.setStore i s').stores[j]? = if j = i then some s' else c.stores[j]? := by
  have hlt := (List.getElem?_eq_some_iff.mp hs).1
  show (c.stores.set i s')[j]? = _
  rw [List.getElem?_set]
  by_cases hj : i = j
  · rw [if_pos hj, if_pos hj.symm, if_pos hlt]
  · rw [if_neg hj, if_neg fun h => hj h.symm]

theorem names_setStore (hs : c.stores[i]? = some s) (hname : s'.instanceName = s.instanceName) :
    (c.setStore i s').stores.map (·.instanceName) = c.stores.map (·.instanceName) := by
  refine List.ext_getElem? fun j => ?_
  rw [List.getElem?_map, List.getElem?_map, store_setStore hs]
  by_cases hj : j = i
  · rw [if_pos hj, hj, hs, Option.map_some, Option.map_some, hname]
  · rw [if_neg hj]

theorem Coherent.mem_setStore (h : Coherent lockKey addresses accepted now c)
    (hs : c.stores[i]? = some s) {s₁ : PeerStore} (hs₁ : s₁ ∈ (c.setStore i s').stores) :
    s₁ = s' ∨ s₁ ∈ c.stores ∧ s₁.instanceName ≠ s.instanceName := by
  obtain ⟨j, hj⟩ := List.mem_iff_getElem?.mp hs₁
  rw [store_setStore hs] at hj
  by_cases hji : j = i
  · rw [if_pos hji] at hj
    exact .inl (Option.some.inj hj).symm
  · rw [if_neg hji] at hj
    exact .inr ⟨mem_of_store hj, fun heq => hji (h.place_unique hj hs heq)⟩

/-- The instances of a cluster are still there as long as the names are. -/
theorem exists_store_of_names
    (hnames : c'.stores.map (·.instanceName) = c.stores.map (·.instanceName)) {name : String}
    (h : ∃ s ∈ c.stores, s.instanceName = name) : ∃ s ∈ c'.stores, s.instanceName = name := by
  obtain ⟨s, hs, rfl⟩ := h
  have hin : s.instanceName ∈ c'.stores.map (·.instanceName) := hnames ▸ List.mem_map_of_mem hs
  exact List.mem_map.mp hin

/-- What a change of a store does to a connection that ends there. -/
structure Follows (lockKey : String) (s s' : PeerStore) (l l' : PeerLink) (sv : StatusServer)
    (t : ServerStream) : Prop where
  joined : Joined lockKey s' l' sv t
  idle : s'.Idle l' t.inbound → s.Idle l t.inbound ∧ s'.registered = s.registered

/-- A store that has no more to say had none before, and still says the same. -/
theorem Coherent.told_setStore (h : Coherent lockKey addresses accepted now c)
    (hs : c.stores[i]? = some s) (hplaced : s.Placed s')
    (hfollows : ∀ e ∈ c.connections, ∀ l l' sv t, c.Ends e s l sv t → s'.link? e.link = some l' →
      Joined lockKey s l sv t → Follows lockKey s s' l l' sv t)
    (hsv : c.server? p = some sv) : Told lockKey c.connections i s' p sv := by
  intro w hw
  rw [hplaced.instanceName] at hw
  obtain ⟨⟨e₀, he₀, hstore₀, hserver₀⟩, htold⟩ := h.told i s hs p sv hsv w hw
  refine ⟨⟨e₀, he₀, hstore₀, hserver₀⟩, fun hidle => ?_⟩
  have hback : ∀ e ∈ c.connections, e.store = i → e.server = p → ∀ l t,
      s.link? e.link = some l → sv.stream? e.stream = some t →
        s.Idle l t.inbound ∧ s'.registered = s.registered := by
    intro e he hstore hserver l t hl ht
    have hends : c.Ends e s l sv t := ⟨hstore ▸ hs, hl, hserver ▸ hsv, ht⟩
    obtain ⟨l', hl', -⟩ := hplaced.links e.link l hl
    have hfollow := hfollows e he l l' sv t hends hl' (h.joined_of_ends he hends).1
    exact hfollow.idle (hidle e he hstore hserver l' t hl' ht)
  obtain ⟨s₀, l₀, sv₀, t₀, hends₀, -⟩ := h.joined e₀ he₀
  obtain rfl := Option.some.inj (hs.symm.trans (hstore₀ ▸ hends₀.store))
  obtain rfl := Option.some.inj (hsv.symm.trans (hserver₀ ▸ hends₀.server))
  rw [(hback e₀ he₀ hstore₀ hserver₀ l₀ t₀ hends₀.link hends₀.stream).2]
  exact htold fun e he hstore hserver l t hl ht => (hback e he hstore hserver l t hl ht).1

theorem Coherent.setStore (h : Coherent lockKey addresses accepted now c)
    (hs : c.stores[i]? = some s) (hup : s'.Up lockKey addresses) (hjudged : s'.Judged now)
    {accepted' : List ReportedStatus}
    (hlast : s'.lastStatus = lastAccepted? accepted' s.instanceName)
    (hothers : ∀ name, name ≠ s.instanceName →
      lastAccepted? accepted' name = lastAccepted? accepted name)
    (haccepted : ∀ x ∈ accepted', x.instanceName = s.instanceName ∨ x ∈ accepted)
    (hplaced : s.Placed s')
    (hconnected : ∀ j l l', s.link? j = some l → s'.link? j = some l' →
      l'.isConnected = l.isConnected)
    (hfollows : ∀ e ∈ c.connections, ∀ l l' sv t, c.Ends e s l sv t → s'.link? e.link = some l' →
      Joined lockKey s l sv t → Follows lockKey s s' l l' sv t) :
    Coherent lockKey addresses accepted' now (c.setStore i s') := by
  have hname := hplaced.instanceName
  have hmem : ∀ s₁ ∈ (c.setStore i s').stores,
      s₁ = s' ∨ s₁ ∈ c.stores ∧ s₁.instanceName ≠ s.instanceName := fun _ => h.mem_setStore hs
  have hkept : ∀ name, (∃ s₁ ∈ c.stores, s₁.instanceName = name) →
      ∃ s₁ ∈ (c.setStore i s').stores, s₁.instanceName = name := fun _ =>
    exists_store_of_names (names_setStore hs hname)
  refine
    { up := ?_, judged := ?_, lastStatus := ?_, accepted := ?_,
      names := names_setStore hs hname ▸ h.names,
      serving := h.serving, isListening := h.isListening, addresses := h.addresses, joined := ?_,
      linked := ?_, streamed := h.streamed, link_unique := h.link_unique,
      stream_unique := h.stream_unique, told := ?_, named := ?_ }
  · intro s₁ hs₁
    rcases hmem s₁ hs₁ with rfl | ⟨hold, -⟩
    · exact hup
    · exact h.up s₁ hold
  · intro s₁ hs₁
    rcases hmem s₁ hs₁ with rfl | ⟨hold, -⟩
    · exact hjudged
    · exact h.judged s₁ hold
  · intro s₁ hs₁
    rcases hmem s₁ hs₁ with rfl | ⟨hold, hne⟩
    · rw [hname]
      exact hlast
    · rw [hothers _ hne]
      exact h.lastStatus s₁ hold
  · intro x hx
    rcases haccepted x hx with hsame | hold
    · exact hkept _ ⟨s, mem_of_store hs, hsame.symm⟩
    · exact hkept _ (h.accepted x hold)
  · intro e he
    obtain ⟨s₀, l, sv, t, hends, hjoined, haddress⟩ := h.joined e he
    by_cases hei : e.store = i
    · obtain rfl := Option.some.inj (hs.symm.trans (hei ▸ hends.store))
      obtain ⟨l', hl', hurl, -⟩ := hplaced.links e.link l hends.link
      refine ⟨s', l', sv, t, ⟨?_, hl', hends.server, hends.stream⟩,
        (hfollows e he l l' sv t hends hl' hjoined).joined, hurl ▸ haddress⟩
      rw [store_setStore hs, if_pos hei]
    · refine ⟨s₀, l, sv, t, ⟨?_, hends.link, hends.server, hends.stream⟩, hjoined, haddress⟩
      rw [store_setStore hs, if_neg hei]
      exact hends.store
  · intro j s₁ hs₁ l' hl' hl'c
    rw [store_setStore hs] at hs₁
    by_cases hji : j = i
    · rw [if_pos hji] at hs₁
      cases hs₁
      obtain ⟨l, hl, hindex⟩ := PeerStore.exists_link_of_mem hplaced.indices hl'
      have hl? := (PeerStore.link?_eq_some_iff (h.up s (mem_of_store hs)).indices).mpr ⟨hl, hindex⟩
      have hl'? := (PeerStore.link?_eq_some_iff hup.indices).mpr ⟨hl', rfl⟩
      have hlc := (hconnected _ l l' hl? hl'?).symm.trans hl'c
      obtain ⟨e, he, hei, hel⟩ := h.linked i s hs l hl hlc
      exact ⟨e, he, hei.trans hji.symm, hel.trans hindex⟩
    · rw [if_neg hji] at hs₁
      exact h.linked j s₁ hs₁ l' hl' hl'c
  · intro j s₁ hs₁ p sv hsv
    rw [store_setStore hs] at hs₁
    by_cases hji : j = i
    · rw [if_pos hji] at hs₁
      cases hs₁
      subst hji
      exact h.told_setStore hs hplaced hfollows hsv
    · rw [if_neg hji] at hs₁
      exact h.told j s₁ hs₁ p sv hsv
  · exact fun p sv hsv id hid => hkept id (h.named p sv hsv id hid)

/-- An operation of a store, at a connection whose snapshots still lead up to the present one. -/
theorem Follows.of_link (hlink : s.LinkGoes s' l l') (hname : s'.instanceName = s.instanceName)
    (hjoined : Joined lockKey s l sv t)
    (hfed : t.Fed lockKey sv.table (s'.views.lookup l'.index)) :
    Follows lockKey s s' l l' sv t := by
  have hc := hjoined.isConnected
  obtain ⟨sent, hsent⟩ := hlink.outbox hc
  refine ⟨⟨hlink.isConnected.trans hc, hlink.tells hc _ hjoined.tells, ?_, ?_, hfed⟩,
    hlink.idle hc t.inbound⟩
  · intro hwaiting hnil
    rw [hsent, ← List.append_assoc, List.append_eq_nil_iff] at hnil
    exact hjoined.registering hwaiting hnil.1
  · rw [hname]
    exact hjoined.known

/-- An operation of a store that looks at no view. -/
theorem Follows.of_goes (hgoes : s.Goes s') (hviews : s'.views = s.views) {j : Nat}
    (hl : s.link? j = some l) (hl' : s'.link? j = some l') (hjoined : Joined lockKey s l sv t) :
    Follows lockKey s s' l l' sv t := by
  obtain ⟨l₀, hl₀, hlink⟩ := hgoes.links j l hl
  obtain rfl := Option.some.inj (hl'.symm.trans hl₀)
  have hindex : l'.index = l.index :=
    (PeerStore.index_of_link? hl').trans (PeerStore.index_of_link? hl).symm
  refine .of_link hlink hgoes.instanceName hjoined ?_
  rw [hviews, hindex]
  exact hjoined.fed

/-- An operation of a store that goes on to report what was set last. -/
theorem Coherent.goes (h : Coherent lockKey addresses accepted now c)
    (hs : c.stores[i]? = some s) (hup : s'.Up lockKey addresses) (hgoes : s.Goes s')
    (hviews : s'.views = s.views) (hjudged : s'.Judged now) {accepted' : List ReportedStatus}
    (hlast : s'.lastStatus = lastAccepted? accepted' s.instanceName)
    (hothers : ∀ name, name ≠ s.instanceName →
      lastAccepted? accepted' name = lastAccepted? accepted name)
    (haccepted : ∀ x ∈ accepted', x.instanceName = s.instanceName ∨ x ∈ accepted) :
    Coherent lockKey addresses accepted' now (c.setStore i s') := by
  refine h.setStore hs hup hjudged hlast hothers haccepted hgoes.placed ?_ ?_
  · intro j l l' hl hl'
    obtain ⟨l₀, hl₀, hlink⟩ := hgoes.links j l hl
    obtain rfl := Option.some.inj (hl'.symm.trans hl₀)
    exact hlink.isConnected
  · exact fun e _ l l' sv t hends hl' hjoined => .of_goes hgoes hviews hends.link hl' hjoined

/-- What a store does by itself. -/
theorem Coherent.works (h : Coherent lockKey addresses accepted now c)
    (hs : c.stores[i]? = some s) (hworks : s.Works lockKey addresses now s') :
    Coherent lockKey addresses accepted now (c.setStore i s') := by
  have hmem := mem_of_store hs
  refine h.goes hs hworks.up hworks.goes hworks.views (hworks.judged (h.judged s hmem)) ?_
    (fun _ _ => rfl) fun _ => .inr
  rw [hworks.lastStatus]
  exact h.lastStatus s hmem

/-! ### Changing a server -/

theorem server?_setServer (hsv : c.server? p = some sv) (sv' : StatusServer) (q : Nat) :
    (c.setServer p sv').server? q = if q = p then some sv' else c.server? q := by
  obtain ⟨server, hserver, -⟩ := Option.map_eq_some_iff.mp hsv
  show ((c.servers.modify p fun e => { e with server := sv' })[q]?).map (·.server) = _
  rw [List.getElem?_modify]
  by_cases hq : p = q
  · subst hq
    simp [hserver]
  · rw [if_neg fun h => hq h.symm]
    cases hq? : c.servers[q]? <;> simp [server?, hq, hq?]

theorem server_setServer (c : Cluster) (p : Nat) (sv' : StatusServer) (q : Nat) :
    ((c.setServer p sv').servers[q]?).map (fun e => (e.address, e.isListening)) =
      (c.servers[q]?).map fun e => (e.address, e.isListening) := by
  show ((c.servers.modify p fun e => { e with server := sv' })[q]?).map _ = _
  rw [List.getElem?_modify]
  cases c.servers[q]? with
  | none => rfl
  | some server =>
    by_cases hq : p = q
    · simp [hq]
    · simp [hq]

theorem address_setServer (c : Cluster) (p : Nat) (sv' : StatusServer) (q : Nat) :
    ((c.setServer p sv').servers[q]?).map (·.address) = (c.servers[q]?).map (·.address) := by
  have hfst := congrArg (Option.map Prod.fst) (server_setServer c p sv' q)
  rwa [Option.map_map, Option.map_map] at hfst

theorem Coherent.setServer_frame (h : Coherent lockKey addresses accepted now c) (p : Nat)
    (sv' : StatusServer) : (∀ e ∈ (c.setServer p sv').servers, e.isListening = true) ∧
      ((c.setServer p sv').servers.map (·.address)).Nodup := by
  constructor
  · intro e he
    obtain ⟨q, hq⟩ := List.mem_iff_getElem?.mp he
    have hsame := server_setServer c p sv' q
    rw [hq, Option.map_some, eq_comm, Option.map_eq_some_iff] at hsame
    obtain ⟨e₀, he₀, heq⟩ := hsame
    rw [← (Prod.mk.inj heq).2]
    exact h.isListening e₀ (List.mem_of_getElem? he₀)
  · have hsame : (c.setServer p sv').servers.map (·.address) = c.servers.map (·.address) := by
      refine List.ext_getElem? fun q => ?_
      rw [List.getElem?_map, List.getElem?_map]
      exact address_setServer c p sv' q
    rw [hsame]
    exact h.addresses

theorem Coherent.setServer (h : Coherent lockKey addresses accepted now c)
    (hsv : c.server? p = some sv) (hserving : sv'.Serving)
    (hnumbers : sv'.streams.map (·.number) = sv.streams.map (·.number))
    (hjoined : ∀ e ∈ c.connections, e.server = p → ∀ s l t, c.Ends e s l sv t →
      Joined lockKey s l sv t → ∃ t', sv'.stream? e.stream = some t' ∧ Joined lockKey s l sv' t')
    (htold : ∀ i s, c.stores[i]? = some s → Told lockKey c.connections i s p sv')
    (hnamed : ∀ id, (sv'.table.statusOf? lockKey id).isSome = true →
      (sv.table.statusOf? lockKey id).isSome = true ∨ ∃ s ∈ c.stores, s.instanceName = id) :
    Coherent lockKey addresses accepted now (c.setServer p sv') := by
  refine
    { up := h.up, judged := h.judged, lastStatus := h.lastStatus, accepted := h.accepted,
      names := h.names, serving := ?_, isListening := (h.setServer_frame p sv').1,
      addresses := (h.setServer_frame p sv').2, joined := ?_, linked := h.linked,
      streamed := ?_, link_unique := h.link_unique, stream_unique := h.stream_unique, told := ?_,
      named := ?_ }
  · intro q sv₁ hsv₁
    rw [server?_setServer hsv] at hsv₁
    by_cases hq : q = p
    · rw [if_pos hq] at hsv₁
      exact Option.some.inj hsv₁ ▸ hserving
    · rw [if_neg hq] at hsv₁
      exact h.serving q sv₁ hsv₁
  · intro e he
    obtain ⟨s, l, sv₀, t, hends, hj, haddress⟩ := h.joined e he
    rw [address_setServer]
    by_cases hep : e.server = p
    · obtain rfl := Option.some.inj (hsv.symm.trans (hep ▸ hends.server))
      obtain ⟨t', ht', hj'⟩ := hjoined e he hep s l t hends hj
      refine ⟨s, l, sv', t', ⟨hends.store, hends.link, ?_, ht'⟩, hj', haddress⟩
      rw [server?_setServer hsv, if_pos hep]
    · refine ⟨s, l, sv₀, t, ⟨hends.store, hends.link, ?_, hends.stream⟩, hj, haddress⟩
      rw [server?_setServer hsv, if_neg hep]
      exact hends.server
  · intro q sv₁ hsv₁ x hx
    rw [server?_setServer hsv] at hsv₁
    by_cases hq : q = p
    · rw [if_pos hq] at hsv₁
      cases hsv₁
      rw [hnumbers] at hx
      exact hq ▸ h.streamed p sv hsv x hx
    · rw [if_neg hq] at hsv₁
      exact h.streamed q sv₁ hsv₁ x hx
  · intro j s hs q sv₁ hsv₁
    rw [server?_setServer hsv] at hsv₁
    by_cases hq : q = p
    · rw [if_pos hq] at hsv₁
      cases hsv₁
      exact hq ▸ htold j s hs
    · rw [if_neg hq] at hsv₁
      exact h.told j s hs q sv₁ hsv₁
  · intro q sv₁ hsv₁ id hid
    rw [server?_setServer hsv] at hsv₁
    by_cases hq : q = p
    · rw [if_pos hq] at hsv₁
      cases hsv₁
      rcases hnamed id hid with hold | hnew
      · exact h.named p sv hsv id hold
      · exact hnew
    · rw [if_neg hq] at hsv₁
      exact h.named q sv₁ hsv₁ id hid

/-- A change of one stream that leaves its tasks alone. -/
theorem Coherent.updateStream (h : Coherent lockKey addresses accepted now c)
    (hsv : c.server? p = some sv) (x : Nat) {f : ServerStream → ServerStream}
    (hnumber : ∀ t, (f t).number = t.number) (hclosed : ∀ t, (f t).isClosed = t.isClosed)
    (hforwarder : ∀ t, (f t).forwarder = t.forwarder)
    (hjoined : ∀ e ∈ c.connections, e.server = p → e.stream = x → ∀ s l t, c.Ends e s l sv t →
      Joined lockKey s l sv t → Joined lockKey s l sv (f t))
    (hidle : ∀ (s : PeerStore) l t, s.Idle l (f t).inbound → s.Idle l t.inbound) :
    Coherent lockKey addresses accepted now (c.setServer p (sv.updateStream x f)) := by
  have hstream := StatusServer.stream?_updateStream hnumber sv x
  refine h.setServer hsv ((h.serving p sv hsv).updateStream hnumber x hclosed hforwarder)
    (StatusServer.numbers_updateStream hnumber sv x) ?_ ?_ fun id hid => .inl hid
  · intro e he hep s l t hends hj
    rw [hstream]
    by_cases hx : e.stream = x
    · refine ⟨f t, ?_, ?_⟩
      · rw [if_pos hx, hends.stream]
        rfl
      · have hj' := hjoined e he hep hx s l t hends hj
        exact ⟨hj'.isConnected, hj'.tells, hj'.registering, hj'.known, hj'.fed⟩
    · refine ⟨t, ?_, hj.isConnected, hj.tells, hj.registering, hj.known, hj.fed⟩
      rw [if_neg hx]
      exact hends.stream
  · intro i s hs w hw
    obtain ⟨hexists, htold⟩ := h.told i s hs p sv hsv w hw
    refine ⟨hexists, fun hall => htold fun e he hstore hserver l t hl ht => ?_⟩
    have hall' := hall e he hstore hserver l
    rw [hstream] at hall'
    by_cases hx : e.stream = x
    · rw [if_pos hx, ht] at hall'
      exact hidle s l t (hall' _ hl rfl)
    · rw [if_neg hx] at hall'
      exact hall' t hl ht

end Floodgate.Cluster
