import Floodgate.Proofs.Cluster.Steps
/-!
# Floodgate.Proofs.Cluster.Growth

**A cluster grows coherently.** Stores and servers are added while others are at work, and streams
are opened at any time. A new connection starts with a registration that says what was set last, so
it has something to say until that has been recorded; a new server says nothing of anybody, and
nobody says anything of a new instance.
-/

namespace Floodgate.Cluster

variable {c c' : Cluster} {lockKey : String} {addresses : List String} {now : Int}
  {accepted : List ReportedStatus} {i p x : Nat} {e e' : Connection} {s s' : PeerStore}
  {l l' : PeerLink} {sv sv' : StatusServer} {t t' : ServerStream}

/-! ### Growing -/

/-- A cluster that has got new links, streams and connections. -/
structure Extends (c c' : Cluster) : Prop where
  /-- Stores keep the links that have connections. -/
  store : ∀ j s, c.stores[j]? = some s → ∃ links, c'.stores[j]? = some { s with links } ∧
    ∀ e ∈ c.connections, e.store = j →
      ({ s with links } : PeerStore).link? e.link = s.link? e.link
  /-- Servers keep their tables and the streams that have connections. -/
  server : ∀ q sv, c.server? q = some sv → ∃ sv', c'.server? q = some sv' ∧
    sv'.table = sv.table ∧ ∀ e ∈ c.connections, e.server = q →
      sv'.stream? e.stream = sv.stream? e.stream
  /-- Servers stay where they are. -/
  address : ∀ (q : Nat) (url : String), (c.servers[q]?).map (·.address) = some url →
    (c'.servers[q]?).map (·.address) = some url
  /-- Connections stay. -/
  connections : ∀ e ∈ c.connections, e ∈ c'.connections

/-- Connections stay in order. -/
theorem Extends.joined (hx : c.Extends c') (h : Coherent lockKey addresses accepted now c)
    (he : e ∈ c.connections) : ∃ s l sv t, c'.Ends e s l sv t ∧ Joined lockKey s l sv t ∧
      (c'.servers[e.server]?).map (·.address) = some l.url := by
  obtain ⟨s, l, sv, t, hends, hj, haddress⟩ := h.joined e he
  obtain ⟨links, hs', hlink⟩ := hx.store _ s hends.store
  obtain ⟨sv', hsv', htable, hstream⟩ := hx.server _ sv hends.server
  refine ⟨{ s with links }, l, sv', t, ⟨hs', ?_, hsv', ?_⟩, ?_, hx.address _ _ haddress⟩
  · exact (hlink e he rfl).trans hends.link
  · exact (hstream e he rfl).trans hends.stream
  · have hj' : Joined lockKey { s with links } l sv t := hj.congr rfl rfl rfl rfl rfl
    exact ⟨hj'.isConnected, hj'.tells, hj'.registering, htable ▸ hj'.known, htable ▸ hj'.fed⟩

/-- Servers still know what was set last. -/
theorem Extends.told (hx : c.Extends c') (h : Coherent lockKey addresses accepted now c)
    {j q : Nat} (hs : c.stores[j]? = some s) (hs' : c'.stores[j]? = some s')
    (hsv : c.server? q = some sv) (hsv' : c'.server? q = some sv') :
    Told lockKey c'.connections j s' q sv' := by
  obtain ⟨links, hs'', hlink⟩ := hx.store j s hs
  obtain ⟨sv'', hsv'', htable, hstream⟩ := hx.server q sv hsv
  obtain rfl := Option.some.inj (hs'.symm.trans hs'')
  obtain rfl := Option.some.inj (hsv'.symm.trans hsv'')
  intro w hw
  rw [htable] at hw
  obtain ⟨⟨e, he, hjoin⟩, htold⟩ := h.told j s hs q sv hsv w hw
  refine ⟨⟨e, hx.connections e he, hjoin⟩, fun hall => htold ?_⟩
  intro e he hstore hserver l t hl ht
  exact hall e (hx.connections e he) hstore hserver l t ((hlink e he hstore).trans hl)
    ((hstream e he hserver).trans ht)

/-! ### Connecting -/

/-- The server that a link reaches listens at its address. -/
theorem address_of_reached (h : c.reached? l.url = some p) :
    (c.servers[p]?).map (·.address) = some l.url := by
  unfold reached? at h
  cases hnetwork : c.network with
  | severed => rw [hnetwork] at h; cases h
  | joined =>
    rw [hnetwork] at h
    simp only [listener?, List.findIdx?_eq_some_iff_getElem] at h
    obtain ⟨hlt, hp, -⟩ := h
    rw [Bool.and_eq_true, beq_iff_eq] at hp
    rw [List.getElem?_eq_getElem hlt, Option.map_some, hp.2]

/-- A stream that has just been opened, with the registration of a store on its way. -/
theorem Joined.opened (hup : s.Up lockKey addresses) (lease : Option Timestamp) (x : Nat)
    (hstream : t = ⟨x, [], false, .waiting, none, []⟩)
    (hl : l'.outbox = [s.request s.registered lease] ∧ l'.isConnected = true) :
    Joined lockKey s l' sv t := by
  subst hstream
  obtain ⟨hout, hconnected⟩ := hl
  refine ⟨hconnected, ⟨?_, ?_⟩, ?_, fun hhandler => absurd rfl hhandler, .waiting rfl rfl rfl⟩
  · intro r hr
    rw [hout, List.nil_append, List.mem_singleton] at hr
    exact hr ▸ hup.isReport lease
  · intro r hr
    rw [hout] at hr
    cases hr
    exact .inr (PeerStore.says_request s s.registered lease)
  · intro _ hnil
    rw [hout] at hnil
    cases hnil

/-- A cluster with a stream that has just been opened. -/
def opened (c : Cluster) (i : Nat) (s : PeerStore) (k p : Nat) (sv : StatusServer)
    (first : StatusRequest) : Cluster :=
  { (c.setStore i (s.updateLink k (·.connect first))).setServer p sv.openStream.1 with
    connections := c.connections ++ [⟨i, k, p, sv.nextStream⟩] }

section Opened

variable {k : Nat} {first : StatusRequest}

theorem store_opened (hs : c.stores[i]? = some s) (j : Nat) :
    (c.opened i s k p sv first).stores[j]? =
      if j = i then some (s.updateLink k (·.connect first)) else c.stores[j]? :=
  store_setStore hs _ j

theorem server?_opened (hsv : c.server? p = some sv) (q : Nat) :
    (c.opened i s k p sv first).server? q =
      if q = p then some sv.openStream.1 else c.server? q :=
  server?_setServer hsv _ q

theorem link?_connect (s : PeerStore) (k : Nat) (first : StatusRequest) (m : Nat) :
    (s.updateLink k (·.connect first)).link? m =
      if m = k then (s.link? m).map (·.connect first) else s.link? m :=
  PeerStore.link?_updateLink (f := fun l => l.connect first) (fun _ => rfl) s k m

/-- A link that is connecting has no connection yet. -/
theorem Coherent.link_free (h : Coherent lockKey addresses accepted now c)
    (hs : c.stores[i]? = some s) (hl : s.link? k = some l) (hstage : l.stage = .connecting) :
    ∀ e ∈ c.connections, e.store = i → e.link ≠ k := by
  intro e he hstore hlink
  obtain ⟨s₁, l₁, sv₁, t₁, hends, hj, -⟩ := h.joined e he
  obtain rfl := Option.some.inj (hs.symm.trans (hstore ▸ hends.store))
  obtain rfl := Option.some.inj (hl.symm.trans (hlink ▸ hends.link))
  have hconnected := hj.isConnected
  rw [PeerLink.isConnected, hstage] at hconnected
  cases hconnected

/-- A stream that has not been opened has no connection yet. -/
theorem Coherent.stream_free (h : Coherent lockKey addresses accepted now c)
    (hsv : c.server? p = some sv) :
    ∀ e ∈ c.connections, e.server = p → e.stream ≠ sv.nextStream := by
  intro e he hserver hstream
  obtain ⟨s₁, l₁, sv₁, t₁, hends, -⟩ := h.joined e he
  obtain rfl := Option.some.inj (hsv.symm.trans (hserver ▸ hends.server))
  have hlt := (h.serving p sv hsv).number_lt t₁ (StatusServer.mem_of_stream? hends.stream)
  rw [StatusServer.number_of_stream? hends.stream, hstream] at hlt
  exact absurd hlt (Nat.lt_irrefl _)

variable (h : Coherent lockKey addresses accepted now c) (hs : c.stores[i]? = some s)
  (hl : s.link? k = some l) (hstage : l.stage = .connecting) (hsv : c.server? p = some sv)

include h hs hl hstage hsv

theorem Extends.opened : c.Extends (c.opened i s k p sv first) where
  store j s₁ hs₁ := by
    rw [store_opened hs]
    by_cases hj : j = i
    · subst hj
      obtain rfl := Option.some.inj (hs.symm.trans hs₁)
      refine ⟨(s.updateLink k (·.connect first)).links, if_pos rfl, fun e he hstore => ?_⟩
      exact (link?_connect s k first e.link).trans
        (if_neg (h.link_free hs hl hstage e he hstore))
    · exact ⟨s₁.links, (if_neg hj).trans hs₁, fun _ _ _ => rfl⟩
  server q sv₁ hsv₁ := by
    rw [server?_opened hsv]
    by_cases hq : q = p
    · subst hq
      obtain rfl := Option.some.inj (hsv.symm.trans hsv₁)
      refine ⟨sv.openStream.1, if_pos rfl, rfl, fun e he hserver => ?_⟩
      rw [(h.serving q sv hsv).stream?_openStream, if_neg (h.stream_free hsv e he hserver)]
    · exact ⟨sv₁, (if_neg hq).trans hsv₁, rfl, fun _ _ _ => rfl⟩
  address q url hurl := (address_setServer c p sv.openStream.1 q).trans hurl
  connections _ he := List.mem_append_left _ he

omit hl hstage hsv in
/-- The links that were connected keep their connections, and the new one has got its own. -/
theorem Coherent.linked_opened {j : Nat} {s₁ : PeerStore} {l₁ : PeerLink}
    (hs₁ : (c.opened i s k p sv first).stores[j]? = some s₁)
    (hl₁ : s₁.link? l₁.index = some l₁) (hconnected : l₁.isConnected = true) :
    ∃ e ∈ (c.opened i s k p sv first).connections, e.store = j ∧ e.link = l₁.index := by
  by_cases hnewest : j = i ∧ l₁.index = k
  · exact ⟨⟨i, k, p, sv.nextStream⟩, List.mem_append_right _ (List.mem_singleton_self _),
      hnewest.1.symm, hnewest.2.symm⟩
  · rw [store_opened hs] at hs₁
    have hold : ∃ s₀, c.stores[j]? = some s₀ ∧ l₁ ∈ s₀.links := by
      by_cases hj : j = i
      · rw [if_pos hj] at hs₁
        cases hs₁
        rw [link?_connect, if_neg fun hk => hnewest ⟨hj, hk⟩] at hl₁
        exact ⟨s, hj ▸ hs, PeerStore.mem_of_link? hl₁⟩
      · rw [if_neg hj] at hs₁
        exact ⟨s₁, hs₁, PeerStore.mem_of_link? hl₁⟩
    obtain ⟨s₀, hs₀, hl₀⟩ := hold
    obtain ⟨e, he, hjoin⟩ := h.linked j s₀ hs₀ l₁ hl₀ hconnected
    exact ⟨e, List.mem_append_left _ he, hjoin⟩

omit hs hl hstage in
/-- So have the streams. -/
theorem Coherent.streamed_opened {q : Nat} {sv₁ : StatusServer} {y : Nat}
    (hsv₁ : (c.opened i s k p sv first).server? q = some sv₁)
    (hy : y ∈ sv₁.streams.map (·.number)) :
    ∃ e ∈ (c.opened i s k p sv first).connections, e.server = q ∧ e.stream = y := by
  by_cases hnewest : q = p ∧ y = sv.nextStream
  · exact ⟨⟨i, k, p, sv.nextStream⟩, List.mem_append_right _ (List.mem_singleton_self _),
      hnewest.1.symm, hnewest.2.symm⟩
  · rw [server?_opened hsv] at hsv₁
    have hold : ∃ sv₀, c.server? q = some sv₀ ∧ y ∈ sv₀.streams.map (·.number) := by
      by_cases hq : q = p
      · rw [if_pos hq] at hsv₁
        cases hsv₁
        obtain ⟨t, ht, rfl⟩ := List.mem_map.mp hy
        rcases List.mem_append.mp ht with ht | ht
        · exact ⟨sv, hq ▸ hsv, List.mem_map_of_mem ht⟩
        · exact absurd ⟨hq, by rw [List.mem_singleton.mp ht]⟩ hnewest
      · rw [if_neg hq] at hsv₁
        exact ⟨sv₁, hsv₁, hy⟩
    obtain ⟨sv₀, hsv₀, hy₀⟩ := hold
    obtain ⟨e, he, hjoin⟩ := h.streamed q sv₀ hsv₀ y hy₀
    exact ⟨e, List.mem_append_left _ he, hjoin⟩

omit hstage in
/-- The new connection is in order. -/
theorem Coherent.joined_opened {lease : Option Timestamp} (hreached : c.reached? l.url = some p)
    (hfirst : first = s.request s.registered lease) :
    ∃ s₁ l₁ sv₁ t₁, (c.opened i s k p sv first).Ends ⟨i, k, p, sv.nextStream⟩ s₁ l₁ sv₁ t₁ ∧
      Joined lockKey s₁ l₁ sv₁ t₁ ∧
        ((c.opened i s k p sv first).servers[p]?).map (·.address) = some l₁.url := by
  have hj : Joined lockKey s (l.connect first) sv.openStream.1
      ⟨sv.nextStream, [], false, .waiting, none, []⟩ :=
    .opened (h.up s (mem_of_store hs)) lease sv.nextStream rfl ⟨by rw [← hfirst]; rfl, rfl⟩
  refine ⟨s.updateLink k (·.connect first), l.connect first, sv.openStream.1, _,
    ⟨?_, ?_, ?_, ?_⟩, hj.congr rfl rfl rfl rfl rfl, ?_⟩
  · rw [store_opened hs, if_pos rfl]
  · rw [link?_connect, if_pos rfl, hl]
    rfl
  · rw [server?_opened hsv, if_pos rfl]
  · rw [(h.serving p sv hsv).stream?_openStream, if_pos rfl]
  · exact (address_setServer c p sv.openStream.1 p).trans (address_of_reached hreached)

/-- A stream is opened. -/
theorem Coherent.opened {lease : Option Timestamp} (hreached : c.reached? l.url = some p)
    (hfirst : first = s.request s.registered lease) :
    Coherent lockKey addresses accepted now (c.opened i s k p sv first) := by
  have hx : c.Extends (c.opened i s k p sv first) := .opened h hs hl hstage hsv
  have hup := h.up s (mem_of_store hs)
  have hindex : ∀ l : PeerLink, (l.connect first).index = l.index := fun _ => rfl
  have hstores : ∀ s₁ ∈ (c.opened i s k p sv first).stores,
      s₁ ∈ c.stores ∨ s₁ = s.updateLink k (·.connect first) := fun s₁ hs₁ =>
    List.mem_or_eq_of_mem_set hs₁
  have hnames : (c.opened i s k p sv first).stores.map (·.instanceName) =
      c.stores.map (·.instanceName) := names_setStore hs rfl
  have hup' : ∀ s₁ ∈ (c.opened i s k p sv first).stores, s₁.Up lockKey addresses := by
    intro s₁ hs₁
    rcases hstores s₁ hs₁ with hold | rfl
    · exact h.up s₁ hold
    · exact hup.updateLink hindex fun _ => ⟨rfl, rfl⟩
  -- what was there before, for the stores and the servers of the new cluster
  have hstore : ∀ (j : Nat) s₁, (c.opened i s k p sv first).stores[j]? = some s₁ →
      ∃ s₀, c.stores[j]? = some s₀ := by
    intro j s₁ hs₁
    rw [store_opened hs] at hs₁
    by_cases hj : j = i
    · exact ⟨s, hj ▸ hs⟩
    · exact ⟨s₁, (if_neg hj).symm.trans hs₁⟩
  have hserver : ∀ q sv₁, (c.opened i s k p sv first).server? q = some sv₁ →
      ∃ sv₀, c.server? q = some sv₀ ∧ (sv₁ = sv₀ ∨ sv₁ = sv₀.openStream.1) := by
    intro q sv₁ hsv₁
    rw [server?_opened hsv] at hsv₁
    by_cases hq : q = p
    · rw [if_pos hq] at hsv₁
      exact ⟨sv, hq ▸ hsv, .inr (Option.some.inj hsv₁).symm⟩
    · rw [if_neg hq] at hsv₁
      exact ⟨sv₁, hsv₁, .inl rfl⟩
  have hconnections : ∀ e ∈ (c.opened i s k p sv first).connections,
      e ∈ c.connections ∨ e = ⟨i, k, p, sv.nextStream⟩ := fun e he =>
    (List.mem_append.mp he).imp id List.mem_singleton.mp
  refine
    { up := hup', judged := ?_, lastStatus := ?_,
      accepted := fun x hx => exists_store_of_names hnames (h.accepted x hx),
      names := hnames ▸ h.names, serving := ?_,
      isListening := (h.setServer_frame p sv.openStream.1).1,
      addresses := (h.setServer_frame p sv.openStream.1).2, joined := ?_, linked := ?_,
      streamed := fun q sv₁ hsv₁ y hy => h.streamed_opened hsv hsv₁ hy,
      link_unique := ?_, stream_unique := ?_, told := ?_, named := ?_ }
  · intro s₁ hs₁
    rcases hstores s₁ hs₁ with hold | rfl
    · exact h.judged s₁ hold
    · exact (h.judged s (mem_of_store hs)).congr rfl rfl rfl
  · intro s₁ hs₁
    rcases hstores s₁ hs₁ with hold | rfl
    · exact h.lastStatus s₁ hold
    · exact h.lastStatus s (mem_of_store hs)
  · intro q sv₁ hsv₁
    obtain ⟨sv₀, hsv₀, rfl | rfl⟩ := hserver q sv₁ hsv₁
    · exact h.serving q _ hsv₀
    · exact (h.serving q sv₀ hsv₀).openStream
  · intro e he
    rcases hconnections e he with hold | rfl
    · exact hx.joined h hold
    · exact h.joined_opened hs hl hsv hreached hfirst
  · intro j s₁ hs₁ l₁ hl₁ hconnected
    have hfound := (PeerStore.link?_eq_some_iff (hup' s₁ (mem_of_store hs₁)).indices).mpr
      ⟨hl₁, rfl⟩
    exact h.linked_opened hs hs₁ hfound hconnected
  · intro e he e' he' hstore hlink
    rcases hconnections e he with hold | rfl
    · rcases hconnections e' he' with hold' | rfl
      · exact h.link_unique e hold e' hold' hstore hlink
      · exact absurd hlink (h.link_free hs hl hstage e hold hstore)
    · rcases hconnections e' he' with hold' | rfl
      · exact absurd hlink.symm (h.link_free hs hl hstage e' hold' hstore.symm)
      · rfl
  · intro e he e' he' hserver hstream
    rcases hconnections e he with hold | rfl
    · rcases hconnections e' he' with hold' | rfl
      · exact h.stream_unique e hold e' hold' hserver hstream
      · exact absurd hstream (h.stream_free hsv e hold hserver)
    · rcases hconnections e' he' with hold' | rfl
      · exact absurd hstream.symm (h.stream_free hsv e' hold' hserver.symm)
      · rfl
  · intro j s₁ hs₁ q sv₁ hsv₁
    obtain ⟨s₀, hs₀⟩ := hstore j s₁ hs₁
    obtain ⟨sv₀, hsv₀, -⟩ := hserver q sv₁ hsv₁
    exact hx.told h hs₀ hs₁ hsv₀ hsv₁
  · intro q sv₁ hsv₁ id hid
    obtain ⟨sv₀, hsv₀, heq⟩ := hserver q sv₁ hsv₁
    have htable : sv₁.table = sv₀.table := by rcases heq with rfl | rfl <;> rfl
    exact exists_store_of_names hnames (h.named q sv₀ hsv₀ id (htable ▸ hid))

end Opened

/-- A link that is connecting and fails, or that is closed, has sent nothing. -/
theorem Coherent.unconnected (h : Coherent lockKey addresses accepted now c)
    (hs : c.stores[i]? = some s) {k : Nat} (hl : s.link? k = some l)
    (hstage : l.stage = .connecting) {f : PeerLink → PeerLink}
    (hf : ∀ l, (f l).index = l.index ∧ (f l).url = l.url ∧ (f l).isListed = l.isListed ∧
      (f l).isConnected = false) :
    Coherent lockKey addresses accepted now (c.setStore i (s.updateLink k f)) := by
  refine h.works hs (.of_updateLink (h.up s (mem_of_store hs)) (fun l => (hf l).1) fun l₀ hl₀ => ?_)
  obtain rfl := Option.some.inj (hl.symm.trans hl₀)
  obtain ⟨-, hurl, hlisted, hunconnected⟩ := hf l
  have hconnecting : l.isConnected = false := by rw [PeerLink.isConnected, hstage]; rfl
  refine ⟨hurl, hlisted, hunconnected.trans hconnecting.symm, fun hconnected => ?_⟩
  exact absurd (hconnecting.symm.trans hconnected) Bool.false_ne_true

/-- A link tries to connect. -/
theorem Coherent.connect (h : Coherent lockKey addresses accepted now c)
    (hs : c.stores[i]? = some s) {k : Nat} (hl : s.link? k = some l)
    (hstage : l.stage = .connecting) :
    Coherent lockKey addresses accepted now (c.connect now i s l) := by
  obtain rfl := PeerStore.index_of_link? hl
  have hclose : ∀ l : PeerLink, l.close.index = l.index ∧ l.close.url = l.url ∧
      l.close.isListed = l.isListed ∧ l.close.isConnected = false := fun _ => ⟨rfl, rfl, rfl, rfl⟩
  unfold Cluster.connect
  split
  · exact h.unconnected hs hl hstage fun _ => ⟨rfl, rfl, rfl, rfl⟩
  · rename_i p hreached
    split
    · rename_i first sv hfirst hsv
      obtain ⟨lease, -, hlease⟩ := Option.map_eq_some_iff.mp hfirst
      exact h.opened hs hl hstage hsv hreached hlease.symm
    · exact h.unconnected hs hl hstage hclose

/-! ### Adding stores and servers -/

theorem getElem?_append_single {α : Type} (xs : List α) (y : α) (j : Nat) :
    (xs ++ [y])[j]? = if j = xs.length then some y else xs[j]? := by
  by_cases hj : j = xs.length
  · rw [if_pos hj, hj, List.getElem?_concat_length]
  · rw [if_neg hj]
    rcases Nat.lt_or_gt_of_ne hj with hlt | hgt
    · exact List.getElem?_append_left hlt
    · rw [List.getElem?_eq_none (Nat.le_of_lt hgt), List.getElem?_eq_none]
      rw [List.length_append, List.length_singleton]
      exact hgt

/-- A new store, of an instance that is new to the cluster. -/
theorem Coherent.addStore (h : Coherent lockKey addresses accepted now c)
    {isAddress : String → Bool} {name : String} {urls : List String} {options : ReplicatorOptions}
    {reconnect : Nat} {house : Gatehouse}
    (hstart : PeerStore.startWith isAddress name lockKey urls options reconnect house now = .ok s)
    (hurls : ∀ url, url ∈ urls ↔ url ∈ addresses)
    (hname : ∀ s' ∈ c.stores, s'.instanceName ≠ name) :
    Coherent lockKey addresses accepted now (c.addStore s).1 := by
  have hup : s.Up lockKey addresses := .start hstart hurls
  obtain ⟨-, -, plan, hs⟩ := PeerStore.start_eq_ok hstart
  have hsname : s.instanceName = name := by rw [hs]
  have hstore : ∀ j, (c.addStore s).1.stores[j]? =
      if j = c.stores.length then some s else c.stores[j]? := getElem?_append_single c.stores s
  have hmem : ∀ s₁ ∈ (c.addStore s).1.stores, s₁ ∈ c.stores ∨ s₁ = s := fun s₁ hs₁ =>
    (List.mem_append.mp hs₁).imp id List.mem_singleton.mp
  have hx : c.Extends (c.addStore s).1 := by
    refine ⟨?_, fun q sv hsv => ⟨sv, hsv, rfl, fun _ _ _ => rfl⟩, fun _ _ => id, fun _ => id⟩
    intro j s₁ hs₁
    refine ⟨s₁.links, ?_, fun _ _ _ => rfl⟩
    rw [hstore, if_neg (Nat.ne_of_lt (List.getElem?_eq_some_iff.mp hs₁).1)]
    exact hs₁
  refine
    { up := ?_, judged := ?_, lastStatus := ?_, accepted := ?_, names := ?_, serving := h.serving,
      isListening := h.isListening, addresses := h.addresses,
      joined := fun e he => hx.joined h he, linked := ?_, streamed := h.streamed,
      link_unique := h.link_unique, stream_unique := h.stream_unique, told := ?_, named := ?_ }
  · intro s₁ hs₁
    rcases hmem s₁ hs₁ with hold | rfl
    · exact h.up s₁ hold
    · exact hup
  · intro s₁ hs₁
    rcases hmem s₁ hs₁ with hold | rfl
    · exact h.judged s₁ hold
    · exact .inl (by rw [hs])
  · intro s₁ hs₁
    rcases hmem s₁ hs₁ with hold | rfl
    · exact h.lastStatus s₁ hold
    · -- nothing has been set of an instance that is new
      rw [show s₁.lastStatus = none by rw [hs], eq_comm]
      refine List.find?_eq_none.mpr fun x hx hname' => ?_
      obtain ⟨s', hs', heq⟩ := h.accepted x hx
      exact hname s' hs' (heq.trans ((eq_of_beq hname').trans hsname))
  · intro x hx
    obtain ⟨s₁, hs₁, heq⟩ := h.accepted x hx
    exact ⟨s₁, List.mem_append_left _ hs₁, heq⟩
  · exact Keyed.nodup_append_single h.names fun s₁ hs₁ => hsname.symm ▸ hname s₁ hs₁
  · intro j s₁ hs₁ l hl hconnected
    rw [hstore] at hs₁
    by_cases hj : j = c.stores.length
    · rw [if_pos hj] at hs₁
      cases hs₁
      rw [hs] at hl
      obtain ⟨k, hk, rfl⟩ := List.mem_mapIdx.mp hl
      cases hconnected
    · rw [if_neg hj] at hs₁
      exact h.linked j s₁ hs₁ l hl hconnected
  · intro j s₁ hs₁ q sv hsv
    have hs₁' := hs₁
    rw [hstore] at hs₁
    by_cases hj : j = c.stores.length
    · rw [if_pos hj] at hs₁
      cases hs₁
      intro w hw
      obtain ⟨s', hs', heq⟩ := h.named q sv hsv s.instanceName (Option.isSome_of_eq_some hw)
      exact absurd (heq.trans hsname) (hname s' hs')
    · rw [if_neg hj] at hs₁
      exact hx.told h hs₁ hs₁' hsv hsv
  · intro q sv hsv id hid
    obtain ⟨s₁, hs₁, heq⟩ := h.named q sv hsv id hid
    exact ⟨s₁, List.mem_append_left _ hs₁, heq⟩

/-- A new server, at an address of its own. -/
theorem Coherent.addServer (h : Coherent lockKey addresses accepted now c) {address : String}
    (plan : PrunePlan) (haddress : ∀ e ∈ c.servers, e.address ≠ address) :
    Coherent lockKey addresses accepted now (c.addServer address plan now) := by
  have hserver : ∀ q, (c.addServer address plan now).servers[q]? =
      if q = c.servers.length then some ⟨address, .start plan now, true⟩ else c.servers[q]? :=
    getElem?_append_single c.servers _
  have hserver? : ∀ q sv, (c.addServer address plan now).server? q = some sv →
      c.server? q = some sv ∨ sv = .start plan now := by
    intro q sv hsv
    rw [server?, hserver] at hsv
    by_cases hq : q = c.servers.length
    · rw [if_pos hq] at hsv
      exact .inr (Option.some.inj hsv).symm
    · rw [if_neg hq] at hsv
      exact .inl hsv
  have hold : ∀ {q : Nat} {server : ClusterServer}, c.servers[q]? = some server →
      (c.addServer address plan now).servers[q]? = some server := by
    intro q server hq
    rw [hserver, if_neg (Nat.ne_of_lt (List.getElem?_eq_some_iff.mp hq).1)]
    exact hq
  have hx : c.Extends (c.addServer address plan now) := by
    refine ⟨fun j s hs => ⟨s.links, hs, fun _ _ _ => rfl⟩, ?_, ?_, fun _ => id⟩
    · intro q sv hsv
      obtain ⟨server, hq, rfl⟩ := Option.map_eq_some_iff.mp hsv
      refine ⟨server.server, ?_, rfl, fun _ _ _ => rfl⟩
      rw [server?, hold hq]
      rfl
    · intro q url hurl
      obtain ⟨server, hq, rfl⟩ := Option.map_eq_some_iff.mp hurl
      rw [hold hq]
      rfl
  refine
    { up := h.up, judged := h.judged, lastStatus := h.lastStatus, accepted := h.accepted,
      names := h.names, serving := ?_, isListening := ?_, addresses := ?_,
      joined := fun e he => hx.joined h he, linked := h.linked, streamed := ?_,
      link_unique := h.link_unique, stream_unique := h.stream_unique, told := ?_, named := ?_ }
  · intro q sv hsv
    rcases hserver? q sv hsv with hsv | rfl
    · exact h.serving q sv hsv
    · exact .start plan now
  · intro e he
    rcases List.mem_append.mp he with he | he
    · exact h.isListening e he
    · rw [List.mem_singleton.mp he]
  · exact Keyed.nodup_append_single h.addresses haddress
  · intro q sv hsv x hx
    rcases hserver? q sv hsv with hsv | rfl
    · exact h.streamed q sv hsv x hx
    · exact absurd hx List.not_mem_nil
  · intro j s hs q sv hsv
    rcases hserver? q sv hsv with hsv' | rfl
    · exact hx.told h hs hs hsv' hsv
    · intro w hw
      cases hw
  · intro q sv hsv id hid
    rcases hserver? q sv hsv with hsv | rfl
    · exact h.named q sv hsv id hid
    · cases hid

/-! ### Setting statuses -/

theorem lastAccepted?_cons (x : ReportedStatus) (accepted : List ReportedStatus) (name : String) :
    lastAccepted? (x :: accepted) name =
      if x.instanceName = name then some x else lastAccepted? accepted name := by
  rw [lastAccepted?, List.find?_cons]
  by_cases hx : x.instanceName = name
  · rw [if_pos hx, hx, beq_self_eq_true]
  · rw [if_neg hx, beq_false_of_ne hx]
    rfl

/-- A status has been set. -/
theorem Coherent.setStatus (h : Coherent lockKey addresses accepted now c)
    (hs : c.stores[i]? = some s) {x : ReportedStatus} (hx : x.instanceName = s.instanceName)
    (hset : c.setStatus i x = some (.ok (), c')) :
    Coherent lockKey addresses (x :: accepted) now c' := by
  simp only [Cluster.setStatus, hs, Option.bind_eq_bind, Option.bind_some, pure,
    Option.some.injEq, Prod.mk.injEq] at hset
  obtain ⟨hok, rfl⟩ := hset
  have hmem := mem_of_store hs
  obtain ⟨hup, hgoes, hlast, hviews, hjudged⟩ :=
    (h.up s hmem).setStatus hx (Prod.ext hok rfl)
  refine h.goes hs hup hgoes hviews (hjudged (h.judged s hmem)) ?_ ?_ ?_
  · rw [lastAccepted?_cons, if_pos hx]
    exact hlast
  · intro name hname
    rw [lastAccepted?_cons, if_neg fun heq => hname (heq.symm.trans hx)]
  · intro y hy
    rcases List.mem_cons.mp hy with rfl | hy
    · exact .inl hx
    · exact .inr hy

/-- A status has been refused. -/
theorem Coherent.setStatus_refused (h : Coherent lockKey addresses accepted now c)
    {x : ReportedStatus} {error : StoreError}
    (hset : c.setStatus i x = some (.error error, c')) :
    Coherent lockKey addresses accepted now c' := by
  simp only [Cluster.setStatus, Option.bind_eq_bind, Option.bind_eq_some_iff, pure,
    Option.some.injEq, Prod.mk.injEq] at hset
  obtain ⟨s, hs, hrefused, rfl⟩ := hset
  have hsame : (s.setStatus x).2 = s := PeerStore.setStatus_eq_error (Prod.ext hrefused rfl)
  rw [hsame]
  exact h.works hs (.refl (h.up s (mem_of_store hs)))

end Floodgate.Cluster
