import Floodgate.Proofs.Cluster.Coherent
import Mathlib.Data.Option.Basic
/-!
# Floodgate.Proofs.Cluster.Steps

**Every section keeps a cluster coherent.** A message that arrives is taken up at its receiver first
and then taken off its sender, so that each half is a change of one part of the cluster. As long as
nothing is stopped, no connection hangs up and no server retires.
-/

namespace Floodgate.Cluster

variable {c c' : Cluster} {lockKey : String} {addresses : List String} {now : Int}
  {accepted : List ReportedStatus} {i p x : Nat} {e e' : Connection} {s s' : PeerStore}
  {l l' : PeerLink} {sv sv' : StatusServer} {t t' : ServerStream}

/-! ### Servers -/

/-- The connection of a stream. -/
theorem Coherent.connection_of_stream (h : Coherent lockKey addresses accepted now c)
    (hsv : c.server? p = some sv) (ht : sv.stream? x = some t) :
    ∃ e ∈ c.connections, e.server = p ∧ e.stream = x ∧ ∃ s l, c.Ends e s l sv t ∧
      Joined lockKey s l sv t := by
  have hx : x ∈ sv.streams.map (·.number) :=
    List.mem_map.mpr ⟨t, StatusServer.mem_of_stream? ht, StatusServer.number_of_stream? ht⟩
  obtain ⟨e, he, rfl, rfl⟩ := h.streamed p sv hsv x hx
  obtain ⟨s, l, sv₀, t₀, hends, hjoined, -⟩ := h.joined e he
  obtain rfl := Option.some.inj (hsv.symm.trans hends.server)
  obtain rfl := Option.some.inj (ht.symm.trans hends.stream)
  exact ⟨e, he, rfl, rfl, s, l, hends, hjoined⟩

/-- A section of a server, at the connection of the stream that it is about. -/
theorem Joined.moved (hj : Joined lockKey s l sv t) (hm : sv.Moves lockKey sv' x t t') :
    Joined lockKey s l sv' t' := by
  rcases hm.recorded with ⟨r, hin, hhandler, hstatus⟩ | ⟨hin, hhandler, hstatus⟩
  · have htells : s.Tells l (r :: t'.inbound) := hin ▸ hj.tells
    have hr : r.instanceId = s.instanceName :=
      (htells.valid r (List.mem_append_left _ List.mem_cons_self)).instanceId
    refine ⟨hj.isConnected, htells.tail, ?_, ?_, hm.fed _ hj.fed⟩
    · intro hwaiting
      rw [hhandler] at hwaiting
      cases hwaiting
    · intro _
      rw [hstatus, if_pos hr.symm]
      rfl
  · refine ⟨hj.isConnected, hin ▸ hj.tells, ?_, ?_, hm.fed _ hj.fed⟩
    · rw [hin, hhandler]
      exact hj.registering
    · rw [hhandler, hstatus]
      exact hj.known

/-- A section of a server, at a connection of another stream. -/
theorem Joined.kept (hj : Joined lockKey s l sv t) (hm : sv.Moves lockKey sv' x t' t'')
    (ht : t ∈ sv.streams) (hx : t.number ≠ x) : Joined lockKey s l sv' t := by
  refine ⟨hj.isConnected, hj.tells, hj.registering, fun hhandler => ?_,
    hj.fed.of_kept (hm.kept t ht hx)⟩
  have hold := hj.known hhandler
  rcases hm.recorded with ⟨r, -, -, hstatus⟩ | ⟨-, -, hstatus⟩
  · rw [hstatus]
    split
    · rfl
    · exact hold
  · rw [hstatus]
    exact hold

/-- The table tells what was set last once the stream that moved has recorded a report. -/
theorem Coherent.told_moves (h : Coherent lockKey addresses accepted now c)
    (hsv : c.server? p = some sv) (hm : sv.Moves lockKey sv' x t t')
    (hs : c.stores[i]? = some s) : Told lockKey c.connections i s p sv' := by
  obtain ⟨e₀, he₀, hserver₀, hstream₀, s₀, l₀, hends₀, hjoined₀⟩ :=
    h.connection_of_stream hsv hm.found
  intro w hw
  rcases hm.recorded with ⟨r, hin, -, hstatus⟩ | ⟨hin, -, hstatus⟩
  · have htells : s₀.Tells l₀ (r :: t'.inbound) := hin ▸ hjoined₀.tells
    have hr : r.instanceId = s₀.instanceName :=
      (htells.valid r (List.mem_append_left _ List.mem_cons_self)).instanceId
    rw [hstatus] at hw
    by_cases hown : s.instanceName = r.instanceId
    · -- the report of this store has been recorded
      rw [if_pos hown] at hw
      obtain rfl := h.place_unique hends₀.store hs (hr.symm.trans hown.symm)
      obtain rfl := Option.some.inj (hs.symm.trans hends₀.store)
      refine ⟨⟨e₀, he₀, rfl, hserver₀⟩, fun hall => ?_⟩
      obtain ⟨hawaits, hnil⟩ :=
        hall e₀ he₀ rfl hserver₀ l₀ t' hends₀.link (hstream₀ ▸ hm.after)
      have hlast := htells.last r (by rw [List.cons_append, hnil]; rfl)
      rw [hawaits] at hlast
      exact Option.some.inj hw ▸ hlast.resolve_left Bool.false_ne_true
    · rw [if_neg hown] at hw
      obtain ⟨hexists, htold⟩ := h.told i s hs p sv hsv w hw
      refine ⟨hexists, fun hall => htold fun e he hstore hserver l t₁ hl ht₁ => ?_⟩
      refine hall e he hstore hserver l t₁ hl ((hm.others _ fun hx => ?_).trans ht₁)
      -- otherwise the report would have been one of this store
      obtain rfl := h.stream_unique e he e₀ he₀ (hserver.trans hserver₀.symm)
        (hx.trans hstream₀.symm)
      obtain rfl := Option.some.inj (hends₀.store.symm.trans (hstore ▸ hs))
      exact hown hr.symm
  · rw [hstatus] at hw
    obtain ⟨hexists, htold⟩ := h.told i s hs p sv hsv w hw
    refine ⟨hexists, fun hall => htold fun e he hstore hserver l t₁ hl ht₁ => ?_⟩
    by_cases hx : e.stream = x
    · obtain rfl := Option.some.inj (hm.found.symm.trans (hx ▸ ht₁))
      exact hin ▸ hall e he hstore hserver l t' hl (hx ▸ hm.after)
    · exact hall e he hstore hserver l t₁ hl ((hm.others _ hx).trans ht₁)

/-- A section of a server, as long as no report is refused. -/
theorem Coherent.moves (h : Coherent lockKey addresses accepted now c)
    (hsv : c.server? p = some sv) (hm : sv.Moves lockKey sv' x t t') :
    Coherent lockKey addresses accepted now (c.setServer p sv') := by
  refine h.setServer hsv hm.serving hm.numbers ?_ (fun i s => h.told_moves hsv hm) ?_
  · intro e he hep s l t₁ hends hj
    by_cases hx : e.stream = x
    · obtain rfl := Option.some.inj (hm.found.symm.trans (hx ▸ hends.stream))
      exact ⟨t', hx ▸ hm.after, hj.moved hm⟩
    · refine ⟨t₁, (hm.others _ hx).trans hends.stream, hj.kept hm ?_ ?_⟩
      · exact StatusServer.mem_of_stream? hends.stream
      · exact StatusServer.number_of_stream? hends.stream ▸ hx
  · intro id hid
    rcases hm.recorded with ⟨r, hin, -, hstatus⟩ | ⟨-, -, hstatus⟩
    · obtain ⟨_, -, -, -, s₀, l₀, hends₀, hjoined₀⟩ := h.connection_of_stream hsv hm.found
      have hr : r.instanceId = s₀.instanceName :=
        (hjoined₀.tells.valid r (by simp [hin])).instanceId
      rw [hstatus] at hid
      by_cases hown : id = r.instanceId
      · exact .inr ⟨s₀, mem_of_store hends₀.store, hr.symm.trans hown.symm⟩
      · rw [if_neg hown] at hid
        exact .inl hid
    · rw [hstatus] at hid
      exact .inl hid

/-- A server that goes on by itself, other than by pruning. -/
theorem Coherent.serve (h : Coherent lockKey addresses accepted now c)
    (hsv : c.server? p = some sv) {event : StatusServer.Event} (hevent : event ≠ .prune)
    (hstep : sv.step now event = some sv') :
    Coherent lockKey addresses accepted now (c.setServer p sv') := by
  have hserving := h.serving p sv hsv
  have hjoined : ∀ t ∈ sv.streams, ∃ s l, s.Up lockKey addresses ∧ Joined lockKey s l sv t := by
    intro t ht
    obtain ⟨_, -, -, -, s, l, hends, hj⟩ :=
      h.connection_of_stream hsv (hserving.stream?_of_mem ht)
    exact ⟨s, l, h.up s (mem_of_store hends.store), hj⟩
  have hfed : ∀ t ∈ sv.streams, ∃ view, t.Fed lockKey sv.table view := by
    intro t ht
    obtain ⟨s, l, -, hj⟩ := hjoined t ht
    exact ⟨_, hj.fed⟩
  have hvalid : ∀ t ∈ sv.streams, ∀ r ∈ t.inbound, r.lockKey = lockKey ∧ r.validate = .ok () := by
    intro t ht r hr
    obtain ⟨s, l, hup, hj⟩ := hjoined t ht
    have hreport := hj.tells.valid r (List.mem_append_left _ hr)
    exact ⟨hreport.lockKey.trans hup.lockKey, hreport.validate⟩
  obtain ⟨x, t, t', hm⟩ := StatusServer.moves_of_step hserving hfed hvalid hevent hstep
  exact h.moves hsv hm

/-! ### Messages -/

theorem linkOf?_eq_some (h : c.linkOf? e = some (s, l)) :
    c.stores[e.store]? = some s ∧ s.link? e.link = some l := by
  simp only [linkOf?, Option.bind_eq_bind, Option.bind_eq_some_iff, pure, Option.some.injEq,
    Prod.mk.injEq] at h
  obtain ⟨_, hs, _, hl, rfl, rfl⟩ := h
  exact ⟨hs, hl⟩

theorem streamOf?_eq_some (h : c.streamOf? e = some (sv, t)) :
    c.server? e.server = some sv ∧ sv.stream? e.stream = some t := by
  simp only [streamOf?, Option.bind_eq_bind, Option.bind_eq_some_iff, pure, Option.some.injEq,
    Prod.mk.injEq] at h
  obtain ⟨_, hsv, _, ht, rfl, rfl⟩ := h
  exact ⟨hsv, ht⟩

/-- The server has answered. -/
theorem Coherent.answer (h : Coherent lockKey addresses accepted now c)
    (hstep : c.answer e = some c') : Coherent lockKey addresses accepted now c' := by
  simp only [Cluster.answer, Option.bind_eq_bind, Option.bind_eq_some_iff, pure,
    Option.some.injEq, Option.guard_eq_some'] at hstep
  obtain ⟨⟨s, l⟩, hlink, _, hstage, rfl⟩ := hstep
  obtain ⟨hs, hl⟩ := linkOf?_eq_some hlink
  refine h.works hs (.of_updateLink (h.up s (mem_of_store hs)) (fun _ => rfl) fun l₀ hl₀ => ?_)
  obtain rfl := Option.some.inj (hl.symm.trans hl₀)
  refine ⟨rfl, rfl, ?_, fun _ => rfl⟩
  rw [PeerLink.isConnected, PeerLink.isConnected, hstage]
  rfl

/-- A report that arrives is for a moment at both ends. -/
theorem Joined.received (hj : Joined lockKey s l sv t) {r : StatusRequest}
    {rest : List StatusRequest} (hout : l.outbox = r :: rest) :
    Joined lockKey s l sv { t with inbound := t.inbound ++ [r] } where
  isConnected := hj.isConnected
  tells := by
    refine ⟨fun r' hr' => hj.tells.valid r' ?_, fun r' hr' => hj.tells.last r' ?_⟩
    · simp only [hout, List.mem_append, List.mem_cons] at hr' ⊢
      tauto
    · rw [hout, List.getLast?_append] at hr' ⊢
      exact hr'
  registering _ hnil := by simp [hout] at hnil
  known := hj.known
  fed := hj.fed.of_inbound _

/-- A report that has arrived is taken off the way. -/
theorem Joined.taken (hj : Joined lockKey s l sv t) {r : StatusRequest}
    {rest : List StatusRequest} (hout : l.outbox = r :: rest) {sv' : StatusServer}
    (hj' : Joined lockKey s l sv' { t with inbound := t.inbound ++ [r] }) :
    Joined lockKey s { l with outbox := rest } sv' { t with inbound := t.inbound ++ [r] } where
  isConnected := hj.isConnected
  tells := by
    refine ⟨fun r' hr' => hj.tells.valid r' ?_, fun r' hr' => hj.tells.last r' ?_⟩
    · rw [hout]
      simpa using hr'
    · rw [hout]
      simpa using hr'
  registering _ hnil := by simp at hnil
  known := hj'.known
  fed := hj'.fed

/-- A connection between a store and a stream of which both ends are known. -/
theorem Coherent.eq_of_ends (h : Coherent lockKey addresses accepted now c)
    (he : e ∈ c.connections) (he' : e' ∈ c.connections) (hs : c.stores[e.store]? = some s)
    (hs' : c.stores[e'.store]? = some s) (hlink : e.link = e'.link) : e = e' :=
  h.link_unique e he e' he' (h.place_unique hs hs' rfl) hlink

theorem Coherent.exists_ends (h : Coherent lockKey addresses accepted now c)
    (he : e ∈ c.connections) (hs : c.stores[e.store]? = some s) (hl : s.link? e.link = some l)
    (hsv : c.server? e.server = some sv) : ∃ t, c.Ends e s l sv t := by
  obtain ⟨s₀, l₀, sv₀, t, hends, -⟩ := h.joined e he
  obtain rfl := Option.some.inj (hs.symm.trans hends.store)
  obtain rfl := Option.some.inj (hl.symm.trans hends.link)
  obtain rfl := Option.some.inj (hsv.symm.trans hends.server)
  exact ⟨t, hends⟩

theorem takeReport_eq_some {r : StatusRequest} (h : l.takeReport = some (r, l')) :
    ∃ rest, l.outbox = r :: rest ∧ l' = { l with outbox := rest } := by
  unfold PeerLink.takeReport at h
  split at h
  · cases h
  · next r₀ rest hout =>
    cases h
    exact ⟨rest, hout, rfl⟩

/-- The oldest report on the way arrives. -/
theorem Coherent.transmit (h : Coherent lockKey addresses accepted now c)
    (he : e ∈ c.connections) (hstep : c.transmit e = some c') :
    Coherent lockKey addresses accepted now c' := by
  simp only [Cluster.transmit, Option.bind_eq_bind, Option.bind_eq_some_iff, pure,
    Option.some.injEq, Option.guard_eq_some'] at hstep
  obtain ⟨⟨s, l⟩, hlink, _, -, ⟨r, l'⟩, htake, sv, hsv, rfl⟩ := hstep
  obtain ⟨hs, hl⟩ := linkOf?_eq_some hlink
  obtain ⟨rest, hout, rfl⟩ := takeReport_eq_some (l := l) htake
  have hup := h.up s (mem_of_store hs)
  obtain ⟨t, hends⟩ := h.exists_ends he hs hl hsv
  have hj := (h.joined_of_ends he hends).1
  -- the server has the report before it is taken off the way
  have h₁ : Coherent lockKey addresses accepted now
      (c.setServer e.server (sv.receive e.stream r)) := by
    refine h.updateStream hsv e.stream (f := fun t => { t with inbound := t.inbound ++ [r] })
      (fun _ => rfl) (fun _ => rfl) (fun _ => rfl) ?_ ?_
    · intro e' he' hserver hstream s' l' t' hends' hj'
      obtain rfl := h.stream_unique e' he' e he hserver hstream
      obtain rfl := Option.some.inj (hs.symm.trans hends'.store)
      obtain rfl := Option.some.inj (hl.symm.trans hends'.link)
      exact hj'.received hout
    · intro s' l' t' hidle
      exact absurd hidle.2 (by simp)
  have hstream := StatusServer.stream?_updateStream
    (f := fun t : ServerStream => { t with inbound := t.inbound ++ [r] }) (fun _ => rfl) sv
    e.stream e.stream
  rw [if_pos rfl, hends.stream] at hstream
  have hindex : ∀ l : PeerLink, ({ l with outbox := l.outbox.tail } : PeerLink).index = l.index :=
    fun _ => rfl
  have hconst : s.updateLink e.link (fun _ => { l with outbox := rest }) =
      s.updateLink e.link fun l => { l with outbox := l.outbox.tail } :=
    PeerStore.updateLink_const hup.indices hl (by simp [hout])
  have hlink? := fun j => PeerStore.link?_updateLink hindex s e.link j
  rw [hconst]
  show Coherent lockKey addresses accepted now
    ((c.setServer e.server (sv.receive e.stream r)).setStore e.store _)
  refine h₁.setStore hs (hup.updateLink hindex fun _ => ⟨rfl, rfl⟩)
    ((h.judged s (mem_of_store hs)).congr rfl rfl rfl) (h.lastStatus s (mem_of_store hs))
    (fun _ _ => rfl) (fun _ => .inr) (.updateLink hindex fun _ => ⟨rfl, rfl⟩) ?_ ?_
  · intro j l₁ l₁' hl₁ hl₁'
    rw [hlink?, hl₁] at hl₁'
    split at hl₁' <;> cases hl₁' <;> rfl
  · intro e' he' l₁ l₁' sv₁ t₁ hends₁ hl₁' hj₁
    rw [hlink?] at hl₁'
    by_cases hel : e'.link = e.link
    · obtain rfl := h.eq_of_ends he' he hends₁.store hs hel
      obtain rfl := Option.some.inj (hl.symm.trans hends₁.link)
      have hserver₁ := hends₁.server
      rw [server?_setServer hsv, if_pos rfl] at hserver₁
      cases hserver₁
      obtain rfl := Option.some.inj (hstream.symm.trans hends₁.stream)
      rw [if_pos rfl, hl, Option.map_some, hout] at hl₁'
      cases hl₁'
      exact ⟨(hj.taken hout hj₁).congr rfl rfl rfl rfl rfl, fun hidle => absurd hidle.2 (by simp)⟩
    · rw [if_neg hel, hends₁.link] at hl₁'
      cases hl₁'
      exact .of_link (.of_same rfl rfl rfl rfl rfl rfl (fun _ => rfl) rfl id) rfl hj₁ hj₁.fed

/-- What arrives on a stream that is open is a snapshot. -/
theorem Joined.arrive (hj : Joined lockKey s l sv t) {arrival : Arrival}
    (harrive : sv.arrive t = some (sv', arrival)) :
    ∃ n rest, t.outbound = .snapshot n :: rest ∧ arrival = .snapshot n ∧
      sv' = sv.updateStream t.number fun t => { t with outbound := rest } := by
  unfold StatusServer.arrive at harrive
  cases hout : t.outbound with
  | nil =>
    have hended : t.handler = .ended := by
      rw [hout] at harrive
      simp only [Option.ite_none_right_eq_some] at harrive
      exact harrive.1
    cases hj.fed with
    | waiting hhandler => rw [hended] at hhandler; cases hhandler
    | fed hhandler => rw [hended] at hhandler; cases hhandler
  | cons o rest =>
    cases o with
    | snapshot n =>
      rw [hout] at harrive
      cases harrive
      exact ⟨n, rest, rfl, rfl, rfl⟩
    | refusal error =>
      cases hj.fed with
      | waiting _ _ hnil => rw [hout] at hnil; cases hnil
      | fed _ _ _ _ _ hall =>
        obtain ⟨n, heq, -⟩ := hall (.refusal error) (hout ▸ List.mem_cons_self)
        cases heq

/-- A snapshot arrives. -/
theorem Coherent.receive (h : Coherent lockKey addresses accepted now c)
    (he : e ∈ c.connections) (hstep : c.receive now e = some c') :
    Coherent lockKey addresses accepted now c' := by
  simp only [Cluster.receive, Option.bind_eq_bind, Option.bind_eq_some_iff, pure,
    Option.guard_eq_some'] at hstep
  obtain ⟨⟨s, l⟩, hlink, _, -, ⟨sv, t⟩, hstream, ⟨sv', arrival⟩, harrive, hc'⟩ := hstep
  obtain ⟨hs, hl⟩ := linkOf?_eq_some hlink
  obtain ⟨hsv, ht⟩ := streamOf?_eq_some hstream
  have hends : c.Ends e s l sv t := ⟨hs, hl, hsv, ht⟩
  obtain ⟨hj, -⟩ := h.joined_of_ends he hends
  obtain ⟨n, rest, hout, rfl, rfl⟩ := hj.arrive harrive
  cases hc'
  have hup := h.up s (mem_of_store hs)
  have hindex := PeerStore.index_of_link? hl
  have hkey : n.lockKey = s.lockKey := (hj.fed.take_up hout).1.trans hup.lockKey.symm
  have hlookup := PeerStore.lookup_applySnapshot (i := e.link) hkey now
  have hgoes := PeerStore.Goes.applySnapshot s now e.link n
  -- the store takes up the snapshot before it is taken off the way
  have h₁ : Coherent lockKey addresses accepted now
      (c.setStore e.store (s.applySnapshot now e.link n)) := by
    refine h.setStore hs (hup.applySnapshot hl now n)
      (.inr ⟨now, Int.le_refl now, .reevaluate ?_ now⟩)
      ((PeerStore.lastStatus_putView s e.link n).trans (h.lastStatus s (mem_of_store hs)))
      (fun _ _ => rfl) (fun _ => .inr) hgoes.placed ?_ ?_
    · exact (PeerStore.isStopped_putView s e.link n).trans hup.isStopped
    · intro j l₁ l₁' hl₁ hl₁'
      obtain ⟨l₀, hl₀, hlink⟩ := hgoes.links j l₁ hl₁
      obtain rfl := Option.some.inj (hl₁'.symm.trans hl₀)
      exact hlink.isConnected
    · intro e' he' l₁ l₁' sv₁ t₁ hends₁ hl₁' hj₁
      obtain ⟨l₀, hl₀, hlink⟩ := hgoes.links _ l₁ hends₁.link
      obtain rfl := Option.some.inj (hl₁'.symm.trans hl₀)
      refine .of_link hlink hgoes.instanceName hj₁ ?_
      rw [hlookup, PeerStore.index_of_link? hl₁']
      by_cases hel : e'.link = e.link
      · obtain rfl := h.eq_of_ends he' he hends₁.store hs hel
        obtain rfl := Option.some.inj (hsv.symm.trans hends₁.server)
        obtain rfl := Option.some.inj (ht.symm.trans hends₁.stream)
        rw [if_pos rfl]
        exact (hj.fed.take_up hout).2
      · rw [if_neg hel, ← PeerStore.index_of_link? hends₁.link]
        exact hj₁.fed
  have hnumber := StatusServer.number_of_stream? ht
  rw [hnumber]
  refine h₁.updateStream (p := e.server) hsv e.stream
    (f := fun t => { t with outbound := rest })
    (fun _ => rfl) (fun _ => rfl) (fun _ => rfl) ?_ fun _ _ _ => id
  intro e' he' hserver hstream' s' l' t' hends' hj'
  obtain rfl := h.stream_unique e' he' e he hserver hstream'
  have hstore' := hends'.store
  rw [store_setStore hs, if_pos rfl] at hstore'
  cases hstore'
  obtain rfl := Option.some.inj (ht.symm.trans hends'.stream)
  have hfed := hj'.fed
  rw [hlookup, PeerStore.index_of_link? hends'.link, if_pos rfl] at hfed
  refine ⟨hj'.isConnected, hj'.tells, hj'.registering, hj'.known, ?_⟩
  rw [hlookup, PeerStore.index_of_link? hends'.link, if_pos rfl]
  exact hfed.arrived hout

/-- No link hangs up. -/
theorem Coherent.hangUp (h : Coherent lockKey addresses accepted now c)
    (he : e ∈ c.connections) : c.hangUp e = none := by
  obtain ⟨s, l, sv, t, hends, hj, -⟩ := h.joined e he
  simp [Cluster.hangUp, linkOf?, hends.store, hends.link, hj.isConnected]

end Floodgate.Cluster
