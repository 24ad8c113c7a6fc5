import Floodgate.PeerStore.Basic
import Floodgate.Proofs.Replication.Pending
/-!
# Floodgate.Proofs.PeerStore.Reports

**The last report says what was set last, or another is about to follow.** A store reports the
status of its own instance, once for each link. What it has sent on a link waits in the outbox, and
then at the server. `Tells` looks at all of it at once, whatever of it has arrived: the last report
of the line says what the store would register with now, unless a write for the link has still to be
sent. So a link that has nothing more to say (`Idle`) has said it.

Every operation of a store is described by what it does to a link, in `Goes`. Setting a status makes
every link await a write; the replicator, carrying on by itself, stops awaiting only by sending one.
-/

namespace Floodgate

/-- Whether a status on the wire says what a reported status says. -/
def WireStatus.Says (w : WireStatus) (x : ReportedStatus) : Prop :=
  w.isBusy = x.isBusy ∧ w.lockData = x.lockData.getD ""

namespace PeerStore

open Replicator (Section section_of_step)

variable {s s' : PeerStore} {l l' : PeerLink} {now : Int} {arrived : List StatusRequest}

/-! ### The keys of the links -/

/-- The first separator cuts a text in one way, whatever stands after it. -/
theorem append_cons_inj {c : Char} {as bs as' bs' : List Char} (has : c ∉ as) (has' : c ∉ as')
    (h : as ++ c :: bs = as' ++ c :: bs') : as = as' ∧ bs = bs' := by
  induction as generalizing as' with
  | nil =>
    cases as' with
    | nil => exact ⟨rfl, (List.cons.inj h).2⟩
    | cons a rest => exact absurd ((List.cons.inj h).1 ▸ List.mem_cons_self) has'
  | cons a rest ih =>
    cases as' with
    | nil => exact absurd ((List.cons.inj h).1 ▸ List.mem_cons_self) has
    | cons a' rest' =>
      obtain ⟨rfl, htail⟩ := List.cons.inj h
      obtain ⟨rfl, hbs⟩ := ih (mt (List.mem_cons_of_mem _) has) (mt (List.mem_cons_of_mem _) has')
        htail
      exact ⟨rfl, hbs⟩

/-- An index is written without the sign that stands between it and the instance. -/
theorem minus_not_mem_renderNat (n : Nat) : '-' ∉ Text.renderNat n := fun h =>
  absurd (Text.digitValue?_isSome_of_mem_renderNat h) (by decide)

/-- Keys of different links or of different instances are different. -/
theorem replicationKey_inj {i j : Nat} {a b : String} :
    replicationKey i a = replicationKey j b ↔ i = j ∧ a = b := by
  constructor
  · intro h
    have hlist := congrArg String.toList h
    simp only [replicationKey, Text.natText, String.toList_append, String.toList_ofList,
      List.append_assoc] at hlist
    obtain ⟨hdigits, hname⟩ :=
      append_cons_inj (minus_not_mem_renderNat i) (minus_not_mem_renderNat j) hlist
    have hparse := congrArg Text.parseNat? hdigits
    rw [Text.parseNat?_renderNat, Text.parseNat?_renderNat] at hparse
    exact ⟨Option.some.inj hparse, String.toList_inj.mp hname⟩
  · rintro ⟨rfl, rfl⟩
    rfl

/-- Whether a write for a link has still to be sent. -/
def awaits (s : PeerStore) (index : Nat) : Bool :=
  s.replicator.isPending (replicationKey index s.instanceName)

/-! ### Stores that are up -/

/-- A store that is up and reports the status of its own instance. -/
structure Up (lockKey : String) (addresses : List String) (s : PeerStore) : Prop where
  /-- It is a store of the lock key. -/
  lockKey : s.lockKey = lockKey
  /-- The lock key is a name. -/
  lockKey_ne : s.lockKey ≠ ""
  /-- The instance has a name. -/
  name_ne : s.instanceName ≠ ""
  /-- Each index has one link. -/
  indices : (s.links.map (·.index)).Nodup
  /-- No server has been removed. -/
  isListed : ∀ l ∈ s.links, l.isListed = true
  /-- There is a link to each server. -/
  urls : ∀ url, url ∈ s.links.map (·.url) ↔ url ∈ addresses
  /-- The replicator is in order. -/
  replicator : s.replicator.Sound
  /-- The replicator has not been shut down. -/
  isShutDown : s.replicator.isShutDown = false
  /-- The watcher has not stopped. -/
  isStopped : s.isStopped = false
  /-- A link is written what was set last, under its key. -/
  writes : ∀ k w, (s.replicator.entryFor? k).map (·.current) = some w →
    k = replicationKey w.index s.instanceName ∧ s.lastStatus = some w.status ∧
      ∃ l, s.link? w.index = some l
  /-- What was set last is a status of the instance. -/
  own : ∀ x, s.lastStatus = some x →
    x.instanceName = s.instanceName ∧ LockData.validate x.lockData [] = .ok ()
  /-- Each link has one view. -/
  views : (s.views.map (·.1)).Nodup
  /-- Views belong to links. -/
  viewed : ∀ i ∈ s.views.map (·.1), ∃ l, s.link? i = some l

theorem link?_eq_some_iff (h : (s.links.map (·.index)).Nodup) {i : Nat} :
    s.link? i = some l ↔ l ∈ s.links ∧ l.index = i := Keyed.find?_eq_some_iff h

theorem index_of_link? {i : Nat} (h : s.link? i = some l) : l.index = i := Keyed.key_of_find? h

theorem mem_of_link? {i : Nat} (h : s.link? i = some l) : l ∈ s.links :=
  List.mem_of_find?_eq_some h

theorem nodup_freshLinks (urls : List String) : ((freshLinks urls).map (·.index)).Nodup := by
  have hindices : (freshLinks urls).map (·.index) = List.range urls.length :=
    List.ext_getElem (by simp [freshLinks]) fun i _ _ => by simp [freshLinks, PeerLink.fresh]
  rw [hindices]
  exact List.nodup_range

theorem start_eq_ok {isAddress : String → Bool} {name lockKey : String} {urls : List String}
    {options : ReplicatorOptions} {reconnect : Nat} {house : Gatehouse}
    (h : startWith isAddress name lockKey urls options reconnect house now = .ok s) :
    Text.isBlankName name = false ∧ Text.isBlankName lockKey = false ∧
      ∃ plan, s = { instanceName := name, lockKey, house, replicator := .start plan now
                    links := freshLinks urls, views := [], lastStatus := none, nextExpiry := none
                    timer := none, reconnectMillis := reconnect, isStopped := false } := by
  unfold startWith at h
  cases hname : Text.isBlankName name with
  | true => rw [hname] at h; cases h
  | false =>
    cases hkey : Text.isBlankName lockKey with
    | true => rw [hname, hkey] at h; cases h
    | false =>
      simp only [hname, hkey, Bool.false_eq_true, if_false] at h
      split at h
      · cases h
      · split at h
        · cases h
        · cases h
          exact ⟨rfl, rfl, _, rfl⟩

/-- Blanks name nothing, and neither does the empty text. -/
theorem ne_empty_of_isBlankName {name : String} (h : Text.isBlankName name = false) :
    name ≠ "" := by
  rintro rfl
  exact absurd h (by decide)

theorem Up.start {isAddress : String → Bool} {name lockKey : String}
    {urls addresses : List String} {options : ReplicatorOptions} {reconnect : Nat}
    {house : Gatehouse}
    (h : startWith isAddress name lockKey urls options reconnect house now = .ok s)
    (hurls : ∀ url, url ∈ urls ↔ url ∈ addresses) : s.Up lockKey addresses := by
  obtain ⟨hname, hkey, plan, rfl⟩ := start_eq_ok h
  refine ⟨rfl, ne_empty_of_isBlankName hkey, ne_empty_of_isBlankName hname, nodup_freshLinks urls,
    ?_, ?_, .start plan now, rfl, rfl, ?_, ?_, List.nodup_nil, ?_⟩
  · intro l hl
    obtain ⟨i, hi, rfl⟩ := List.mem_mapIdx.mp hl
    rfl
  · intro url
    have hmap : (freshLinks urls).map (·.url) = urls :=
      List.ext_getElem (by simp [freshLinks]) fun i _ _ => by simp [freshLinks, PeerLink.fresh]
    show url ∈ (freshLinks urls).map (·.url) ↔ _
    rw [hmap]
    exact hurls url
  · intro k w hw
    cases hw
  · intro x hx
    cases hx
  · intro i hi
    exact absurd hi List.not_mem_nil

/-! ### The line of a link -/

/-- A report of a store's own status that a server accepts. -/
structure IsReport (s : PeerStore) (r : StatusRequest) : Prop where
  lockKey : r.lockKey = s.lockKey
  instanceId : r.instanceId = s.instanceName
  validate : r.validate = .ok ()

/-- The reports of a link, of which some have arrived. -/
structure Tells (s : PeerStore) (l : PeerLink) (arrived : List StatusRequest) : Prop where
  /-- All of them are accepted. -/
  valid : ∀ r ∈ arrived ++ l.outbox, s.IsReport r
  /-- The last one says what was set last, unless another is about to follow. -/
  last : ∀ r, (arrived ++ l.outbox).getLast? = some r →
    s.awaits l.index = true ∨ r.status.Says s.registered

/-- The first report of the line has been recorded. -/
theorem Tells.tail {r : StatusRequest} {rest : List StatusRequest} (h : s.Tells l (r :: rest)) :
    s.Tells l rest where
  valid r' hr' := h.valid r' (List.mem_cons_of_mem r hr')
  last r' hr' := by
    refine h.last r' ?_
    rw [List.cons_append, List.getLast?_cons, hr']
    rfl

/-- A link that has nothing more to say. -/
def Idle (s : PeerStore) (l : PeerLink) (arrived : List StatusRequest) : Prop :=
  s.awaits l.index = false ∧ arrived ++ l.outbox = []

/-- The registration of a store is a status of its instance, too. -/
theorem Up.registered {lockKey : String} {addresses : List String} (h : s.Up lockKey addresses) :
    s.registered.instanceName = s.instanceName ∧
      LockData.validate s.registered.lockData [] = .ok () := by
  unfold PeerStore.registered
  cases hlast : s.lastStatus with
  | none => exact ⟨rfl, rfl⟩
  | some x => exact h.own x hlast

theorem contains_of_validate {data : Option String} (h : LockData.validate data [] = .ok ()) :
    LockData.contains (data.getD "") LockData.separator = false := by
  cases data with
  | none => decide
  | some text =>
    show LockData.contains text LockData.separator = false
    cases hcontains : LockData.contains text LockData.separator with
    | false => rfl
    | true => simp [LockData.validate, hcontains] at h

/-- A report of what was set last. -/
theorem Up.isReport {lockKey : String} {addresses : List String} (h : s.Up lockKey addresses)
    (lease : Option Timestamp) : s.IsReport (s.request s.registered lease) where
  lockKey := rfl
  instanceId := h.registered.1
  validate := by
    obtain ⟨hname, hdata⟩ := h.registered
    unfold StatusRequest.validate request
    simp only [hname, if_neg h.lockKey_ne, if_neg h.name_ne, contains_of_validate hdata,
      Bool.false_eq_true, if_false]

/-- It says what was set last. -/
theorem says_request (s : PeerStore) (x : ReportedStatus) (lease : Option Timestamp) :
    (s.request x lease).status.Says x := ⟨rfl, rfl⟩

/-- What an operation of a store does to a link. -/
structure LinkGoes (s s' : PeerStore) (l l' : PeerLink) : Prop where
  url : l'.url = l.url
  isListed : l'.isListed = l.isListed
  isConnected : l'.isConnected = l.isConnected
  /-- What is on the way stays there, and something may be sent after it. -/
  outbox : l.isConnected = true → ∃ sent, l'.outbox = l.outbox ++ sent
  tells : l.isConnected = true → ∀ arrived, s.Tells l arrived → s'.Tells l' arrived
  idle : l.isConnected = true → ∀ arrived, s'.Idle l' arrived →
    s.Idle l arrived ∧ s'.registered = s.registered

/-- What an operation of a store does to its links. -/
structure Goes (s s' : PeerStore) : Prop where
  instanceName : s'.instanceName = s.instanceName
  lockKey : s'.lockKey = s.lockKey
  indices : s'.links.map (·.index) = s.links.map (·.index)
  links : ∀ i l, s.link? i = some l → ∃ l', s'.link? i = some l' ∧ LinkGoes s s' l l'

theorem IsReport.congr {r : StatusRequest} (h : s.IsReport r)
    (hname : s'.instanceName = s.instanceName) (hkey : s'.lockKey = s.lockKey) : s'.IsReport r :=
  ⟨h.lockKey.trans hkey.symm, h.instanceId.trans hname.symm, h.validate⟩

section LinkGoes

variable (hname : s'.instanceName = s.instanceName) (hkey : s'.lockKey = s.lockKey)
  (hindex : l'.index = l.index) (hurl : l'.url = l.url) (hlisted : l'.isListed = l.isListed)
  (hconnected : l'.isConnected = l.isConnected)

include hname hkey hindex hurl hlisted hconnected

/-- Nothing is sent, and what is awaited stays so. -/
theorem LinkGoes.of_same (houtbox : l.isConnected = true → l'.outbox = l.outbox)
    (hregistered : s'.registered = s.registered)
    (hawaits : s.awaits l.index = true → s'.awaits l.index = true) : LinkGoes s s' l l' where
  url := hurl
  isListed := hlisted
  isConnected := hconnected
  outbox hl := ⟨[], by rw [houtbox hl, List.append_nil]⟩
  tells hl arrived h := by
    refine ⟨?_, ?_⟩
    · rw [houtbox hl]
      exact fun r hr => (h.valid r hr).congr hname hkey
    · rw [houtbox hl, hindex, hregistered]
      exact fun r hr => (h.last r hr).imp_left hawaits
  idle hl arrived h := by
    obtain ⟨hidle, hnil⟩ := h
    rw [hindex] at hidle
    rw [houtbox hl] at hnil
    refine ⟨⟨?_, hnil⟩, hregistered⟩
    cases hs : s.awaits l.index with
    | false => rfl
    | true => rw [hawaits hs] at hidle; cases hidle

/-- A write is about to be sent. -/
theorem LinkGoes.of_awaits (houtbox : l'.outbox = l.outbox)
    (hawaits : s'.awaits l.index = true) : LinkGoes s s' l l' where
  url := hurl
  isListed := hlisted
  isConnected := hconnected
  outbox _ := ⟨[], by rw [houtbox, List.append_nil]⟩
  tells _ arrived h := by
    refine ⟨?_, ?_⟩
    · rw [houtbox]
      exact fun r hr => (h.valid r hr).congr hname hkey
    · rw [hindex]
      exact fun _ _ => .inl hawaits
  idle _ arrived h := by
    obtain ⟨hidle, -⟩ := h
    rw [hindex, hawaits] at hidle
    cases hidle

omit hindex in
/-- What was set last is sent. -/
theorem LinkGoes.of_sent {r : StatusRequest} (houtbox : l'.outbox = l.outbox ++ [r])
    (hr : s.IsReport r) (hsame : r.status.Says s'.registered) : LinkGoes s s' l l' where
  url := hurl
  isListed := hlisted
  isConnected := hconnected
  outbox _ := ⟨[r], houtbox⟩
  tells _ arrived h := by
    refine ⟨?_, ?_⟩
    · rw [houtbox, ← List.append_assoc]
      intro r' hr'
      rcases List.mem_append.mp hr' with hr' | hr'
      · exact (h.valid r' hr').congr hname hkey
      · exact List.mem_singleton.mp hr' ▸ hr.congr hname hkey
    · rw [houtbox, ← List.append_assoc]
      intro r' hr'
      rw [List.getLast?_append, List.getLast?_singleton] at hr'
      cases hr'
      exact .inr hsame
  idle _ arrived h := by
    obtain ⟨-, hnil⟩ := h
    rw [houtbox] at hnil
    simp at hnil

end LinkGoes

/-! ### What an operation leaves in order -/

/-- Every link keeps its server. -/
structure Placed (s s' : PeerStore) : Prop where
  instanceName : s'.instanceName = s.instanceName
  lockKey : s'.lockKey = s.lockKey
  indices : s'.links.map (·.index) = s.links.map (·.index)
  links : ∀ i l, s.link? i = some l →
    ∃ l', s'.link? i = some l' ∧ l'.url = l.url ∧ l'.isListed = l.isListed

theorem Goes.placed (h : Goes s s') : Placed s s' where
  instanceName := h.instanceName
  lockKey := h.lockKey
  indices := h.indices
  links i l hl :=
    have ⟨l', hl', hlink⟩ := h.links i l hl
    ⟨l', hl', hlink.url, hlink.isListed⟩

/-- A link afterwards is the one that was there before. -/
theorem exists_link_of_mem (hindices : s'.links.map (·.index) = s.links.map (·.index))
    (hl' : l' ∈ s'.links) : ∃ l ∈ s.links, l.index = l'.index :=
  List.mem_map.mp (hindices ▸ List.mem_map_of_mem hl')

/-- The links take care of themselves; the replicator, what was set and the views have to be looked
at. -/
theorem Up.next {lockKey : String} {addresses : List String} (h : s.Up lockKey addresses)
    (hplaced : Placed s s') (hreplicator : s'.replicator.Sound)
    (hdown : s'.replicator.isShutDown = false) (hstopped : s'.isStopped = false)
    (hwrites : ∀ k w, (s'.replicator.entryFor? k).map (·.current) = some w →
      k = replicationKey w.index s.instanceName ∧ s'.lastStatus = some w.status ∧
        ∃ l, s.link? w.index = some l)
    (hown : ∀ x, s'.lastStatus = some x →
      x.instanceName = s.instanceName ∧ LockData.validate x.lockData [] = .ok ())
    (hviews : (s'.views.map (·.1)).Nodup)
    (hviewed : ∀ i ∈ s'.views.map (·.1), ∃ l, s.link? i = some l) : s'.Up lockKey addresses := by
  have hindices : (s'.links.map (·.index)).Nodup := hplaced.indices ▸ h.indices
  have horigin : ∀ l' ∈ s'.links, ∃ l ∈ s.links, l'.url = l.url ∧ l'.isListed = l.isListed := by
    intro l' hl'
    obtain ⟨l, hl, hindex⟩ := exists_link_of_mem hplaced.indices hl'
    have hfound := (link?_eq_some_iff h.indices).mpr ⟨hl, hindex⟩
    obtain ⟨l'', hl'', hkept⟩ := hplaced.links _ l hfound
    obtain rfl := Option.some.inj (((link?_eq_some_iff hindices).mpr ⟨hl', rfl⟩).symm.trans hl'')
    exact ⟨l, hl, hkept⟩
  have hkept : ∀ i, (∃ l, s.link? i = some l) → ∃ l', s'.link? i = some l' := fun i ⟨l, hl⟩ =>
    have ⟨l', hl', _⟩ := hplaced.links i l hl
    ⟨l', hl'⟩
  refine ⟨hplaced.lockKey.trans h.lockKey, hplaced.lockKey ▸ h.lockKey_ne,
    hplaced.instanceName ▸ h.name_ne, hindices, ?_, ?_, hreplicator, hdown, hstopped, ?_, ?_,
    hviews, fun i hi => hkept i (hviewed i hi)⟩
  · intro l' hl'
    obtain ⟨l, hl, -, hlisted⟩ := horigin l' hl'
    exact hlisted.trans (h.isListed l hl)
  · intro url
    rw [← h.urls url]
    constructor
    · intro hurl
      obtain ⟨l', hl', rfl⟩ := List.mem_map.mp hurl
      obtain ⟨l, hl, hsame, -⟩ := horigin l' hl'
      exact List.mem_map.mpr ⟨l, hl, hsame.symm⟩
    · intro hurl
      obtain ⟨l, hl, rfl⟩ := List.mem_map.mp hurl
      obtain ⟨l', hl', hsame, -⟩ :=
        hplaced.links _ l ((link?_eq_some_iff h.indices).mpr ⟨hl, rfl⟩)
      exact List.mem_map.mpr ⟨l', mem_of_link? hl', hsame⟩
  · intro k w hw
    obtain ⟨hk, hlast, hlink⟩ := hwrites k w hw
    exact ⟨hplaced.instanceName ▸ hk, hlast, hkept _ hlink⟩
  · intro x hx
    obtain ⟨hname, hok⟩ := hown x hx
    exact ⟨hname.trans hplaced.instanceName.symm, hok⟩

/-- No link is touched, and what is awaited stays so. -/
theorem Goes.of_links (hname : s'.instanceName = s.instanceName) (hkey : s'.lockKey = s.lockKey)
    (hlinks : s'.links = s.links) (hlast : s'.lastStatus = s.lastStatus)
    (hawaits : ∀ i, s.awaits i = true → s'.awaits i = true) : Goes s s' where
  instanceName := hname
  lockKey := hkey
  indices := by rw [hlinks]
  links i l hl := by
    refine ⟨l, ?_, .of_same hname hkey rfl rfl rfl rfl (fun _ => rfl) ?_ (hawaits l.index)⟩
    · rw [link?, hlinks]
      exact hl
    · rw [registered, registered, hlast, hname]

/-! ### Changing a link -/

section UpdateLink

variable {i : Nat} {f : PeerLink → PeerLink} (hindex : ∀ l, (f l).index = l.index)

include hindex

theorem link?_updateLink (s : PeerStore) (i j : Nat) : (s.updateLink i f).link? j =
    if j = i then (s.link? j).map f else s.link? j := Keyed.find?_update hindex j

theorem indices_updateLink (s : PeerStore) (i : Nat) :
    (s.updateLink i f).links.map (·.index) = s.links.map (·.index) :=
  Keyed.map_key_map fun l => Keyed.key_ite hindex l

/-- A change of a link that sends nothing. -/
theorem Goes.updateLink (hf : ∀ l, s.link? i = some l → (f l).url = l.url ∧
    (f l).isListed = l.isListed ∧ (f l).isConnected = l.isConnected ∧
      (l.isConnected = true → (f l).outbox = l.outbox)) : Goes s (s.updateLink i f) where
  instanceName := rfl
  lockKey := rfl
  indices := indices_updateLink hindex s i
  links j l hl := by
    rw [link?_updateLink hindex]
    by_cases hj : j = i
    · subst hj
      obtain ⟨hurl, hlisted, hconnected, houtbox⟩ := hf l hl
      rw [if_pos rfl, hl]
      exact ⟨f l, rfl, .of_same rfl rfl (hindex l) hurl hlisted hconnected houtbox rfl id⟩
    · rw [if_neg hj]
      exact ⟨l, hl, .of_same rfl rfl rfl rfl rfl rfl (fun _ => rfl) rfl id⟩

/-- A change of a link that keeps its server. -/
theorem Placed.updateLink (hf : ∀ l, (f l).url = l.url ∧ (f l).isListed = l.isListed) :
    Placed s (s.updateLink i f) where
  instanceName := rfl
  lockKey := rfl
  indices := indices_updateLink hindex s i
  links j l hl := by
    rw [link?_updateLink hindex, hl]
    by_cases hj : j = i
    · rw [if_pos hj]
      exact ⟨f l, rfl, hf l⟩
    · rw [if_neg hj]
      exact ⟨l, rfl, rfl, rfl⟩

theorem Up.updateLink {lockKey : String} {addresses : List String} (h : s.Up lockKey addresses)
    (hf : ∀ l, (f l).url = l.url ∧ (f l).isListed = l.isListed) :
    (s.updateLink i f).Up lockKey addresses :=
  h.next (.updateLink hindex hf) h.replicator h.isShutDown h.isStopped h.writes h.own h.views
    h.viewed

end UpdateLink

end PeerStore

end Floodgate
