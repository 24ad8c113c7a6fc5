import Floodgate.Proofs.PeerStore.Acceptance
import Floodgate.Proofs.PeerStore.Evaluations
import Floodgate.Proofs.Replication.Forget
/-!
# Floodgate.Proofs.PeerStore.Attribution

**Every write is for a link that notes its key.** A link notes the keys under which it has been
written to, and keys of different links never coincide (`replicationKey_inj`), so that a
replication key tells for which link its write is. `Attributed` says so of a store, and every
operation keeps it.

Two consequences. A link that is off the list and notes no key has no entry, and gets none: setting
a status writes to listed links only, and links do not come back to the list (`IsBare`). And to
forget the keys of one link leaves the entries and the deliveries of the others as they were
(`Spares`).

Most operations neither register nor forget a write, and are treated alike (`GoesOn`).
-/

namespace Floodgate

namespace PeerStore

open Replicator (Section OwnMarks)

variable {s s' : PeerStore} {l l' : PeerLink} {now : Int} {i j : Nat} {k : String}
  {x : ReportedStatus}

/-! ### The keys of a link -/

/-- Whether a replication key is one of the reports to a server. -/
def IsKeyOf (index : Nat) (key : String) : Prop := ∃ name, key = replicationKey index name

theorem IsKeyOf.index_eq (h : IsKeyOf i k) (h' : IsKeyOf j k) : i = j := by
  obtain ⟨name, rfl⟩ := h
  obtain ⟨name', heq⟩ := h'
  exact (replicationKey_inj.mp heq).1

/-! ### Writes and the links that they are for -/

/-- What holds of the links and the writes of a store. -/
structure Attributed (s : PeerStore) : Prop where
  /-- Each index has one link. -/
  indices : (s.links.map (·.index)).Nodup
  /-- The replicator is in order. -/
  sound : s.replicator.Sound
  ownMarks : s.replicator.OwnMarks
  /-- A link notes keys of its own. -/
  keys : ∀ i l, s.link? i = some l → ∀ k ∈ l.keys, IsKeyOf i k
  /-- A write is for a link that notes its key. -/
  writes : ∀ k w, (s.replicator.entryFor? k).map (·.current) = some w →
    ∃ l, s.link? w.index = some l ∧ k ∈ l.keys

theorem Attributed.isKeyOf (h : Attributed s) {w : PeerWrite}
    (hw : (s.replicator.entryFor? k).map (·.current) = some w) : IsKeyOf w.index k := by
  obtain ⟨l, hl, hk⟩ := h.writes k w hw
  exact h.keys w.index l hl k hk

theorem Attributed.start {isAddress : String → Bool} {name lockKey : String} {urls : List String}
    {options : ReplicatorOptions} {reconnectMillis : Nat} {house : Gatehouse}
    (hstart : startWith isAddress name lockKey urls options reconnectMillis house now = .ok s) :
    Attributed s := by
  obtain ⟨-, -, plan, rfl⟩ := start_eq_ok hstart
  refine ⟨nodup_freshLinks urls, .start plan now, .start plan now, fun i l hl k hk => ?_,
    fun _ _ hw => by cases hw⟩
  obtain ⟨n, hn, rfl⟩ := List.mem_mapIdx.mp (mem_of_link? hl)
  exact absurd hk List.not_mem_nil

/-- A link that is off the list. -/
def IsOff (s : PeerStore) (index : Nat) : Prop :=
  ∃ l, s.link? index = some l ∧ l.isListed = false

/-- A link that is off the list and notes no key. -/
def IsBare (s : PeerStore) (index : Nat) : Prop :=
  ∃ l, s.link? index = some l ∧ l.isListed = false ∧ l.keys = []

/-- Nothing is written to such a link. -/
theorem Attributed.index_ne_of_bare (h : Attributed s) (hbare : s.IsBare i) {w : PeerWrite}
    (hw : (s.replicator.entryFor? k).map (·.current) = some w) : w.index ≠ i := by
  rintro rfl
  obtain ⟨l, hl, -, hnil⟩ := hbare
  obtain ⟨l', hl', hk⟩ := h.writes k w hw
  obtain rfl := Option.some.inj (hl.symm.trans hl')
  exact absurd (hnil ▸ hk) List.not_mem_nil

theorem Attributed.not_isKeyOf_of_bare (h : Attributed s) (hbare : s.IsBare i) {w : PeerWrite}
    (hw : (s.replicator.entryFor? k).map (·.current) = some w) : ¬ IsKeyOf i k := fun hk =>
  h.index_ne_of_bare hbare hw ((h.isKeyOf hw).index_eq hk)

theorem Attributed.entryFor?_of_bare (h : Attributed s) (hbare : s.IsBare i) (hk : IsKeyOf i k) :
    s.replicator.entryFor? k = none := by
  cases he : s.replicator.entryFor? k with
  | none => rfl
  | some e => exact absurd hk (h.not_isKeyOf_of_bare hbare (congrArg (Option.map _) he))

/-! ### Going on -/

/-- A change that registers and forgets no write, and puts no server on the list. -/
structure GoesOn (s s' : PeerStore) : Prop where
  indices : s'.links.map (·.index) = s.links.map (·.index)
  links : ∀ i l, s.link? i = some l → ∃ l', s'.link? i = some l' ∧ l'.keys = l.keys ∧
    (l.isListed = false → l'.isListed = false)
  sound : s'.replicator.Sound
  ownMarks : s'.replicator.OwnMarks
  current : ∀ k, (s'.replicator.entryFor? k).map (·.current) =
    (s.replicator.entryFor? k).map (·.current)

theorem GoesOn.refl (h : Attributed s) : GoesOn s s :=
  ⟨rfl, fun _ l hl => ⟨l, hl, rfl, id⟩, h.sound, h.ownMarks, fun _ => rfl⟩

/-- Links and replicator are all that matters. -/
theorem GoesOn.of_parts (h : Attributed s) (hlinks : s'.links = s.links)
    (hreplicator : s'.replicator = s.replicator) : GoesOn s s' := by
  have hlink : ∀ i, s'.link? i = s.link? i := fun i => by rw [link?, hlinks, link?]
  refine ⟨by rw [hlinks], fun i l hl => ⟨l, (hlink i).trans hl, rfl, id⟩, ?_, ?_, ?_⟩
  · exact hreplicator ▸ h.sound
  · exact hreplicator ▸ h.ownMarks
  · exact fun k => by rw [hreplicator]

theorem GoesOn.updateLink (h : Attributed s) (i : Nat) {f : PeerLink → PeerLink}
    (hindex : ∀ l, (f l).index = l.index) (hkeys : ∀ l, (f l).keys = l.keys)
    (hlisted : ∀ l, l.isListed = false → (f l).isListed = false) :
    GoesOn s (s.updateLink i f) := by
  refine { GoesOn.refl h with indices := indices_updateLink hindex s i, links := fun j l hl => ?_ }
  rw [link?_updateLink hindex, hl]
  by_cases hj : j = i
  · rw [if_pos hj]
    exact ⟨f l, rfl, hkeys l, hlisted l⟩
  · rw [if_neg hj]
    exact ⟨l, rfl, rfl, id⟩

/-- Another link is put in the place of one. -/
theorem GoesOn.putLink (h : Attributed s) (hl : s.link? i = some l) (hindex : l'.index = l.index)
    (hkeys : l'.keys = l.keys) (hlisted : l'.isListed = l.isListed) :
    GoesOn s (s.updateLink i fun _ => l') := by
  -- as seen from the link that it replaces, only stage, history and outbox change
  have hput : s.updateLink i (fun _ => l') = s.updateLink i fun m =>
      { m with
        url := l'.url, stage := l'.stage, hasRegistered := l'.hasRegistered
        outbox := l'.outbox } :=
    updateLink_const h.indices hl (by cases l'; cases hindex; cases hkeys; cases hlisted; rfl)
  rw [hput]
  exact .updateLink h i (fun _ => rfl) (fun _ => rfl) fun _ => id

theorem GoesOn.section (h : Attributed s) {r : Replicator PeerWrite}
    {event : Replicator.Event PeerWrite} {calls : List (Call PeerWrite)}
    (hs : Section s.replicator now event r calls)
    (hlatest : ∀ k before, event.latest k before = before) :
    GoesOn s { s with replicator := r } :=
  { GoesOn.refl h with
    sound := h.sound.section hs
    ownMarks := h.ownMarks.section h.sound hs
    current := fun k => (Replicator.current_of_section hs k).trans (hlatest k _) }

theorem GoesOn.trans {s'' : PeerStore} (h : GoesOn s s') (h' : GoesOn s' s'') : GoesOn s s'' where
  indices := h'.indices.trans h.indices
  links i l hl := by
    obtain ⟨l', hl', hkeys, hlisted⟩ := h.links i l hl
    obtain ⟨l'', hl'', hkeys', hlisted'⟩ := h'.links i l' hl'
    exact ⟨l'', hl'', hkeys'.trans hkeys, fun hoff => hlisted' (hlisted hoff)⟩
  sound := h'.sound
  ownMarks := h'.ownMarks
  current k := (h'.current k).trans (h.current k)

theorem Attributed.goesOn (h : Attributed s) (hs : GoesOn s s') : Attributed s' where
  indices := hs.indices ▸ h.indices
  sound := hs.sound
  ownMarks := hs.ownMarks
  keys i l' hl' k hk := by
    obtain ⟨l, hl, hindex⟩ := exists_link_of_mem hs.indices (mem_of_link? hl')
    have hfound : s.link? i = some l :=
      (link?_eq_some_iff h.indices).mpr ⟨hl, hindex.trans (index_of_link? hl')⟩
    obtain ⟨l'', hl'', hkeys, -⟩ := hs.links i l hfound
    obtain rfl := Option.some.inj (hl'.symm.trans hl'')
    exact h.keys i l hfound k (hkeys ▸ hk)
  writes k w hw := by
    obtain ⟨l, hl, hk⟩ := h.writes k w ((hs.current k).symm.trans hw)
    obtain ⟨l', hl', hkeys, -⟩ := hs.links w.index l hl
    exact ⟨l', hl', hkeys ▸ hk⟩

theorem IsOff.goesOn (h : s.IsOff i) (hs : GoesOn s s') : s'.IsOff i := by
  obtain ⟨l, hl, hlisted⟩ := h
  obtain ⟨l', hl', -, hoff⟩ := hs.links i l hl
  exact ⟨l', hl', hoff hlisted⟩

theorem IsBare.goesOn (h : s.IsBare i) (hs : GoesOn s s') : s'.IsBare i := by
  obtain ⟨l, hl, hlisted, hnil⟩ := h
  obtain ⟨l', hl', hkeys, hoff⟩ := hs.links i l hl
  exact ⟨l', hl', hoff hlisted, hkeys.trans hnil⟩

theorem GoesOn.send (h : Attributed s) (w : PeerWrite) (lease : Timestamp) :
    GoesOn s (s.send w lease).2 := by
  rcases s.send_cases w lease with heq | ⟨l, hl, heq⟩
  · rw [heq]
    exact .refl h
  · rw [heq]
    exact .putLink h hl rfl rfl rfl

/-- Sends the reports of some calls. -/
def sendAll (s : PeerStore) (calls : List (Call PeerWrite)) : PeerStore :=
  calls.foldl (fun s c => (s.send c.action c.lease).2) s

theorem GoesOn.sendAll (h : Attributed s) (hs : GoesOn s s') (calls : List (Call PeerWrite)) :
    GoesOn s (s'.sendAll calls) := by
  induction calls generalizing s' with
  | nil => exact hs
  | cons c rest ih => exact ih (hs.trans (.send (h.goesOn hs) c.action c.lease))

theorem views_sendAll (s : PeerStore) (calls : List (Call PeerWrite)) :
    (s.sendAll calls).views = s.views := by
  induction calls generalizing s with
  | nil => rfl
  | cons c rest ih =>
    refine (ih (s.send c.action c.lease).2).trans ?_
    rcases s.send_cases c.action c.lease with heq | ⟨l, -, heq⟩
    · rw [heq]
    · rw [heq]
      rfl

/-! ### Setting a status -/

theorem keys_withKey (key : String) (l : PeerLink) :
    k ∈ (withKey key l).keys ↔ k ∈ l.keys ∨ k = key := by
  show k ∈ (if key ∈ l.keys then l.keys else l.keys ++ [key]) ↔ _
  split
  · next hmem => exact ⟨.inl, fun h => h.elim id fun heq => heq ▸ hmem⟩
  · rw [List.mem_append, List.mem_singleton]

/-- A write is registered for a link that there is. -/
theorem Attributed.report (h : Attributed s) (hl : s.link? l.index = some l') :
    Attributed (s.report x l) where
  indices := (indices_updateLink (f := withKey (replicationKey l.index x.instanceName))
    (fun _ => rfl) s l.index).symm ▸ h.indices
  sound := h.sound.register _ _
  ownMarks := h.ownMarks.register h.sound _ _
  keys i l₁ hl₁ k hk := by
    rw [link?_report] at hl₁
    split at hl₁
    · next hi =>
      obtain ⟨l₀, hl₀, rfl⟩ := Option.map_eq_some_iff.mp hl₁
      rcases (keys_withKey _ l₀).mp hk with hk | hk
      · exact h.keys i l₀ hl₀ k hk
      · exact ⟨x.instanceName, hi ▸ hk⟩
    · exact h.keys i l₁ hl₁ k hk
  writes k w hw := by
    have hentry := s.replicator.entryFor?_register (replicationKey l.index x.instanceName)
      ⟨l.index, x⟩ k
    change (s.report x l).replicator.entryFor? k = _ at hentry
    rw [hentry] at hw
    rw [link?_report]
    split at hw
    · next hk =>
      obtain rfl : (⟨l.index, x⟩ : PeerWrite) = w := Option.some.inj hw
      refine ⟨withKey (replicationKey l.index x.instanceName) l', ?_, ?_⟩
      · rw [if_pos rfl, hl, Option.map_some]
      · exact (keys_withKey _ l').mpr (.inr hk)
    · obtain ⟨l₀, hl₀, hk⟩ := h.writes k w hw
      split
      · exact ⟨_, congrArg _ hl₀, (keys_withKey _ l₀).mpr (.inl hk)⟩
      · exact ⟨l₀, hl₀, hk⟩

theorem Attributed.reportAll (h : Attributed s) (links : List PeerLink)
    (hlinks : ∀ l ∈ links, ∃ l', s.link? l.index = some l') :
    Attributed (links.foldl (PeerStore.report · x) s) := by
  induction links generalizing s with
  | nil => exact h
  | cons l rest ih =>
    obtain ⟨l', hl'⟩ := hlinks l List.mem_cons_self
    refine ih (h.report hl') fun m hm => ?_
    obtain ⟨m', hm'⟩ := hlinks m (List.mem_cons_of_mem _ hm)
    rw [link?_report, hm']
    split
    · exact ⟨_, rfl⟩
    · exact ⟨_, rfl⟩

theorem link?_reportAll (links : List PeerLink) (hlinks : ∀ l ∈ links, l.index ≠ i) :
    (links.foldl (PeerStore.report · x) s).link? i = s.link? i := by
  induction links generalizing s with
  | nil => rfl
  | cons l rest ih =>
    rw [List.foldl_cons, ih fun m hm => hlinks m (List.mem_cons_of_mem _ hm), link?_report,
      if_neg (Ne.symm (hlinks l List.mem_cons_self))]

/-- A status that is set is written to listed links only. -/
theorem setStatus_cases (s : PeerStore) (x : ReportedStatus) : (s.setStatus x).2 = s ∨
    (s.setStatus x).2 = s.listed.foldl (report · x) { s with lastStatus := some x } := by
  cases h : s.setStatus x with
  | mk result s' =>
    cases result with
    | error e => exact .inl (setStatus_eq_error h)
    | ok _ => exact .inr (setStatus_eq_ok h).2

theorem link?_of_listed (h : Attributed s) (hl : l ∈ s.listed) : s.link? l.index = some l :=
  (link?_eq_some_iff h.indices).mpr ⟨(List.mem_filter.mp hl).1, rfl⟩

theorem Attributed.setStatus (h : Attributed s) (x : ReportedStatus) :
    Attributed (s.setStatus x).2 := by
  have hnoted : Attributed { s with lastStatus := some x } := h.goesOn (.of_parts h rfl rfl)
  rcases s.setStatus_cases x with heq | heq
  · rw [heq]
    exact h
  · rw [heq]
    exact hnoted.reportAll s.listed fun l hl =>
      ⟨l, show s.link? l.index = some l from link?_of_listed h hl⟩

/-- A link that is off the list is not touched. -/
theorem link?_setStatus (h : Attributed s) (hl : s.link? i = some l) (hoff : l.isListed = false)
    (x : ReportedStatus) : (s.setStatus x).2.link? i = some l := by
  rcases s.setStatus_cases x with heq | heq
  · rw [heq, hl]
  · rw [heq, link?_reportAll s.listed]
    · exact hl
    · rintro m hm rfl
      obtain rfl := Option.some.inj (hl.symm.trans (link?_of_listed h hm))
      exact absurd (List.mem_filter.mp hm).2 (by simp [hoff])

theorem IsOff.setStatus (hoff : s.IsOff i) (h : Attributed s) (x : ReportedStatus) :
    (s.setStatus x).2.IsOff i := by
  obtain ⟨l, hl, hlisted⟩ := hoff
  exact ⟨l, link?_setStatus h hl hlisted x, hlisted⟩

theorem IsBare.setStatus (hbare : s.IsBare i) (h : Attributed s) (x : ReportedStatus) :
    (s.setStatus x).2.IsBare i := by
  obtain ⟨l, hl, hlisted, hnil⟩ := hbare
  exact ⟨l, link?_setStatus h hl hlisted x, hlisted, hnil⟩

theorem views_setStatus (s : PeerStore) (x : ReportedStatus) :
    (s.setStatus x).2.views = s.views := by
  have hfold : ∀ (links : List PeerLink) (s₁ : PeerStore),
      (links.foldl (report · x) s₁).views = s₁.views := by
    intro links
    induction links with
    | nil => exact fun _ => rfl
    | cons l rest ih => exact fun s₁ => ih (s₁.report x l)
  rcases s.setStatus_cases x with heq | heq
  · rw [heq]
  · rw [heq, hfold]

/-! ### Forgetting a server -/

/-- A change that concerns one server only. -/
structure Spares (index : Nat) (s s' : PeerStore) : Prop where
  views : ∀ j ≠ index, s'.views.lookup j = s.views.lookup j
  links : ∀ j ≠ index, s'.link? j = s.link? j
  entries : ∀ k, ¬ IsKeyOf index k → s'.replicator.entryFor? k = s.replicator.entryFor? k
  deliveries : ∀ k, ¬ IsKeyOf index k → s'.replicator.deliveriesOf k = s.replicator.deliveriesOf k
  /-- Everything else of the replicator. -/
  rest : ∃ entries deliveries, s'.replicator = { s.replicator with entries, deliveries }

theorem Spares.updateLink (s : PeerStore) (i : Nat) {f : PeerLink → PeerLink}
    (hindex : ∀ l, (f l).index = l.index) : Spares i s (s.updateLink i f) where
  views _ _ := rfl
  links j hj := by rw [link?_updateLink hindex, if_neg hj]
  entries _ _ := rfl
  deliveries _ _ := rfl
  rest := ⟨_, _, rfl⟩

theorem Spares.trans {s'' : PeerStore} (h : Spares i s s') (h' : Spares i s' s'') :
    Spares i s s'' where
  views j hj := (h'.views j hj).trans (h.views j hj)
  links j hj := (h'.links j hj).trans (h.links j hj)
  entries k hk := (h'.entries k hk).trans (h.entries k hk)
  deliveries k hk := (h'.deliveries k hk).trans (h.deliveries k hk)
  rest := by
    obtain ⟨entries, deliveries, heq⟩ := h.rest
    obtain ⟨entries', deliveries', heq'⟩ := h'.rest
    exact ⟨entries', deliveries', by rw [heq', heq]⟩

/-- What forgetting a server makes of its link, if there is one. -/
theorem link?_forgetPeer (s : PeerStore) (now : Int) (i j : Nat) : (s.forgetPeer now i).link? j =
    if j = i then (s.link? j).map fun l => { l with keys := [] } else s.link? j :=
  link?_updateLink (f := fun l => { l with keys := [] }) (fun _ => rfl) s i j

theorem IsOff.forgetPeer (h : s.IsOff j) (now : Int) (i : Nat) : (s.forgetPeer now i).IsOff j := by
  obtain ⟨l, hl, hlisted⟩ := h
  rw [IsOff, link?_forgetPeer, hl]
  split
  · exact ⟨_, rfl, hlisted⟩
  · exact ⟨l, rfl, hlisted⟩

theorem IsBare.forgetPeer (h : s.IsBare j) (now : Int) (i : Nat) :
    (s.forgetPeer now i).IsBare j := by
  obtain ⟨l, hl, hlisted, hnil⟩ := h
  rw [IsBare, link?_forgetPeer, hl]
  split
  · exact ⟨_, rfl, hlisted, rfl⟩
  · exact ⟨l, rfl, hlisted, hnil⟩

/-- A link that is off the list notes no key once it has been forgotten. -/
theorem IsOff.isBare_forgetPeer (h : s.IsOff i) (now : Int) : (s.forgetPeer now i).IsBare i := by
  obtain ⟨l, hl, hlisted⟩ := h
  rw [IsBare, link?_forgetPeer, if_pos rfl, hl]
  exact ⟨_, rfl, hlisted, rfl⟩

theorem replicator_forgetPeer (hl : s.link? i = some l) (now : Int) :
    (s.forgetPeer now i).replicator = l.keys.foldl Replicator.forget s.replicator := by
  simp only [PeerStore.forgetPeer, hl]
  rfl

theorem Attributed.forgetPeer (h : Attributed s) (hl : s.link? i = some l) (now : Int) :
    Attributed (s.forgetPeer now i) where
  indices := (indices_updateLink (f := fun l => { l with keys := [] }) (fun _ => rfl) s i).symm ▸
    h.indices
  sound := replicator_forgetPeer hl now ▸ h.sound.forgetAll l.keys
  ownMarks := replicator_forgetPeer hl now ▸ h.ownMarks.forgetAll h.sound l.keys
  keys j l' hl' k hk := by
    rw [link?_forgetPeer] at hl'
    split at hl'
    · obtain ⟨l₀, -, rfl⟩ := Option.map_eq_some_iff.mp hl'
      exact absurd hk List.not_mem_nil
    · exact h.keys j l' hl' k hk
  writes k w hw := by
    rw [replicator_forgetPeer hl, Replicator.entryFor?_forgetAll] at hw
    split at hw
    · cases hw
    · next hkept =>
      obtain ⟨l₀, hl₀, hk⟩ := h.writes k w hw
      have hother : w.index ≠ i := by
        rintro heq
        obtain rfl := Option.some.inj (hl.symm.trans (heq ▸ hl₀))
        exact hkept hk
      rw [link?_forgetPeer, if_neg hother]
      exact ⟨l₀, hl₀, hk⟩

theorem views_forgetPeer (s : PeerStore) (now : Int) (i : Nat) :
    (s.forgetPeer now i).views = Assoc.erase i s.views := rfl

theorem Spares.forgetPeer (h : Attributed s) (hl : s.link? i = some l) (now : Int) :
    Spares i s (s.forgetPeer now i) where
  views j hj := by rw [views_forgetPeer, Assoc.lookup_erase, if_neg hj]
  links j hj := by rw [link?_forgetPeer, if_neg hj]
  entries k hk := by
    rw [replicator_forgetPeer hl, Replicator.entryFor?_forgetAll,
      if_neg fun hmem => hk (h.keys i l hl k hmem)]
  deliveries k hk := by
    rw [replicator_forgetPeer hl]
    exact h.ownMarks.deliveriesOf_forgetAll h.sound fun hmem => hk (h.keys i l hl k hmem)
  rest := replicator_forgetPeer hl now ▸ s.replicator.forgetAll_eq l.keys

theorem settledAt_forgetPeer (s : PeerStore) (now : Int) (i : Nat) :
    (s.forgetPeer now i).SettledAt now where
  isBlocked := Gatehouse.isBlocked_drive _ _
  nextExpiry := rfl

/-! ### Taking a server off the list -/

/-- A link that is closed and taken off the list. -/
def offList (l : PeerLink) : PeerLink := { l.close with isListed := false }

theorem unlist_eq_some {url : String} (h : s.unlist url = some (s', i)) :
    ∃ l, s.listed.find? (·.url == url) = some l ∧ l.index = i ∧
      s' = s.updateLink i offList := by
  obtain ⟨l, hl, heq⟩ := Option.map_eq_some_iff.mp h
  obtain ⟨rfl, rfl⟩ := Prod.mk.inj heq
  exact ⟨l, hl, rfl, rfl⟩

end PeerStore

end Floodgate
