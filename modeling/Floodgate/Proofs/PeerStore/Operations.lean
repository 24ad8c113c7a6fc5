import Floodgate.Proofs.Assoc
import Floodgate.Proofs.PeerStore.Judged
/-!
# Floodgate.Proofs.PeerStore.Operations

**No operation of a store loses what was set last.** Setting a status registers a write for every
link (`Registered`), so that all of them await one. A section of the replicator calls one write at
most; the call sends what was set last, or fails and stays pending (`Tends.carryOut`). The other
operations neither send nor settle anything.
-/

namespace Floodgate

namespace Replicator

variable {α : Type} {r r' r'' : Replicator α} {now : Int} {event : Event α} {calls : List (Call α)}
  {p : String → Prop}

/-- A replicator that has gone on, with no write registered and none of the keys `p` settled. -/
structure Continues (r r' : Replicator α) (p : String → Prop) : Prop where
  sound : r'.Sound
  isShutDown : r'.isShutDown = r.isShutDown
  current : ∀ k, (r'.entryFor? k).map (·.current) = (r.entryFor? k).map (·.current)
  pending : ∀ k, p k → r.isPending k = true → r'.isPending k = true

theorem Continues.refl (h : Sound r) : Continues r r p := ⟨h, rfl, fun _ => rfl, fun _ _ => id⟩

theorem Continues.trans {q : String → Prop} (h : Continues r r' q) (h' : Continues r' r'' p)
    (hq : ∀ k, p k → q k) : Continues r r'' p where
  sound := h'.sound
  isShutDown := h'.isShutDown.trans h.isShutDown
  current k := (h'.current k).trans (h.current k)
  pending k hk hp := h'.pending k hk (h.pending k (hq k hk) hp)

theorem Continues.mono {q : String → Prop} (h : Continues r r' q) (hq : ∀ k, p k → q k) :
    Continues r r' p :=
  ⟨h.sound, h.isShutDown, h.current, fun k hk => h.pending k (hq k hk)⟩

theorem Continues.own (h : Sound r) (hs : Section r now event r' calls)
    (hown : event.isOwn = true) : Continues r r' p where
  sound := h.section hs
  isShutDown := (frame_of_section hs).2.2 fun hdown => by rw [hdown] at hown; cases hown
  current k := by
    rw [current_of_section hs k]
    cases event with
    | register => cases hown
    | forget => cases hown
    | _ => rfl
  pending _ _ := isPending_of_own hs hown

theorem Continues.callEnded (h : Sound r) {caller : Caller} {ok : Bool}
    (hs : Section r now (.callEnded caller ok) r' calls) {key : String}
    (hcaller : caller ∈ r.callersOf key) : Continues r r' fun k => ok = true → k ≠ key where
  sound := h.section hs
  isShutDown := (frame_of_section hs).2.2 fun hdown => by cases hdown
  current := current_of_section hs
  pending _ hk := isPending_of_callEnded h hs hcaller hk

end Replicator

namespace PeerStore

open Replicator (Section section_of_step Continues)

variable {s s' : PeerStore} {l l' : PeerLink} {now : Int} {lockKey : String}
  {addresses : List String}

/-! ### Setting a status -/

/-- What registering a status for some links does. -/
structure Registered (x : ReportedStatus) (links : List PeerLink) (s s' : PeerStore) : Prop where
  frame : s' = { s with links := s'.links, replicator := s'.replicator }
  indices : s'.links.map (·.index) = s.links.map (·.index)
  link : ∀ i l, s.link? i = some l → ∃ keys, s'.link? i = some { l with keys }
  sound : s'.replicator.Sound
  isShutDown : s'.replicator.isShutDown = s.replicator.isShutDown
  /-- The keys of the links have new writes, and the others are as they were. -/
  entries : ∀ k, (∃ l ∈ links, k = replicationKey l.index x.instanceName ∧
      (s'.replicator.entryFor? k).map (·.current) = some ⟨l.index, x⟩ ∧
        s'.replicator.isPending k = true) ∨
    (∀ l ∈ links, k ≠ replicationKey l.index x.instanceName) ∧
      s'.replicator.entryFor? k = s.replicator.entryFor? k

/-- A link that has been written to under a key. -/
def withKey (key : String) (l : PeerLink) : PeerLink :=
  { l with keys := if key ∈ l.keys then l.keys else l.keys ++ [key] }

theorem link?_report (s : PeerStore) (x : ReportedStatus) (l : PeerLink) (i : Nat) :
    (s.report x l).link? i = if i = l.index
      then (s.link? i).map (withKey (replicationKey l.index x.instanceName)) else s.link? i :=
  link?_updateLink (f := withKey (replicationKey l.index x.instanceName)) (fun _ => rfl) s
    l.index i

theorem Registered.report (h : s.replicator.Sound) (x : ReportedStatus) (l : PeerLink) :
    Registered x [l] s (s.report x l) where
  frame := rfl
  indices := indices_updateLink (f := withKey (replicationKey l.index x.instanceName))
    (fun _ => rfl) s l.index
  link i l₀ hl₀ := by
    rw [link?_report, hl₀]
    split
    · exact ⟨_, rfl⟩
    · exact ⟨l₀.keys, rfl⟩
  sound := h.register _ _
  isShutDown := by
    obtain ⟨-, -, -, -, -, -, hdown, -⟩ :=
      s.replicator.register_frame (replicationKey l.index x.instanceName) ⟨l.index, x⟩
    exact hdown
  entries k := by
    have hentry := s.replicator.entryFor?_register (replicationKey l.index x.instanceName)
      ⟨l.index, x⟩ k
    change (s.report x l).replicator.entryFor? k = _ at hentry
    by_cases hk : k = replicationKey l.index x.instanceName
    · rw [if_pos hk] at hentry
      refine .inl ⟨l, List.mem_singleton_self l, hk, ?_, ?_⟩
      · rw [hentry]
        rfl
      · rw [Replicator.isPending, hentry]
        rfl
    · rw [if_neg hk] at hentry
      exact .inr ⟨fun l' hl' => List.mem_singleton.mp hl' ▸ hk, hentry⟩

theorem Registered.foldl (h : s.replicator.Sound) (x : ReportedStatus) (links : List PeerLink) :
    Registered x links s (links.foldl (PeerStore.report · x) s) := by
  induction links generalizing s with
  | nil =>
    refine ⟨rfl, rfl, fun i l hl => ⟨l.keys, hl⟩, h, rfl, fun k => .inr ⟨?_, rfl⟩⟩
    exact fun l hl => absurd hl List.not_mem_nil
  | cons l rest ih =>
    have hfirst := Registered.report h x l
    have hrest := ih hfirst.sound
    rw [List.foldl_cons]
    refine ⟨?_, hrest.indices.trans hfirst.indices, ?_, hrest.sound,
      hrest.isShutDown.trans hfirst.isShutDown, ?_⟩
    · rw [hrest.frame]
      rfl
    · intro i l₀ hl₀
      obtain ⟨keys, hkeys⟩ := hfirst.link i l₀ hl₀
      obtain ⟨keys', hkeys'⟩ := hrest.link i _ hkeys
      exact ⟨keys', hkeys'⟩
    · intro k
      rcases hrest.entries k with ⟨l', hl', hk⟩ | ⟨hother, heq⟩
      · exact .inl ⟨l', List.mem_cons_of_mem _ hl', hk⟩
      · rcases hfirst.entries k with ⟨l', hl', hk, hcurrent, hpending⟩ | ⟨hother', heq'⟩
        · refine .inl ⟨l', List.mem_cons.mpr (.inl (List.mem_singleton.mp hl')), hk, ?_, ?_⟩
          · rw [heq, hcurrent]
          · rw [Replicator.isPending, heq]
            exact hpending
        · refine .inr ⟨?_, heq.trans heq'⟩
          intro l' hl'
          rcases List.mem_cons.mp hl' with rfl | hl'
          · exact hother' l' (List.mem_singleton_self l')
          · exact hother l' hl'

theorem setStatus_eq_ok {x : ReportedStatus} (h : s.setStatus x = (.ok (), s')) :
    LockData.validate x.lockData [] = .ok () ∧
      s' = s.listed.foldl (report · x) { s with lastStatus := some x } := by
  unfold setStatus at h
  split at h
  · cases h
  · split at h
    · cases h
    · cases h
      exact ⟨‹_›, rfl⟩

theorem setStatus_eq_error {x : ReportedStatus} {e : StoreError}
    (h : s.setStatus x = (.error e, s')) : s' = s := by
  unfold setStatus at h
  split at h
  · exact (Prod.mk.inj h).2.symm
  · split at h
    · exact (Prod.mk.inj h).2.symm
    · cases h

/-- A store whose own status has been set: every link awaits a write of it. -/
theorem Up.setStatus (h : s.Up lockKey addresses) {x : ReportedStatus}
    (hx : x.instanceName = s.instanceName) (hset : s.setStatus x = (.ok (), s')) :
    s'.Up lockKey addresses ∧ Goes s s' ∧ s'.lastStatus = some x ∧ s'.views = s.views ∧
      (s.Judged now → s'.Judged now) := by
  obtain ⟨hok, heq⟩ := setStatus_eq_ok hset
  have hr := Registered.foldl (s := { s with lastStatus := some x }) h.replicator x s.listed
  rw [← heq] at hr
  have hname : s'.instanceName = s.instanceName := by rw [hr.frame]
  have hkey : s'.lockKey = s.lockKey := by rw [hr.frame]
  have hlast : s'.lastStatus = some x := by rw [hr.frame]
  have hviews : s'.views = s.views := by rw [hr.frame]
  have hstopped : s'.isStopped = s.isStopped := by rw [hr.frame]
  have hlisted : ∀ l ∈ s.links, l ∈ s.listed := fun l hl =>
    List.mem_filter.mpr ⟨hl, h.isListed l hl⟩
  have hawaits : ∀ l ∈ s.links, s'.awaits l.index = true := by
    intro l hl
    unfold awaits
    rw [hname, ← hx]
    rcases hr.entries (replicationKey l.index x.instanceName) with ⟨_, -, -, -, hp⟩ | ⟨hother, -⟩
    · exact hp
    · exact absurd rfl (hother l (hlisted l hl))
  have hgoes : Goes s s' := by
    refine ⟨hname, hkey, hr.indices, ?_⟩
    intro i l hl
    obtain ⟨keys, hkeys⟩ := hr.link i l hl
    exact ⟨_, hkeys, .of_awaits hname hkey rfl rfl rfl rfl rfl (hawaits l (mem_of_link? hl))⟩
  refine ⟨h.next hgoes.placed hr.sound (hr.isShutDown.trans h.isShutDown)
    (hstopped.trans h.isStopped) ?_ ?_ (hviews ▸ h.views) (hviews ▸ h.viewed),
    hgoes, hlast, hviews, ?_⟩
  · intro k w hw
    rcases hr.entries k with ⟨l, hl, hk, hcurrent, -⟩ | ⟨hother, hsame⟩
    · obtain rfl := Option.some.inj (hw.symm.trans hcurrent)
      have hlink := (link?_eq_some_iff h.indices).mpr ⟨(List.mem_filter.mp hl).1, rfl⟩
      exact ⟨hx ▸ hk, hlast, l, hlink⟩
    · -- an old write is for a link, and has been replaced
      rw [hsame] at hw
      obtain ⟨hk, -, l, hl⟩ := h.writes k w hw
      refine absurd ?_ (hother l (hlisted l (mem_of_link? hl)))
      rw [hk, hx, index_of_link? hl]
  · intro y hy
    rw [hlast] at hy
    cases hy
    exact ⟨hx, hok⟩
  · exact fun hjudged => hjudged.congr hviews (by rw [hr.frame]) (by rw [hr.frame])

/-! ### Tending to the links -/

/-- An operation that concerns the links and the replicator only. -/
structure Tends (s s' : PeerStore) : Prop where
  goes : Goes s s'
  frame : s' = { s with links := s'.links, replicator := s'.replicator }

theorem Up.tends (h : s.Up lockKey addresses) (ht : Tends s s') {p : String → Prop}
    (hr : Continues s.replicator s'.replicator p) : s'.Up lockKey addresses := by
  have hlast : s'.lastStatus = s.lastStatus := by rw [ht.frame]
  have hviews : s'.views = s.views := by rw [ht.frame]
  have hstopped : s'.isStopped = s.isStopped := by rw [ht.frame]
  refine h.next ht.goes.placed hr.sound (hr.isShutDown.trans h.isShutDown)
    (hstopped.trans h.isStopped) ?_ (hlast ▸ h.own) (hviews ▸ h.views) (hviews ▸ h.viewed)
  intro k w hw
  rw [hr.current] at hw
  rw [hlast]
  exact h.writes k w hw

/-- The link of an index is one, so that putting another in its place changes it. -/
theorem updateLink_const (hindices : (s.links.map (·.index)).Nodup) {i : Nat}
    (hl : s.link? i = some l) {f : PeerLink → PeerLink} (hf : f l = l') :
    s.updateLink i (fun _ => l') = s.updateLink i f := by
  unfold updateLink
  congr 1
  refine List.map_congr_left fun l₀ hl₀ => ?_
  by_cases hi : l₀.index = i
  · obtain rfl := Option.some.inj (((link?_eq_some_iff hindices).mpr ⟨hl₀, hi⟩).symm.trans hl)
    rw [if_pos hi, if_pos hi, hf]
  · rw [if_neg hi, if_neg hi]

/-- A link with another report on the way. -/
def withReport (r : StatusRequest) (l : PeerLink) : PeerLink := { l with outbox := l.outbox ++ [r] }

/-- What was set last is sent on a link, which settles at most the write for the link. -/
theorem Tends.of_sent {r : Replicator PeerWrite} (h : s.Up lockKey addresses) {i : Nat}
    (lease : Option Timestamp) (hr : Continues s.replicator r fun k =>
      k ≠ replicationKey i s.instanceName) :
    Tends s ({ s with replicator := r }.updateLink i
      (withReport (s.request s.registered lease))) where
  frame := rfl
  goes := by
    have hindex : ∀ l, (withReport (s.request s.registered lease) l).index = l.index := fun _ => rfl
    refine ⟨rfl, rfl, indices_updateLink hindex { s with replicator := r } i, ?_⟩
    intro j l hl
    rw [link?_updateLink hindex]
    by_cases hj : j = i
    · refine ⟨withReport (s.request s.registered lease) l, ?_, ?_⟩
      · rw [if_pos hj]
        exact congrArg (Option.map _) hl
      · exact .of_sent rfl rfl rfl rfl rfl rfl (h.isReport lease) (says_request s _ lease)
    · refine ⟨l, ?_, .of_same rfl rfl rfl rfl rfl rfl (fun _ => rfl) rfl ?_⟩
      · rw [if_neg hj]
        exact hl
      · refine hr.pending _ fun hkey => hj ?_
        rw [← index_of_link? hl]
        exact (replicationKey_inj.mp hkey).1

/-- Nothing is sent, and nothing is settled. -/
theorem Tends.of_continues {r : Replicator PeerWrite} {p : String → Prop}
    (hr : Continues s.replicator r p) (hp : ∀ i, p (replicationKey i s.instanceName)) :
    Tends s { s with replicator := r } where
  frame := rfl
  goes := .of_links rfl rfl rfl rfl fun i => hr.pending _ (hp i)

/-! ### Calls -/

/-- A replicator after the end of a call. -/
def afterCall (r : Replicator PeerWrite) (now : Int) (caller : Caller) (ok : Bool) :
    Replicator PeerWrite :=
  match r.step now (.callEnded caller ok) with
  | some (r', _) => r'
  | none => r

theorem carryOut_eq {s₁ : PeerStore} {c : Call PeerWrite} {result : Except StoreError Unit}
    (hsend : s.send c.action c.lease = (result, s₁)) : carryOut now s c =
      { s₁ with replicator := afterCall s₁.replicator now c.caller result.isOk } := by
  unfold carryOut afterCall
  rw [hsend]
  cases hstep : s₁.replicator.step now (.callEnded c.caller result.isOk) with
  | some next => simp only [hstep]
  | none => simp only [hstep]

theorem continues_afterCall (now : Int) {r₀ r : Replicator PeerWrite} (hr : ∀ p, Continues r₀ r p)
    {c : Call PeerWrite} (hcaller : c.caller ∈ r.callersOf c.key) (ok : Bool) :
    Continues r₀ (afterCall r now c.caller ok) fun k => ok = true → k ≠ c.key := by
  unfold afterCall
  split
  · rename_i hstep
    have hended := Continues.callEnded (hr fun _ => True).sound (section_of_step hstep) hcaller
    exact (hr _).trans hended fun _ => id
  · exact hr _

/-- A call sends what was set last, or it fails and leaves the write pending. -/
theorem Tends.carryOut (h : s.Up lockKey addresses) {r : Replicator PeerWrite}
    (hr : ∀ p, Continues s.replicator r p) {c : Call PeerWrite}
    (hcurrent : (s.replicator.entryFor? c.key).map (·.current) = some c.action)
    (hcaller : c.caller ∈ r.callersOf c.key)
    (hs' : s' = PeerStore.carryOut now { s with replicator := r } c) :
    Tends s s' ∧ ∃ p, Continues s.replicator s'.replicator p := by
  obtain ⟨hkey, hlast, l, hl⟩ := h.writes c.key c.action hcurrent
  have hregistered : s.registered = c.action.status := by rw [registered, hlast]; rfl
  have hfound : ({ s with replicator := r } : PeerStore).link? c.action.index = some l := hl
  by_cases hstage : l.stage = .streaming
  · have hsend : ({ s with replicator := r } : PeerStore).send c.action c.lease =
        (.ok (), { s with replicator := r }.updateLink c.action.index
          (withReport (s.request s.registered (some c.lease)))) := by
      have hconst := updateLink_const (s := { s with replicator := r }) h.indices hfound
        (f := withReport (s.request s.registered (some c.lease))) rfl
      unfold send
      rw [hfound, ← hconst, hregistered]
      simp only [PeerLink.send, if_pos hstage]
      rfl
    have hended := continues_afterCall now hr hcaller true
    rw [carryOut_eq hsend] at hs'
    subst hs'
    exact ⟨.of_sent h (some c.lease) (hended.mono fun _ hk _ => hkey ▸ hk), _, hended⟩
  · have hsend : ({ s with replicator := r } : PeerStore).send c.action c.lease =
        (.error (.disconnected l.url), { s with replicator := r }) := by
      unfold send
      rw [hfound]
      simp only [PeerLink.send, if_neg hstage]
    have hended := continues_afterCall now hr hcaller false
    rw [carryOut_eq hsend] at hs'
    subst hs'
    exact ⟨.of_continues hended fun _ hok => absurd hok Bool.false_ne_true, _, hended⟩

/-- A section of the replicator, with the call that it starts. -/
theorem Tends.replicate (h : s.Up lockKey addresses) {event : Replicator.Event PeerWrite}
    (hstep : s.step now (.replicate event) = some s') :
    Tends s s' ∧ ∃ p, Continues s.replicator s'.replicator p := by
  unfold PeerStore.step at hstep
  simp only [Option.ite_none_right_eq_some, Option.map_eq_some_iff] at hstep
  obtain ⟨hown, ⟨r, calls⟩, hr, hs'⟩ := hstep
  have hs := section_of_step hr
  have hcontinues : ∀ p, Continues s.replicator r p := fun p =>
    Continues.own h.replicator hs hown
  cases calls with
  | nil =>
    rw [← hs']
    exact ⟨.of_continues (hcontinues fun _ => True) fun _ => trivial, _,
      hcontinues fun _ => True⟩
  | cons c rest =>
    cases Replicator.calls_eq_single hs List.mem_cons_self
    exact Tends.carryOut h hcontinues (h.replicator.current_of_call hs List.mem_cons_self)
      (Replicator.mem_callersOf_of_call hs List.mem_cons_self) hs'.symm

/-! ### Views -/

theorem Goes.reevaluate (s : PeerStore) (now : Int) : Goes s (s.reevaluate now) :=
  .of_links rfl rfl rfl rfl fun _ => id

theorem Up.reevaluate (h : s.Up lockKey addresses) (now : Int) :
    (s.reevaluate now).Up lockKey addresses :=
  h.next (Goes.reevaluate s now).placed h.replicator h.isShutDown h.isStopped h.writes h.own h.views
    h.viewed

theorem Up.putView (h : s.Up lockKey addresses) {i : Nat} (hl : s.link? i = some l)
    (n : Notification) : (s.putView i n).Up lockKey addresses := by
  unfold PeerStore.putView
  split
  · have hgoes : Goes s { s with views := Assoc.put i (View.ofStatuses n.statuses) s.views } :=
      .of_links rfl rfl rfl rfl fun _ => id
    refine h.next hgoes.placed h.replicator h.isShutDown h.isStopped h.writes h.own
      (Assoc.nodup_keys_put h.views) ?_
    intro j hj
    rcases Assoc.mem_keys_put.mp hj with rfl | hj
    · exact ⟨l, hl⟩
    · exact h.viewed j hj
  · exact h

theorem lastStatus_putView (s : PeerStore) (i : Nat) (n : Notification) :
    (s.putView i n).lastStatus = s.lastStatus := by
  unfold PeerStore.putView
  split <;> rfl

theorem isStopped_putView (s : PeerStore) (i : Nat) (n : Notification) :
    (s.putView i n).isStopped = s.isStopped := by
  unfold PeerStore.putView
  split <;> rfl

theorem Up.applySnapshot (h : s.Up lockKey addresses) {i : Nat} (hl : s.link? i = some l)
    (now : Int) (n : Notification) : (s.applySnapshot now i n).Up lockKey addresses :=
  (h.putView hl n).reevaluate now

theorem Goes.applySnapshot (s : PeerStore) (now : Int) (i : Nat) (n : Notification) :
    Goes s (s.applySnapshot now i n) := by
  unfold PeerStore.applySnapshot PeerStore.putView
  split
  · exact .of_links rfl rfl rfl rfl fun _ => id
  · exact .reevaluate s now

/-- Views are taken up by the link that they come from. -/
theorem lookup_applySnapshot {i : Nat} {n : Notification} (hkey : n.lockKey = s.lockKey) (now : Int)
    (j : Nat) : (s.applySnapshot now i n).views.lookup j =
      if j = i then some (View.ofStatuses n.statuses) else s.views.lookup j := by
  show (s.putView i n).views.lookup j = _
  rw [putView, if_pos hkey]
  by_cases hj : j = i
  · rw [if_pos hj, hj]
    exact Assoc.lookup_put_self _ _ _
  · rw [if_neg hj]
    exact Assoc.lookup_put_of_ne hj _ _

/-! ### What a store does by itself -/

/-- Whatever a store does by itself, it goes on to report what was set last, and its views stay
judged. -/
structure Works (lockKey : String) (addresses : List String) (now : Int) (s s' : PeerStore) :
    Prop where
  up : s'.Up lockKey addresses
  goes : Goes s s'
  views : s'.views = s.views
  lastStatus : s'.lastStatus = s.lastStatus
  judged : s.Judged now → s'.Judged now

theorem Works.of_tends (h : s.Up lockKey addresses) (ht : Tends s s') {p : String → Prop}
    (hr : Continues s.replicator s'.replicator p) : Works lockKey addresses now s s' where
  up := h.tends ht hr
  goes := ht.goes
  views := by rw [ht.frame]
  lastStatus := by rw [ht.frame]
  judged hjudged := hjudged.congr (by rw [ht.frame]) (by rw [ht.frame]) (by rw [ht.frame])

theorem Works.refl (h : s.Up lockKey addresses) : Works lockKey addresses now s s :=
  .of_tends h ⟨.of_links rfl rfl rfl rfl fun _ => id, rfl⟩ (p := fun _ => True)
    (.refl h.replicator)

/-- A change of a link that sends nothing. -/
theorem Works.of_updateLink (h : s.Up lockKey addresses) {i : Nat} {f : PeerLink → PeerLink}
    (hindex : ∀ l, (f l).index = l.index)
    (hf : ∀ l, s.link? i = some l → (f l).url = l.url ∧ (f l).isListed = l.isListed ∧
      (f l).isConnected = l.isConnected ∧ (l.isConnected = true → (f l).outbox = l.outbox)) :
    Works lockKey addresses now s (s.updateLink i f) :=
  .of_tends h ⟨.updateLink hindex hf, rfl⟩ (p := fun _ => True) (.refl h.replicator)

theorem Works.of_step (h : s.Up lockKey addresses) {event : Event}
    (hstep : s.step now event = some s') : Works lockKey addresses now s s' := by
  cases event with
  | replicate event =>
    obtain ⟨ht, p, hr⟩ := Tends.replicate h hstep
    exact .of_tends h ht hr
  | watch =>
    simp only [PeerStore.step, Option.ite_none_right_eq_some, Option.some.injEq] at hstep
    obtain ⟨-, rfl⟩ := hstep
    exact ⟨h.reevaluate now, .reevaluate s now, rfl, rfl, fun _ =>
      .inr ⟨now, Int.le_refl now, .reevaluate h.isStopped now⟩⟩
  | resume i =>
    simp only [PeerStore.step, Option.bind_eq_some_iff, Option.map_eq_some_iff] at hstep
    obtain ⟨l, hl, l', hretry, rfl⟩ := hstep
    have hpaused : l.isConnected = false ∧ l' = { l with stage := .connecting } := by
      unfold PeerLink.retry at hretry
      split at hretry
      · rename_i hstage
        simp only [Option.ite_none_right_eq_some, Option.some.injEq] at hretry
        refine ⟨?_, hretry.2.symm⟩
        rw [PeerLink.isConnected, hstage]
        rfl
      · cases hretry
    rw [updateLink_const h.indices hl (f := fun l => { l with stage := .connecting })
      hpaused.2.symm]
    refine .of_updateLink h (fun _ => rfl) fun l₀ hl₀ => ?_
    obtain rfl := Option.some.inj (hl.symm.trans hl₀)
    refine ⟨rfl, rfl, hpaused.1.symm, fun hconnected => ?_⟩
    exact absurd (hpaused.1.symm.trans hconnected) Bool.false_ne_true

end PeerStore

end Floodgate
