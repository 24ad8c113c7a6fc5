import Floodgate.Proofs.PeerStore.Operations
import Floodgate.Proofs.Server.Welcome
/-!
# Floodgate.Proofs.PeerStore.Acceptance

**A server accepts what a store says, unless it names no instance.** A store checks the lock data of
a status before it takes it up, and its lock key when it starts; a server checks both again, and in
addition that a report names an instance. So a report of a store can fail in that respect only, and
it does exactly if a status of an instance without a name was taken up (`accepted_iff_named`). Such
a status is remembered as well, and makes the server refuse every stream that the store opens from
then on, until another status is set.

A `Session` is every history of one store: statuses that are set, the life of its links, whatever
servers send, and the sections that the store carries out by itself.
-/

namespace Floodgate

namespace Replicator

variable {α : Type} {p : α → Prop} {r r' : Replicator α} {now : Int} {event : Event α}
  {calls : List (Call α)}

/-! ### Writes with a property -/

/-- A replicator that is in order and whose latest writes have a property. -/
def Holding (p : α → Prop) (r : Replicator α) : Prop :=
  Sound r ∧ ∀ key w, (r.entryFor? key).map (·.current) = some w → p w

theorem Holding.mono {q : α → Prop} (h : Holding p r) (hpq : ∀ w, p w → q w) : Holding q r :=
  ⟨h.1, fun key w hw => hpq w (h.2 key w hw)⟩

theorem Holding.section (h : Holding p r) (hs : Section r now event r' calls)
    (hp : ∀ key action, event = .register key action → p action) : Holding p r' := by
  refine ⟨h.1.section hs, fun key w hw => ?_⟩
  rw [current_of_section hs key] at hw
  cases event with
  | register k action =>
    by_cases hk : k = key
    · simp only [Event.latest, hk, if_true, Option.some.injEq] at hw
      exact hw ▸ hp k action rfl
    · simp only [Event.latest, hk, if_false] at hw
      exact h.2 key w hw
  | forget k =>
    by_cases hk : k = key
    · simp only [Event.latest, hk, if_true] at hw
      cases hw
    · simp only [Event.latest, hk, if_false] at hw
      exact h.2 key w hw
  | _ => exact h.2 key w hw

theorem Holding.register (h : Holding p r) (key : String) {action : α} (hp : p action) :
    Holding p (r.register key action).1 := by
  have hs : Section r 0 (.register key action) (r.register key action).1 [] :=
    .registered key action
  refine h.section hs fun _ _ heq => ?_
  cases heq
  exact hp

theorem Holding.forget (h : Holding p r) (key : String) : Holding p (r.forget key) := by
  have hs : Section r 0 (.forget key) (r.forget key) [] := .forgotten key
  exact h.section hs fun _ _ heq => by cases heq

theorem Holding.forgetAll (h : Holding p r) (keys : List String) :
    Holding p (keys.foldl Replicator.forget r) := by
  induction keys generalizing r with
  | nil => exact h
  | cons key rest ih => exact ih (h.forget key)

/-- A call calls a latest write. -/
theorem Holding.call (h : Holding p r) (hs : Section r now event r' calls) {c : Call α}
    (hc : c ∈ calls) : p c.action :=
  h.2 c.key c.action (h.1.current_of_call hs hc)

end Replicator

namespace PeerStore

open Replicator (Holding Section section_of_step)

variable {s s' : PeerStore} {name lockKey : String} {accepted : List ReportedStatus} {now : Int}
  {r : StatusRequest}

/-! ### Sessions -/

/-- The histories of a store, with the statuses that it has taken up, the latest first. -/
inductive Session (name lockKey : String) : List ReportedStatus → Int → PeerStore → Prop
  | start {isAddress : String → Bool} {urls : List String} {options : ReplicatorOptions}
      {reconnectMillis : Nat} {house : Gatehouse} {now : Int} {s : PeerStore}
      (hstart : startWith isAddress name lockKey urls options reconnectMillis house now = .ok s) :
      Session name lockKey [] now s
  /-- Time passes. -/
  | wait {accepted : List ReportedStatus} {now later : Int} {s : PeerStore}
      (h : Session name lockKey accepted now s) (hlater : now ≤ later) :
      Session name lockKey accepted later s
  /-- A status is taken up. -/
  | accepted {accepted : List ReportedStatus} {now : Int} {s s' : PeerStore} {x : ReportedStatus}
      (h : Session name lockKey accepted now s) (hset : s.setStatus x = (.ok (), s')) :
      Session name lockKey (x :: accepted) now s'
  | refused {accepted : List ReportedStatus} {now : Int} {s s' : PeerStore} {x : ReportedStatus}
      {error : StoreError} (h : Session name lockKey accepted now s)
      (hset : s.setStatus x = (.error error, s')) : Session name lockKey accepted now s'
  /-- A link reaches a server: its registration is on the way. -/
  | connect {accepted : List ReportedStatus} {now : Int} {s : PeerStore} {first : StatusRequest}
      (h : Session name lockKey accepted now s) (index : Nat)
      (hfirst : s.registration now = some first) :
      Session name lockKey accepted now (s.updateLink index (·.connect first))
  | openStream {accepted : List ReportedStatus} {now : Int} {s : PeerStore}
      (h : Session name lockKey accepted now s) (index : Nat) :
      Session name lockKey accepted now (s.updateLink index (·.openStream))
  /-- The oldest report on the way arrives. -/
  | transmit {accepted : List ReportedStatus} {now : Int} {s : PeerStore} {index : Nat}
      {l l' : PeerLink} {r : StatusRequest} (h : Session name lockKey accepted now s)
      (hl : s.link? index = some l) (htake : l.takeReport = some (r, l')) :
      Session name lockKey accepted now (s.updateLink index fun _ => l')
  | fail {accepted : List ReportedStatus} {now : Int} {s : PeerStore}
      (h : Session name lockKey accepted now s) (index : Nat) :
      Session name lockKey accepted now (s.failLink now index)
  | close {accepted : List ReportedStatus} {now : Int} {s : PeerStore}
      (h : Session name lockKey accepted now s) (index : Nat) :
      Session name lockKey accepted now (s.updateLink index (·.close))
  /-- A server sends a snapshot. -/
  | snapshot {accepted : List ReportedStatus} {now : Int} {s : PeerStore}
      (h : Session name lockKey accepted now s) (index : Nat) (n : Notification) :
      Session name lockKey accepted now (s.applySnapshot now index n)
  /-- A server is taken off the list. -/
  | unlist {accepted : List ReportedStatus} {now : Int} {s s' : PeerStore} {url : String}
      {index : Nat} (h : Session name lockKey accepted now s)
      (hunlist : s.unlist url = some (s', index)) : Session name lockKey accepted now s'
  /-- What was written to a server is forgotten. -/
  | forget {accepted : List ReportedStatus} {now : Int} {s : PeerStore}
      (h : Session name lockKey accepted now s) (index : Nat) :
      Session name lockKey accepted now (s.forgetPeer now index)
  | shutDown {accepted : List ReportedStatus} {now : Int} {s : PeerStore}
      (h : Session name lockKey accepted now s) :
      Session name lockKey accepted now (s.shutDown now)
  /-- The store goes on by itself. -/
  | step {accepted : List ReportedStatus} {now : Int} {s s' : PeerStore} {event : Event}
      (h : Session name lockKey accepted now s) (hstep : s.step now event = some s') :
      Session name lockKey accepted now s'
  /-- Handlers run at the gate. -/
  | handle {accepted : List ReportedStatus} {now : Int} {s : PeerStore}
      (h : Session name lockKey accepted now s) (house : Gatehouse) :
      Session name lockKey accepted now { s with house }

/-- A report of a store that has taken up some statuses. -/
structure Worded (name lockKey : String) (accepted : List ReportedStatus) (r : StatusRequest) :
    Prop where
  lockKey : r.lockKey = lockKey
  instanceId : r.instanceId = name ∨ ∃ x ∈ accepted, r.instanceId = x.instanceName
  lockData : LockData.contains r.status.lockData LockData.separator = false

theorem Worded.mono (h : Worded name lockKey accepted r) (x : ReportedStatus) :
    Worded name lockKey (x :: accepted) r :=
  ⟨h.lockKey, h.instanceId.imp_right fun ⟨y, hy, heq⟩ => ⟨y, List.mem_cons_of_mem _ hy, heq⟩,
    h.lockData⟩

/-- It is refused for want of an instance, or accepted. -/
theorem Worded.validate (h : Worded name lockKey accepted r) (hkey : lockKey ≠ "") :
    r.validate = if r.instanceId = "" then .error .emptyInstanceId else .ok () := by
  unfold StatusRequest.validate
  rw [h.lockKey, if_neg hkey, h.lockData]
  rfl

/-- What is known of a store that has taken up some statuses. -/
structure Speaks (name lockKey : String) (accepted : List ReportedStatus) (s : PeerStore) :
    Prop where
  lockKey_eq : s.lockKey = lockKey
  lockKey_ne : lockKey ≠ ""
  name_eq : s.instanceName = name
  name_ne : name ≠ ""
  /-- It remembers the status that it took up last. -/
  last : s.lastStatus = accepted.head?
  /-- What it has taken up it has checked. -/
  valid : ∀ x ∈ accepted, LockData.validate x.lockData [] = .ok ()
  /-- What it writes it has taken up. -/
  writes : Holding (fun w => w.status ∈ accepted) s.replicator
  /-- What is on its way is worded as it should be. -/
  outbox : ∀ l ∈ s.links, ∀ r ∈ l.outbox, Worded name lockKey accepted r

/-! ### Parts of a store -/

/-- Only some parts of a store matter to what it says. -/
theorem Speaks.of_parts (h : Speaks name lockKey accepted s) (hkey : s'.lockKey = s.lockKey)
    (hname : s'.instanceName = s.instanceName) (hlast : s'.lastStatus = s.lastStatus)
    (hwrites : Holding (fun w => w.status ∈ accepted) s'.replicator)
    (houtbox : ∀ l ∈ s'.links, ∀ r ∈ l.outbox, Worded name lockKey accepted r) :
    Speaks name lockKey accepted s' :=
  ⟨hkey.trans h.lockKey_eq, h.lockKey_ne, hname.trans h.name_eq, h.name_ne, hlast.trans h.last,
    h.valid, hwrites, houtbox⟩

theorem Speaks.updateLink (h : Speaks name lockKey accepted s) (i : Nat)
    {f : PeerLink → PeerLink}
    (hf : ∀ l ∈ s.links, ∀ r ∈ (f l).outbox, Worded name lockKey accepted r) :
    Speaks name lockKey accepted (s.updateLink i f) := by
  refine h.of_parts rfl rfl rfl h.writes fun l' hl' => ?_
  obtain ⟨l, hl, rfl⟩ := List.mem_map.mp hl'
  split
  · exact hf l hl
  · exact h.outbox l hl

/-- A link that sends nothing. -/
theorem Speaks.updateLink_quiet (h : Speaks name lockKey accepted s) (i : Nat)
    {f : PeerLink → PeerLink} (hf : ∀ l, (f l).outbox ⊆ l.outbox) :
    Speaks name lockKey accepted (s.updateLink i f) :=
  h.updateLink i fun l hl r hr => h.outbox l hl r (hf l hr)

theorem Speaks.replicator (h : Speaks name lockKey accepted s) {r : Replicator PeerWrite}
    (hr : Holding (fun w => w.status ∈ accepted) r) :
    Speaks name lockKey accepted { s with replicator := r } :=
  h.of_parts rfl rfl rfl hr h.outbox

/-- A report of a status that the store has taken up. -/
theorem Speaks.worded (h : Speaks name lockKey accepted s) {x : ReportedStatus}
    (hx : x ∈ accepted) (lease : Option Timestamp) :
    Worded name lockKey accepted (s.request x lease) :=
  ⟨h.lockKey_eq, .inr ⟨x, hx, rfl⟩, contains_of_validate (h.valid x hx)⟩

/-- The registration says the status taken up last, or that the instance is idle. -/
theorem Speaks.registration (h : Speaks name lockKey accepted s) {later : Int}
    (hr : s.registration later = some r) : Worded name lockKey accepted r ∧
      r.instanceId = (accepted.head?.map (·.instanceName)).getD name := by
  obtain ⟨lease, -, rfl⟩ := Option.map_eq_some_iff.mp hr
  rw [registered, h.last]
  cases haccepted : accepted with
  | nil =>
    refine ⟨⟨h.lockKey_eq, .inl h.name_eq, ?_⟩, h.name_eq⟩
    exact contains_of_validate (show LockData.validate none [] = .ok () from rfl)
  | cons x rest =>
    exact ⟨haccepted ▸ h.worded (haccepted ▸ List.mem_cons_self) _, rfl⟩

/-! ### Requests -/

theorem Speaks.start {isAddress : String → Bool} {urls : List String}
    {options : ReplicatorOptions} {reconnectMillis : Nat} {house : Gatehouse}
    (hstart : startWith isAddress name lockKey urls options reconnectMillis house now = .ok s) :
    Speaks name lockKey [] s := by
  obtain ⟨hname, hkey, plan, rfl⟩ := start_eq_ok hstart
  refine ⟨rfl, ne_empty_of_isBlankName hkey, rfl, ne_empty_of_isBlankName hname, rfl,
    fun _ hx => absurd hx List.not_mem_nil, ⟨.start plan now, fun _ _ hw => by cases hw⟩, ?_⟩
  intro l hl r hr
  obtain ⟨i, hi, rfl⟩ := List.mem_mapIdx.mp hl
  exact absurd hr List.not_mem_nil

theorem Speaks.report (h : Speaks name lockKey accepted s) {x : ReportedStatus}
    (hx : x ∈ accepted) (l : PeerLink) : Speaks name lockKey accepted (s.report x l) := by
  have hnoted := h.updateLink_quiet l.index (f := withKey (replicationKey l.index x.instanceName))
    fun _ => List.Subset.refl _
  exact hnoted.replicator (h.writes.register (replicationKey l.index x.instanceName) hx)

theorem Speaks.setStatus (h : Speaks name lockKey accepted s) {x : ReportedStatus}
    (hset : s.setStatus x = (.ok (), s')) : Speaks name lockKey (x :: accepted) s' := by
  obtain ⟨hok, rfl⟩ := setStatus_eq_ok hset
  have hnoted : Speaks name lockKey (x :: accepted) { s with lastStatus := some x } :=
    ⟨h.lockKey_eq, h.lockKey_ne, h.name_eq, h.name_ne, rfl,
      fun y hy => (List.mem_cons.mp hy).elim (fun heq => heq ▸ hok) (h.valid y),
      h.writes.mono fun w hw => List.mem_cons_of_mem _ hw,
      fun l hl r hr => (h.outbox l hl r hr).mono x⟩
  generalize s.listed = links
  generalize ({ s with lastStatus := some x } : PeerStore) = s₁ at hnoted
  induction links generalizing s₁ with
  | nil => exact hnoted
  | cons l rest ih => exact ih _ (hnoted.report List.mem_cons_self l)

/-! ### What a store does by itself -/

/-- A report that is sent is put on its way, or lost. -/
theorem send_cases (s : PeerStore) (w : PeerWrite) (lease : Timestamp) :
    (s.send w lease).2 = s ∨ ∃ l, s.link? w.index = some l ∧
      (s.send w lease).2 = s.updateLink w.index fun _ =>
        withReport (s.request w.status (some lease)) l := by
  unfold PeerStore.send
  split
  · exact .inl rfl
  · rename_i l hl
    unfold PeerLink.send
    split
    · rename_i l' hsend
      simp only [Option.ite_none_right_eq_some, Option.some.injEq] at hsend
      exact .inr ⟨l, hl, by rw [← hsend.2]; rfl⟩
    · exact .inl rfl

theorem Speaks.send (h : Speaks name lockKey accepted s) {w : PeerWrite}
    (hw : w.status ∈ accepted) (lease : Timestamp) :
    Speaks name lockKey accepted (s.send w lease).2 := by
  rcases s.send_cases w lease with heq | ⟨l, hl, heq⟩
  · rw [heq]
    exact h
  · rw [heq]
    refine h.updateLink w.index fun _ _ r hr => ?_
    rcases List.mem_append.mp hr with hr | hr
    · exact h.outbox l (mem_of_link? hl) r hr
    · exact List.mem_singleton.mp hr ▸ h.worded hw _

theorem Speaks.carryOut (h : Speaks name lockKey accepted s) {c : Call PeerWrite}
    (hc : c.action.status ∈ accepted) : Speaks name lockKey accepted (carryOut now s c) := by
  have hsent := h.send hc c.lease
  have hsend : s.send c.action c.lease = (_, (s.send c.action c.lease).2) := rfl
  rw [carryOut_eq hsend]
  refine hsent.replicator ?_
  unfold afterCall
  split
  · rename_i hstep
    exact hsent.writes.section (section_of_step hstep) fun _ _ heq => by cases heq
  · exact hsent.writes

theorem Speaks.step (h : Speaks name lockKey accepted s) {event : Event}
    (hstep : s.step now event = some s') : Speaks name lockKey accepted s' := by
  cases event with
  | replicate event =>
    simp only [PeerStore.step, Option.ite_none_right_eq_some, Option.map_eq_some_iff] at hstep
    obtain ⟨hown, ⟨r, calls⟩, hr, rfl⟩ := hstep
    have hs := section_of_step hr
    have hheld : Holding (fun w => w.status ∈ accepted) r :=
      h.writes.section hs fun _ _ heq => by rw [heq] at hown; cases hown
    have hnext := h.replicator hheld
    cases calls with
    | nil => exact hnext
    | cons c rest =>
      cases Replicator.calls_eq_single hs List.mem_cons_self
      exact hnext.carryOut (h.writes.call hs List.mem_cons_self)
  | watch =>
    simp only [PeerStore.step, Option.ite_none_right_eq_some, Option.some.injEq] at hstep
    exact hstep.2 ▸ h.of_parts rfl rfl rfl h.writes h.outbox
  | resume i =>
    simp only [PeerStore.step, Option.bind_eq_some_iff, Option.map_eq_some_iff] at hstep
    obtain ⟨l, hl, l', hretry, rfl⟩ := hstep
    refine h.updateLink i fun _ _ r hr => h.outbox l (mem_of_link? hl) r ?_
    unfold PeerLink.retry at hretry
    split at hretry
    · simp only [Option.ite_none_right_eq_some, Option.some.injEq] at hretry
      rwa [← hretry.2] at hr
    · cases hretry

/-! ### Everything a store says -/

theorem Speaks.applySnapshot (h : Speaks name lockKey accepted s) (now : Int) (i : Nat)
    (n : Notification) : Speaks name lockKey accepted (s.applySnapshot now i n) := by
  unfold PeerStore.applySnapshot PeerStore.putView
  split <;> exact h.of_parts rfl rfl rfl h.writes h.outbox

theorem Speaks.unlist (h : Speaks name lockKey accepted s) {url : String} {i : Nat}
    (hunlist : s.unlist url = some (s', i)) : Speaks name lockKey accepted s' := by
  obtain ⟨l, -, heq⟩ := Option.map_eq_some_iff.mp hunlist
  obtain ⟨rfl, rfl⟩ := Prod.mk.inj heq
  exact h.updateLink_quiet l.index fun _ => List.nil_subset _

theorem Speaks.forgetPeer (h : Speaks name lockKey accepted s) (now : Int) (i : Nat) :
    Speaks name lockKey accepted (s.forgetPeer now i) := by
  have hforgotten (keys : List String) : Speaks name lockKey accepted
      (((({ s with replicator := keys.foldl Replicator.forget s.replicator } : PeerStore).updateLink
        i fun l => { l with keys := [] }).dropView i).reevaluate now) := by
    have hcleared := (h.replicator (h.writes.forgetAll keys)).updateLink_quiet i
      (f := fun l => { l with keys := [] }) fun _ => List.Subset.refl _
    exact hcleared.of_parts rfl rfl rfl hcleared.writes hcleared.outbox
  exact hforgotten _

theorem Speaks.shutDown (h : Speaks name lockKey accepted s) (now : Int) :
    Speaks name lockKey accepted (s.shutDown now) := by
  have hs : Section s.replicator now .shutDown (s.shutDown now).replicator [] := .shutDown
  refine h.of_parts rfl rfl rfl (h.writes.section hs fun _ _ heq => by cases heq)
    fun l' hl' r hr => ?_
  obtain ⟨l, hl, rfl⟩ := List.mem_map.mp hl'
  split at hr
  · exact absurd hr List.not_mem_nil
  · exact h.outbox l hl r hr

theorem Session.speaks (h : Session name lockKey accepted now s) :
    Speaks name lockKey accepted s := by
  induction h with
  | start hstart => exact .start hstart
  | wait _ _ ih => exact ih
  | accepted _ hset ih => exact ih.setStatus hset
  | refused _ hset ih => exact (setStatus_eq_error hset).symm ▸ ih
  | connect _ index hfirst ih =>
    refine ih.updateLink index fun _ _ r hr => ?_
    exact List.mem_singleton.mp hr ▸ (ih.registration hfirst).1
  | openStream _ index ih => exact ih.updateLink_quiet index fun _ => List.Subset.refl _
  | @transmit accepted now s index l l' r _ hl htake ih =>
    refine ih.updateLink index fun _ _ r' hr' => ih.outbox l (mem_of_link? hl) r' ?_
    unfold PeerLink.takeReport at htake
    split at htake
    · cases htake
    · rename_i hout
      cases htake
      exact hout ▸ List.mem_cons_of_mem _ hr'
  | fail _ index ih => exact ih.updateLink_quiet index fun _ => List.nil_subset _
  | close _ index ih => exact ih.updateLink_quiet index fun _ => List.nil_subset _
  | snapshot _ index n ih => exact ih.applySnapshot _ index n
  | unlist _ hunlist ih => exact ih.unlist hunlist
  | forget _ index ih => exact ih.forgetPeer _ index
  | shutDown _ ih => exact ih.shutDown _
  | step _ hstep ih => exact ih.step hstep
  | handle _ house ih => exact ih.of_parts rfl rfl rfl ih.writes ih.outbox

/-- **Every report that a store sends and every registration is of its lock key, and a server
accepts it exactly if it names an instance.** It names the instance of the store or one whose status
was taken up; a registration names the one taken up last. So all reports are accepted if no status
without an instance was taken up, and a stream that hears only accepted reports of one lock key is
never refused. -/
theorem accepted_iff_named (h : Session name lockKey accepted now s) :
    (∀ l ∈ s.links, ∀ r ∈ l.outbox, r.lockKey = lockKey ∧
      (r.instanceId = name ∨ ∃ x ∈ accepted, r.instanceId = x.instanceName) ∧
      r.validate = if r.instanceId = "" then .error .emptyInstanceId else .ok ()) ∧
    (∀ later r, s.registration later = some r → r.lockKey = lockKey ∧
      r.instanceId = (accepted.head?.map (·.instanceName)).getD name ∧
      r.validate = if r.instanceId = "" then .error .emptyInstanceId else .ok ()) ∧
    ((∀ x ∈ accepted, x.instanceName ≠ "") →
      (∀ l ∈ s.links, ∀ r ∈ l.outbox, r.validate = .ok ()) ∧
      ∀ later r, s.registration later = some r → r.validate = .ok ()) ∧
    ∀ stream sv,
      StatusServer.Hears stream (fun r => r.lockKey = lockKey ∧ r.validate = .ok ()) sv →
      ∀ t ∈ sv.streams, t.number = stream → ∀ error,
        t.handler ≠ .refusing error ∧ Outbound.refusal error ∉ t.outbound := by
  have hspeaks := h.speaks
  have hnamed : (∀ x ∈ accepted, x.instanceName ≠ "") → ∀ r, Worded name lockKey accepted r →
      r.validate = .ok () := by
    intro hall r hr
    rw [hr.validate hspeaks.lockKey_ne, if_neg]
    rcases hr.instanceId with heq | ⟨x, hx, heq⟩
    · exact heq ▸ hspeaks.name_ne
    · exact heq ▸ hall x hx
  refine ⟨fun l hl r hr => ?_, fun later r hr => ?_, fun hall => ⟨fun l hl r hr => ?_,
    fun later r hr => ?_⟩, fun stream sv hears t ht hnumber error => ?_⟩
  · have hr := hspeaks.outbox l hl r hr
    exact ⟨hr.lockKey, hr.instanceId, hr.validate hspeaks.lockKey_ne⟩
  · obtain ⟨hr, hid⟩ := hspeaks.registration hr
    exact ⟨hr.lockKey, hid, hr.validate hspeaks.lockKey_ne⟩
  · exact hnamed hall r (hspeaks.outbox l hl r hr)
  · exact hnamed hall r (hspeaks.registration hr).1
  · exact hears.not_refused (fun _ hr => hr) ht hnumber error

/-- A store that has registered with a server and reported a status to it. -/
def spokenStore : Option PeerStore := do
  let .ok s := startWith (fun _ => true) "a" "lock" ["peer:1"] {} 1000 (.fresh {}) 0 | none
  let first ← s.registration 0
  let s := (s.updateLink 0 (·.connect first)).updateLink 0 (·.openStream)
  let (.ok (), s) := s.setStatus ⟨"b", true, some "job"⟩ | none
  let s ← s.step 0 (.replicate (.resume (.delivery 1)))
  s.step 0 (.replicate (.resume (.delivery 1)))

theorem session_spokenStore (hs : spokenStore = some s) :
    Session "a" "lock" [⟨"b", true, some "job"⟩] 0 s := by
  unfold spokenStore at hs
  split at hs
  · next s₀ hstart =>
    simp only [Option.bind_eq_bind, Option.bind_eq_some_iff] at hs
    obtain ⟨first, hfirst, hs⟩ := hs
    split at hs
    · next s₁ hset =>
      obtain ⟨s₂, hqueued, hcalled⟩ := Option.bind_eq_some_iff.mp hs
      have hopened := ((Session.start hstart).connect 0 hfirst).openStream 0
      exact ((hopened.accepted hset).step hqueued).step hcalled
    · cases hs
  · cases hs

theorem accepted_iff_named_of_two : ∃ s, spokenStore = some s ∧
    Session "a" "lock" [⟨"b", true, some "job"⟩] 0 s ∧
    ∃ l ∈ s.links, l.outbox.map (·.instanceId) = ["a", "b"] ∧
      ∀ r ∈ l.outbox, r.validate = .ok () := by
  have hstate : spokenStore.any (fun s =>
      s.links.any fun l => l.outbox.map (·.instanceId) == ["a", "b"]) = true := by decide
  obtain ⟨s, hs, hstate⟩ := (Option.any_eq_true _ _).mp hstate
  obtain ⟨l, hl, hids⟩ := List.any_eq_true.mp hstate
  have hsession := session_spokenStore hs
  obtain ⟨-, -, hnamed, -⟩ := accepted_iff_named hsession
  refine ⟨s, hs, hsession, l, hl, eq_of_beq hids, (hnamed fun x hx => ?_).1 l hl⟩
  rw [List.mem_singleton.mp hx]
  decide

/-- What a store registers with once it has taken up a status without an instance. -/
def unnamedRegistration : Option StatusRequest := do
  let .ok s := startWith (fun _ => true) "a" "lock" ["peer:1"] {} 1000 (.fresh {}) 0 | none
  let (.ok (), s) := s.setStatus ⟨"", true, none⟩ | none
  s.registration 0

/-- Any server refuses it, and ends the stream. -/
theorem unnamed_registration_refused : ∃ first, unnamedRegistration = some first ∧
    first.validate = .error .emptyInstanceId ∧
    ∀ plan, ((((StatusServer.start plan 0).openStream.1.receive 0 first).step 0 (.handle 0)).bind
      (·.stream? 0)).map (·.handler) = some (.refusing .emptyInstanceId) := by
  have hstate : unnamedRegistration.any (fun first =>
      decide (first.validate = .error .emptyInstanceId)) = true := by decide
  obtain ⟨first, hfirst, hstate⟩ := (Option.any_eq_true _ _).mp hstate
  have hrefused := of_decide_eq_true hstate
  refine ⟨first, hfirst, hrefused, fun plan => ?_⟩
  show ((some (StatusServer.register _ ⟨0, [first], false, .waiting, none, []⟩ first)).bind
    (·.stream? 0)).map (·.handler) = some (.refusing .emptyInstanceId)
  rw [StatusServer.register, hrefused]
  rfl

end PeerStore

end Floodgate
