import Floodgate.Proofs.HashStore.Field
import Floodgate.Proofs.HashStore.Log
import Floodgate.Proofs.Replication.Pending
/-!
# Floodgate.Proofs.HashStore.LastStatus

**The hash ends up with the last status.** Every field that a store writes is the status that it
accepted last for the instance, stamped with a lease that starts when it is written; a status that
is refused never gets that far. Once nothing is pending for an instance, its last accepted status
has been written since, whatever became of earlier attempts, and so the field says it unless others
have written the field.

What holds of one store is carried along a log as `Kept`. The replicator of the store is sound, so
a call that starts calls the write registered last; this is what keeps earlier statuses from being
written late.

Main statement: `hash_says_last_status`.
-/

namespace Floodgate

/-! ### What a log says of statuses and fields -/

/-- The status that a store accepted last for an instance. -/
def lastAccepted? (place : Nat) (n : String) : List Deed → Option FieldWrite
  | [] => none
  | .accepted p w :: earlier =>
    if p = place ∧ w.field = n then some w else lastAccepted? place n earlier
  | _ :: earlier => lastAccepted? place n earlier

/-- The fields that were written. -/
def hashWrites (log : List Deed) : List HashWrite :=
  log.filterMap fun
    | .wrote v => some v
    | _ => none

/-- The last write of a field. -/
def lastWrite? (lockKey field : String) (log : List Deed) : Option HashWrite :=
  (hashWrites log).find? fun v => v.lockKey == lockKey && v.field == field

/-- The last time that a store wrote a field. -/
def ownWrite? (place : Nat) (field : String) (log : List Deed) : Option HashWrite :=
  (hashWrites log).find? fun v => v.writer == some place && v.field == field

/-- Whether a deed is about what a store has accepted or written. -/
def Deed.reports (place : Nat) : Deed → Bool
  | accepted p _ => p == place
  | wrote v => v.writer == some place
  | lost _ _ | lapsed _ _ => false

section History

variable {place : Nat} {n lockKey field : String} {deeds log : List Deed} {w : FieldWrite}
  {v : HashWrite}

theorem lastAccepted?_append (h : ∀ d ∈ deeds, d.reports place = false) :
    lastAccepted? place n (deeds ++ log) = lastAccepted? place n log := by
  induction deeds with
  | nil => rfl
  | cons d rest ih =>
    have hrest := ih fun d hd => h d (List.mem_cons_of_mem _ hd)
    cases d with
    | accepted p w =>
      have hp : ¬ (p = place ∧ w.field = n) := fun hp => by
        have hd := h _ List.mem_cons_self
        rw [Deed.reports, hp.1, beq_self_eq_true] at hd
        cases hd
      rw [List.cons_append, lastAccepted?, if_neg hp, hrest]
    | _ => exact hrest

theorem field_of_lastAccepted? (h : lastAccepted? place n log = some w) : w.field = n := by
  induction log with
  | nil => cases h
  | cons d earlier ih =>
    cases d with
    | accepted p w' =>
      rw [lastAccepted?] at h
      split at h
      · next hp => exact Option.some.inj h ▸ hp.2
      · exact ih h
    | _ => exact ih h

theorem hashWrites_append (deeds log : List Deed) :
    hashWrites (deeds ++ log) = hashWrites deeds ++ hashWrites log := List.filterMap_append

theorem mem_hashWrites : v ∈ hashWrites log ↔ Deed.wrote v ∈ log := by
  simp only [hashWrites, List.mem_filterMap]
  constructor
  · rintro ⟨d, hd, heq⟩
    cases d <;> cases heq
    exact hd
  · intro h
    exact ⟨_, h, rfl⟩

theorem lastWrite?_append (deeds log : List Deed) : lastWrite? lockKey field (deeds ++ log) =
    (lastWrite? lockKey field deeds).or (lastWrite? lockKey field log) := by
  rw [lastWrite?, hashWrites_append, List.find?_append]
  rfl

theorem ownWrite?_append (h : ∀ d ∈ deeds, d.reports place = false) :
    ownWrite? place field (deeds ++ log) = ownWrite? place field log := by
  rw [ownWrite?, hashWrites_append, List.find?_append]
  have hnone : (hashWrites deeds).find? (fun v => v.writer == some place && v.field == field) =
      none := by
    refine List.find?_eq_none.mpr fun v hv hown => ?_
    have hd := h _ (mem_hashWrites.mp hv)
    rw [Deed.reports, (Bool.and_eq_true_iff.mp hown).1] at hd
    cases hd
  rw [hnone]
  rfl

/-- What a store wrote is found before what others did. -/
theorem suffix_of_append (h : ∀ d ∈ deeds, d.reports place = false) {earlier : List Deed}
    (hsuffix : .wrote v :: earlier <:+ deeds ++ log) (hv : v.writer = some place) :
    .wrote v :: earlier <:+ log := by
  induction deeds with
  | nil => exact hsuffix
  | cons d rest ih =>
    rcases List.suffix_cons_iff.mp hsuffix with heq | hsuffix
    · have hd := h d List.mem_cons_self
      rw [← (List.cons.inj heq).1, Deed.reports, hv, beq_self_eq_true] at hd
      cases hd
    · exact ih (fun d hd => h d (List.mem_cons_of_mem _ hd)) hsuffix

end History

namespace HashScene

variable {s s' : HashScene} {now : Int} {place q : Nat} {st st' : HashStore} {a : HashAct}
  {deeds log : List Deed} {punctual : Bool} {n : String} {w : FieldWrite} {v : HashWrite}

/-- A write writes a status, under a lease of the store that starts then. -/
def Stamps (st : HashStore) (w : FieldWrite) (v : HashWrite) : Prop :=
  v.lockKey = st.lockKey ∧
    ∃ lease, st.replicator.leaseDeadline v.time = some lease ∧ v.value = w.value lease

/-- What a log says of a store is what its replicator holds. -/
structure Kept (place : Nat) (log : List Deed) (st : HashStore) : Prop where
  sound : Replicator.Sound st.replicator
  current : ∀ n, (st.replicator.entryFor? n).map (·.current) = lastAccepted? place n log
  /-- What has been accepted has passed the checks. -/
  valid : ∀ n w, lastAccepted? place n log = some w →
    LockData.validate w.lockData [String.singleton HashStore.delimiter] = .ok ()
  /-- Whatever the store wrote was the status accepted last. -/
  stamped : ∀ v earlier, .wrote v :: earlier <:+ log → v.writer = some place →
    ∃ w, lastAccepted? place v.field earlier = some w ∧ Stamps st w v
  /-- What is not pending has been written. -/
  settled : ∀ n w, lastAccepted? place n log = some w → st.replicator.isPending n = false →
    ∃ v, ownWrite? place n log = some v ∧ Stamps st w v

theorem Stamps.congr (h : Stamps st w v) (hkey : st'.lockKey = st.lockKey)
    (hplan : st'.replicator.plan = st.replicator.plan) : Stamps st' w v := by
  obtain ⟨hv, lease, hlease, hvalue⟩ := h
  refine ⟨hv.trans hkey.symm, lease, ?_, hvalue⟩
  rw [Replicator.leaseDeadline, hplan]
  exact hlease

/-- Neither accepted nor written by the store: what is said of it stays. -/
theorem Kept.append (h : Kept place log st) (hdeeds : ∀ d ∈ deeds, d.reports place = false) :
    Kept place (deeds ++ log) st where
  sound := h.sound
  current n := (h.current n).trans (lastAccepted?_append hdeeds).symm
  valid n w hw := h.valid n w (by rwa [lastAccepted?_append hdeeds] at hw)
  stamped v earlier hsuffix hv := h.stamped v earlier (suffix_of_append hdeeds hsuffix hv) hv
  settled n w hw hpending := by
    rw [lastAccepted?_append hdeeds] at hw
    rw [ownWrite?_append hdeeds]
    exact h.settled n w hw hpending

theorem Kept.stamped_congr (h : Kept place log st) (hkey : st'.lockKey = st.lockKey)
    (hplan : st'.replicator.plan = st.replicator.plan) {earlier : List Deed}
    (hsuffix : .wrote v :: earlier <:+ log) (hv : v.writer = some place) :
    ∃ w, lastAccepted? place v.field earlier = some w ∧ Stamps st' w v :=
  have ⟨w, hw, hstamps⟩ := h.stamped v earlier hsuffix hv
  ⟨w, hw, hstamps.congr hkey hplan⟩

theorem Kept.settled_congr (h : Kept place log st) (hkey : st'.lockKey = st.lockKey)
    (hplan : st'.replicator.plan = st.replicator.plan) (hw : lastAccepted? place n log = some w)
    (hsettled : st.replicator.isPending n = false) :
    ∃ v, ownWrite? place n log = some v ∧ Stamps st' w v :=
  have ⟨v, hv, hstamps⟩ := h.settled n w hw hsettled
  ⟨v, hv, hstamps.congr hkey hplan⟩

/-- The replicator of a store goes on under the same plan, and takes up no write. -/
structure GoesOn (st st' : HashStore) : Prop where
  lockKey : st'.lockKey = st.lockKey
  plan : st'.replicator.plan = st.replicator.plan
  sound : Replicator.Sound st'.replicator
  current : ∀ n, (st'.replicator.entryFor? n).map (·.current) =
    (st.replicator.entryFor? n).map (·.current)

/-- The replicator goes on, and settles no write either. -/
theorem Kept.goesOn (h : Kept place log st) (hgoes : GoesOn st st')
    (hpending : ∀ n, st.replicator.isPending n = true → st'.replicator.isPending n = true) :
    Kept place log st' where
  sound := hgoes.sound
  current n := (hgoes.current n).trans (h.current n)
  valid := h.valid
  stamped _ _ hsuffix hv := h.stamped_congr hgoes.lockKey hgoes.plan hsuffix hv
  settled n w hw hsettled := by
    refine h.settled_congr hgoes.lockKey hgoes.plan hw ?_
    rw [Bool.eq_false_iff] at hsettled ⊢
    exact fun hp => hsettled (hpending n hp)

theorem Kept.of_same (h : Kept place log st) (hkey : st'.lockKey = st.lockKey)
    (hsame : st'.replicator = st.replicator) : Kept place log st' := by
  refine h.goesOn ⟨hkey, by rw [hsame], hsame ▸ h.sound, fun n => by rw [hsame]⟩ fun n hp => ?_
  rw [hsame]
  exact hp

theorem Kept.start {plan : ReplicationPlan} (hsame : st.replicator = .start plan now)
    (hnone : ∀ d ∈ log, d.reports place = false) : Kept place log st := by
  have hlog : ∀ n, lastAccepted? place n log = none := fun n => by
    have happend : lastAccepted? place n (log ++ []) = lastAccepted? place n [] :=
      lastAccepted?_append hnone
    rwa [List.append_nil] at happend
  have hwrites : ∀ v earlier, .wrote v :: earlier <:+ log → v.writer ≠ some place := by
    intro v earlier hsuffix hv
    have hd := hnone _ (hsuffix.subset List.mem_cons_self)
    rw [Deed.reports, hv, beq_self_eq_true] at hd
    cases hd
  refine ⟨hsame ▸ .start plan now, fun n => ?_, fun n w hw => ?_, fun v earlier hsuffix hv =>
    absurd hv (hwrites v earlier hsuffix), fun n w hw => ?_⟩
  · rw [hsame, hlog]
    rfl
  · rw [hlog] at hw
    cases hw
  · rw [hlog] at hw
    cases hw

/-! ### What an act keeps -/

theorem setStatus_eq_ok {instanceName : String} {isBusy : Bool} {lockData : Option String}
    (h : st.setStatus instanceName isBusy lockData = (.ok (), st')) :
    LockData.validate lockData [String.singleton HashStore.delimiter] = .ok () ∧
      st' = { st with replicator :=
        (st.replicator.register instanceName ⟨instanceName, isBusy, lockData⟩).1 } := by
  unfold HashStore.setStatus at h
  split at h
  · cases h
  · split at h
    · cases h
    · next hvalid => exact ⟨hvalid, (Prod.mk.inj h).2.symm⟩

theorem Kept.setStatus (h : Kept place log st) {instanceName : String} {isBusy : Bool}
    {lockData : Option String}
    (hset : st.setStatus instanceName isBusy lockData = (.ok (), st')) :
    Kept place (.accepted place ⟨instanceName, isBusy, lockData⟩ :: log) st' := by
  obtain ⟨hvalid, hst'⟩ := setStatus_eq_ok hset
  have hkey : st'.lockKey = st.lockKey := by rw [hst']
  have hplan : st'.replicator.plan = st.replicator.plan := by
    rw [hst']
    exact (st.replicator.register_frame instanceName ⟨instanceName, isBusy, lockData⟩).1
  subst hst'
  have hlast : ∀ n, lastAccepted? place n
      (.accepted place ⟨instanceName, isBusy, lockData⟩ :: log) =
        if n = instanceName then some ⟨instanceName, isBusy, lockData⟩
        else lastAccepted? place n log := fun n => by
    simp only [lastAccepted?, true_and, eq_comm]
  refine ⟨h.sound.register _ _, fun n => ?_, fun n w hw => ?_, fun v earlier hsuffix hv => ?_,
    fun n w hw hpending => ?_⟩
  · rw [hlast, Replicator.entryFor?_register, ← h.current n]
    split <;> rfl
  · rw [hlast] at hw
    split at hw
    · exact Option.some.inj hw ▸ hvalid
    · exact h.valid n w hw
  · rcases List.suffix_cons_iff.mp hsuffix with heq | hsuffix
    · cases heq
    · exact h.stamped_congr hkey hplan hsuffix hv
  · have hmark := st.replicator.pendingOf_register instanceName ⟨instanceName, isBusy, lockData⟩ n
    rw [Bool.eq_false_iff, ne_eq, Replicator.isPending_eq_true_iff, hmark] at hpending
    rw [hlast] at hw
    split at hw
    · next heq =>
      rw [if_pos heq] at hpending
      exact absurd rfl hpending
    · next hne =>
      rw [if_neg hne, ← Replicator.isPending_eq_true_iff, ← ne_eq, ← Bool.eq_false_iff] at hpending
      exact h.settled_congr hkey hplan hw hpending

/-- A write of the status accepted last settles it, and nothing else. -/
theorem Kept.wrote (h : Kept place log st) (hwriter : v.writer = some place)
    (hw : lastAccepted? place v.field log = some w) (hstamps : Stamps st w v)
    (hgoes : GoesOn st st') (hpending : ∀ n, n ≠ v.field → st.replicator.isPending n = true →
      st'.replicator.isPending n = true) : Kept place (.wrote v :: log) st' where
  sound := hgoes.sound
  current n := (hgoes.current n).trans (h.current n)
  valid := h.valid
  stamped v' earlier hsuffix hv' := by
    rcases List.suffix_cons_iff.mp hsuffix with heq | hsuffix
    · cases heq
      exact ⟨w, hw, hstamps.congr hgoes.lockKey hgoes.plan⟩
    · exact h.stamped_congr hgoes.lockKey hgoes.plan hsuffix hv'
  settled n w' hw' hsettled := by
    by_cases hn : n = v.field
    · subst hn
      have heq : w = w' := Option.some.inj (hw.symm.trans hw')
      refine ⟨v, ?_, heq ▸ hstamps.congr hgoes.lockKey hgoes.plan⟩
      simp [ownWrite?, hashWrites, hwriter]
    · have hold : st.replicator.isPending n = false := by
        rw [Bool.eq_false_iff] at hsettled ⊢
        exact fun hp => hsettled (hpending n hn hp)
      obtain ⟨v', hv', hstamps'⟩ := h.settled_congr hgoes.lockKey hgoes.plan hw' hold
      refine ⟨v', ?_, hstamps'⟩
      have hskip : ownWrite? place n (.wrote v :: log) = ownWrite? place n log := by
        simp [ownWrite?, hashWrites, Ne.symm hn]
      exact hskip.trans hv'

/-- What a section does to the writes of a replicator, when nothing is registered or forgotten. -/
theorem current_of_quiet {r r' : Replicator FieldWrite} {event : Replicator.Event FieldWrite}
    {calls : List (Call FieldWrite)} (hs : Replicator.Section r now event r' calls)
    (hquiet : event.isOwn = true ∨ ∃ c ok, event = .callEnded c ok) (n : String) :
    (r'.entryFor? n).map (·.current) = (r.entryFor? n).map (·.current) := by
  refine (Replicator.current_of_section hs n).trans ?_
  rcases hquiet with hown | ⟨c, ok, rfl⟩
  · cases event <;> first | rfl | cases hown
  · rfl

theorem Kept.own (h : Kept place log st) {event : Replicator.Event FieldWrite}
    {r : Replicator FieldWrite} {calls : List (Call FieldWrite)} (hown : event.isOwn = true)
    (hstep : st.replicator.step now event = some (r, calls)) :
    Kept place log { st with replicator := r } := by
  have hs := Replicator.section_of_step hstep
  exact h.goesOn ⟨rfl, (Replicator.frame_of_section hs).1, h.sound.section hs,
    current_of_quiet hs (.inl hown)⟩ fun n => Replicator.isPending_of_own hs hown

theorem afterCall_cases (now : Int) (ok : Bool) (r : Replicator FieldWrite)
    (c : Call FieldWrite) : afterCall now ok r c = r ∨
      ∃ calls, Replicator.Section r now (.callEnded c.caller ok) (afterCall now ok r c) calls := by
  unfold afterCall
  cases hstep : r.step now (.callEnded c.caller ok) with
  | none => exact .inl rfl
  | some out => exact .inr ⟨out.2, Replicator.section_of_step hstep⟩

/-- What the end of a call does to the writes of a replicator. -/
theorem goesOn_afterCall (now : Int) (h : Replicator.Sound st.replicator) (ok : Bool)
    {c : Call FieldWrite} (hc : c.caller ∈ st.replicator.callersOf c.key) :
    GoesOn st { st with replicator := afterCall now ok st.replicator c } ∧
      ∀ n, (ok = true → n ≠ c.key) → st.replicator.isPending n = true →
        (afterCall now ok st.replicator c).isPending n = true := by
  rcases afterCall_cases now ok st.replicator c with heq | ⟨calls, hs⟩
  · rw [heq]
    exact ⟨⟨rfl, rfl, h, fun n => rfl⟩, fun n _ hp => hp⟩
  · exact ⟨⟨rfl, (Replicator.frame_of_section hs).1, h.section hs,
      current_of_quiet hs (.inr ⟨_, _, rfl⟩)⟩,
      fun n hn hp => Replicator.isPending_of_callEnded h hs hc hn hp⟩

theorem Kept.called (h : Kept place log st) {event : Replicator.Event FieldWrite}
    {r : Replicator FieldWrite} {c : Call FieldWrite} (hown : event.isOwn = true)
    (hstep : st.replicator.step now event = some (r, [c])) (ok : Bool) :
    Kept place ((if ok then [.wrote (writeOf now place st c)] else []) ++ log)
      { st with replicator := afterCall now ok r c } := by
  have hs := Replicator.section_of_step hstep
  have hc : c ∈ [c] := List.mem_cons_self
  have hkept := h.own hown hstep
  obtain ⟨hgoes, hpending⟩ :=
    goesOn_afterCall now hkept.sound ok (Replicator.mem_callersOf_of_call hs hc)
  -- a sound replicator calls what was registered last, never an earlier write of the key
  have hlast : lastAccepted? place c.key log = some c.action :=
    (h.current c.key).symm.trans (h.sound.current_of_call hs hc)
  have hfield : c.action.field = c.key := field_of_lastAccepted? hlast
  cases ok with
  | false =>
    -- the server is away: the write stays pending
    exact hkept.goesOn hgoes fun n => hpending n nofun
  | true =>
    have hstamps : Stamps { st with replicator := r } c.action (writeOf now place st c) := by
      refine ⟨rfl, c.lease, ?_, rfl⟩
      rw [Replicator.leaseDeadline, (Replicator.frame_of_section hs).1]
      exact Replicator.lease_of_call hs hc
    have hwritten : lastAccepted? place (writeOf now place st c).field log = some c.action := by
      rw [show (writeOf now place st c).field = c.key from hfield]
      exact hlast
    exact hkept.wrote rfl hwritten hstamps hgoes
      fun n hn => hpending n fun _ heq => hn (heq.trans hfield.symm)

theorem reports_eq_false {d : Deed} (h : d.place? ≠ some place) : d.reports place = false := by
  cases d with
  | accepted p w => exact beq_false_of_ne fun heq => h (congrArg some heq)
  | wrote v => exact beq_false_of_ne h
  | _ => rfl

theorem reports_deedsOnBreak {d : Deed} (hd : d ∈ st.deedsOnBreak q now) :
    d.reports place = false := by
  rw [mem_deedsOnBreak hd]
  rfl

theorem reports_deedsOnWake {subscribed : Bool} {wake : HashStore.Wake} {d : Deed}
    (hd : d ∈ st.deedsOnWake q now subscribed wake) : d.reports place = false := by
  rcases mem_deedsOnWake hd with rfl | rfl <;> rfl

theorem replicator_breakStream (st : HashStore) : st.breakStream.lockKey = st.lockKey ∧
    st.breakStream.replicator = st.replicator := by
  unfold HashStore.breakStream
  split <;> exact ⟨rfl, rfl⟩

theorem replicator_onWake (st : HashStore) (now : Int) (subscribed : Bool)
    (reading : Option (List (String × String))) (wake : HashStore.Wake) :
    (st.onWake now subscribed reading wake).lockKey = st.lockKey ∧
      (st.onWake now subscribed reading wake).replicator = st.replicator := by
  have hsync : ∀ st : HashStore, (st.sync now reading).lockKey = st.lockKey ∧
      (st.sync now reading).replicator = st.replicator := fun st => by
    cases reading <;> exact ⟨rfl, rfl⟩
  unfold HashStore.onWake
  split
  · exact ⟨rfl, rfl⟩
  · split <;> exact hsync _
  · exact ⟨rfl, rfl⟩
  · split <;> exact hsync st
  · split
    · exact hsync _
    · exact ⟨rfl, rfl⟩

/-- **Whatever is done keeps what a log says of a store.** -/
theorem Kept.becomes (h : Kept place log st) (hb : Becomes now place st deeds st') :
    Kept place (deeds ++ log) st' := by
  cases hb with
  | aside hdeeds halike =>
    exact (h.append fun d hd => reports_eq_false (hdeeds d hd)).of_same halike.lockKey
      halike.replicator
  | accepted hset => exact h.setStatus hset
  | broken =>
    obtain ⟨hkey, hsame⟩ := replicator_breakStream st
    exact (h.append fun d hd => reports_deedsOnBreak hd).of_same hkey hsame
  | listened hready subscribed reading =>
    obtain ⟨hkey, hsame⟩ := replicator_onWake st now subscribed reading _
    exact (h.append fun d hd => reports_deedsOnWake hd).of_same hkey hsame
  | resumed hown hstep => exact h.own hown hstep
  | called hown hstep ok halike =>
    exact (h.called hown hstep ok).of_same halike.lockKey halike.replicator
  | shutDown =>
    exact h.goesOn ⟨rfl, rfl, h.sound.shutDown, fun n => rfl⟩ fun n hp => hp

/-! ### What the server holds -/

/-- A write that succeeds is seen in its field, and in no other. -/
theorem lookup_write (s : HashScene) (v : HashWrite) (channel key n : String) :
    ((s.write v.lockKey v.field v.value channel).1.server.fields (HashStore.hashKey key)).lookup n =
      ((lastWrite? key n (s.deedsOnWrite v)).map (·.value)).or
        ((s.server.fields (HashStore.hashKey key)).lookup n) := by
  unfold HashScene.write deedsOnWrite
  cases hwrite : s.server.write (HashStore.hashKey v.lockKey) v.field v.value with
  | none =>
    have hdown : s.server.isAvailable = false := by
      unfold HashServer.write at hwrite
      split at hwrite
      · cases hwrite
      · next hdown => exact Bool.eq_false_iff.mpr hdown
    rw [hdown]
    rfl
  | some server =>
    have hup : s.server.isAvailable = true := by
      unfold HashServer.write at hwrite
      split at hwrite
      · next hup => exact hup
      · cases hwrite
    rw [if_pos hup]
    show (server.fields (HashStore.hashKey key)).lookup n = _
    by_cases hkey : v.lockKey = key
    · subst hkey
      rw [HashServer.fields_of_write hwrite]
      by_cases hn : v.field = n
      · subst hn
        simp [lastWrite?, hashWrites]
      · rw [Assoc.lookup_put_of_ne (Ne.symm hn)]
        simp [lastWrite?, hashWrites, hn]
    · have hne : HashStore.hashKey key ≠ HashStore.hashKey v.lockKey := fun heq =>
        hkey (HashStore.hashKey_injective heq).symm
      rw [HashServer.fields_of_write_of_ne hwrite hne]
      simp [lastWrite?, hashWrites, hkey]

theorem server_carryOut {c : Call FieldWrite} {e : HashSceneStore}
    (hat : s.stores[place]? = some e) : (carryOut now place s c).server =
      (s.write e.store.lockKey c.action.field (c.action.value c.lease)
        (HashStore.channelName e.store.lockKey)).1.server := by
  unfold carryOut
  rw [hat]
  rcases hout : s.write e.store.lockKey c.action.field (c.action.value c.lease)
    (HashStore.channelName e.store.lockKey) with ⟨s₁, ok⟩
  simp only [hout]
  split
  · rfl
  · split <;> rfl

theorem server_shutDown (s : HashScene) (now : Int) (name : String) :
    (s.shutDown now name).server = s.server := by
  unfold HashScene.shutDown
  split <;> rfl

/-- What an act makes of a field is what is written down. -/
theorem lookup_of_act (h : s.act now a = some (deeds, s')) (key n : String) :
    (s'.server.fields (HashStore.hashKey key)).lookup n =
      ((lastWrite? key n deeds).map (·.value)).or
        ((s.server.fields (HashStore.hashKey key)).lookup n) := by
  have hquiet : ∀ {s' : HashScene} {deeds : List Deed},
      (∀ hash, s'.server.fields hash = s.server.fields hash) → hashWrites deeds = [] →
      (s'.server.fields (HashStore.hashKey key)).lookup n =
        ((lastWrite? key n deeds).map (·.value)).or
          ((s.server.fields (HashStore.hashKey key)).lookup n) := by
    intro s' deeds hfields hnone
    rw [hfields, lastWrite?, hnone]
    rfl
  cases a with
  | start name lockKey options handlers =>
    rw [act] at h
    split at h
    · next hfresh =>
      cases h
      rw [(start_cases lockKey options handlers hfresh).1]
      rfl
    · cases h
  | setStatus place instanceName isBusy lockData =>
    obtain ⟨e, hat, heq⟩ := Option.map_eq_some_iff.mp h
    split at heq <;> cases heq <;> exact hquiet (fun _ => rfl) rfl
  | write lockKey field value channel =>
    cases h
    exact lookup_write s ⟨none, lockKey, field, value, now⟩ channel key n
  | outage isAvailable =>
    cases h
    exact hquiet (fun _ => rfl) rfl
  | refuse refuses =>
    cases h
    exact hquiet (fun _ => rfl) rfl
  | breakStream place =>
    obtain ⟨e, hat, heq⟩ := Option.map_eq_some_iff.mp h
    cases heq
    refine hquiet (fun _ => rfl) (List.filterMap_eq_nil_iff.mpr fun d hd => ?_)
    rw [mem_deedsOnBreak hd]
  | listen place wake =>
    obtain ⟨e, hat, heq⟩ := Option.bind_eq_some_iff.mp h
    split at heq
    · cases heq
      refine hquiet (fun _ => ?_) (List.filterMap_eq_nil_iff.mpr fun d hd => ?_)
      · unfold listenAt
        split <;> rfl
      · rcases mem_deedsOnWake hd with rfl | rfl <;> rfl
    · cases heq
  | deliver place event =>
    obtain ⟨e, hat, heq⟩ := Option.bind_eq_some_iff.mp h
    split at heq
    · obtain ⟨⟨r, calls⟩, hstep, heq⟩ := Option.map_eq_some_iff.mp heq
      cases heq
      rcases calls_eq_nil_or_single hstep with rfl | ⟨c, rfl⟩
      · exact hquiet (fun _ => rfl) rfl
      · have hat' : (s.set place { e.store with replicator := r }).stores[place]? =
            some { e with store := { e.store with replicator := r } } := by
          rw [HashScene.set, List.getElem?_modify, hat]
          simp
        rw [List.foldl_cons, List.foldl_nil, server_carryOut hat', List.flatMap_singleton]
        exact lookup_write (s.set place { e.store with replicator := r })
          (writeOf now place e.store c) (HashStore.channelName e.store.lockKey) key n
    · cases heq
  | handle place =>
    obtain ⟨e, hat, heq⟩ := Option.bind_eq_some_iff.mp h
    obtain ⟨⟨house, run, notes⟩, -, heq⟩ := Option.map_eq_some_iff.mp heq
    cases heq
    exact hquiet (fun _ => rfl) rfl
  | shutDown name =>
    cases h
    exact hquiet (fun _ => by rw [server_shutDown]) rfl
  | drop name =>
    cases h
    exact hquiet (fun _ => congrArg (HashServer.fields · _) (server_shutDown s now name)) rfl

/-! ### Along a log -/

/-- What a log says of the stores and of the server. -/
structure Agrees (log : List Deed) (s : HashScene) : Prop where
  unknown : ∀ q, s.storeAt? q = none → ∀ d ∈ log, d.reports q = false
  stores : ∀ q st, s.storeAt? q = some st → Kept q log st
  fields : ∀ key n, (s.server.fields (HashStore.hashKey key)).lookup n =
    (lastWrite? key n log).map (·.value)

theorem Agrees.act (h : Agrees log s) (hact : s.act now a = some (deeds, s')) :
    Agrees (deeds ++ log) s' where
  unknown q hq d hd := by
    obtain ⟨hkeeps, hplaces⟩ := places_of_act hact
    have hold : s.storeAt? q = none := by
      cases hat : s.storeAt? q with
      | none => rfl
      | some st =>
        have hstays := hkeeps q (hat ▸ rfl)
        rw [hq] at hstays
        cases hstays
    rcases List.mem_append.mp hd with hd | hd
    · refine reports_eq_false fun hplace => ?_
      have hthere := hplaces d hd q hplace
      rw [hold] at hthere
      cases hthere
    · exact h.unknown q hold d hd
  stores q st' hq := by
    rcases becomes_of_act hact hq with ⟨hnone, ⟨⟨plan, hfresh⟩, -⟩, rfl⟩ | ⟨st, hst, hb⟩
    · exact .start hfresh (h.unknown q hnone)
    · exact (h.stores q st hst).becomes hb
  fields key n := by
    rw [lookup_of_act hact, h.fields, lastWrite?_append, Option.map_or]

theorem Log.agrees (h : Log punctual now log s) : Agrees log s := by
  induction h with
  | empty => exact ⟨fun _ _ => nofun, fun q st hq => by simp [storeAt?, HashScene.empty] at hq,
      fun key n => rfl⟩
  | wait _ _ _ ih => exact ih
  | act _ hact ih => exact ih.act hact

/-- What a store writes goes into the hash of its lock key. -/
theorem Kept.lockKey_of_wrote (h : Kept place log st) (hv : v ∈ hashWrites log)
    (hwriter : v.writer = some place) : v.lockKey = st.lockKey := by
  obtain ⟨later, earlier, rfl⟩ := List.append_of_mem (mem_hashWrites.mp hv)
  obtain ⟨_, -, hkey, -⟩ := h.stamped v earlier (List.suffix_append later _) hwriter
  exact hkey

/-- If nobody else writes a field, the last write of it is the store's. -/
theorem Kept.ownWrite?_eq (h : Kept place log st)
    (hown : ∀ v ∈ hashWrites log, v.lockKey = st.lockKey → v.field = n → v.writer = some place) :
    ownWrite? place n log = lastWrite? st.lockKey n log := by
  unfold ownWrite? lastWrite?
  rw [← List.head?_filter, ← List.head?_filter]
  refine congrArg List.head? (List.filter_congr fun v hv => ?_)
  rw [Bool.eq_iff_iff, Bool.and_eq_true, Bool.and_eq_true, beq_iff_eq, beq_iff_eq, beq_iff_eq]
  constructor
  · rintro ⟨hwriter, hfield⟩
    exact ⟨h.lockKey_of_wrote hv hwriter, hfield⟩
  · rintro ⟨hkey, hfield⟩
    exact ⟨hown v hv hkey hfield, hfield⟩

/-- **Once nothing is pending for an instance whose field nobody else writes, the field says the
status accepted last, under the lease that started when it was written last. Whatever a store writes
is the status that it accepted last by then, and a status that it refuses changes nothing.** -/
theorem hash_says_last_status (h : Log punctual now log s) (hat : s.storeAt? place = some st) :
    (∀ n w, lastAccepted? place n log = some w →
      (∀ v ∈ hashWrites log, v.lockKey = st.lockKey → v.field = n → v.writer = some place) →
      st.replicator.isPending n = false →
      ∃ v lease, lastWrite? st.lockKey n log = some v ∧
        lease.millis = v.time + st.replicator.plan.expiration.wholeMillis ∧
        (s.server.fields (HashStore.hashKey st.lockKey)).lookup n = some v.value ∧
        HashStore.decode n v.value = ⟨n, w.isBusy, w.lockData.filter (· ≠ ""), some lease⟩) ∧
    (∀ v earlier, .wrote v :: earlier <:+ log → v.writer = some place →
      ∃ w lease, lastAccepted? place v.field earlier = some w ∧
        st.replicator.leaseDeadline v.time = some lease ∧ v.value = w.value lease) ∧
    ∀ instanceName isBusy lockData error st',
      st.setStatus instanceName isBusy lockData = (.error error, st') → st' = st := by
  have hagrees := h.agrees
  have hkept := hagrees.stores place st hat
  refine ⟨fun n w hw hown hsettled => ?_, fun v earlier hsuffix hwriter => ?_,
    fun _ _ _ _ _ hset => (HashStore.eq_of_setStatus_error hset).symm⟩
  · obtain ⟨v, hv, -, lease, hlease, hvalue⟩ := hkept.settled n w hw hsettled
    rw [hkept.ownWrite?_eq hown] at hv
    refine ⟨v, lease, hv, ReplicationPlan.millis_of_leaseDeadline hlease, ?_, ?_⟩
    · rw [hagrees.fields, hv, Option.map_some]
    · rw [hvalue]
      exact HashStore.decode_encode_of_validate n w.isBusy (some lease) (hkept.valid n w hw)
  · obtain ⟨w, hw, -, lease, hlease, hvalue⟩ := hkept.stamped v earlier hsuffix hwriter
    exact ⟨w, lease, hw, hlease, hvalue⟩

/-- A status is refused and another one accepted while the server is away. The first attempt fails,
and a later one succeeds. -/
def outageActs : List (Int × HashAct) :=
  [(0, .start "s" "k" {} {}), (0, .outage false), (1, .setStatus 0 "a" true (some "x;y")),
    (2, .setStatus 0 "a" true (some "job")), (2, .deliver 0 (.resume (.delivery 1))),
    (2, .deliver 0 (.resume (.delivery 1))), (5, .outage true),
    (1002, .deliver 0 (.resume (.delivery 1))), (1002, .deliver 0 (.resume (.delivery 1))),
    (1002, .deliver 0 (.resume (.delivery 1)))]

theorem hash_says_last_status_after_outage : ∃ now log s st, Log false now log s ∧
    s.storeAt? 0 = some st ∧ lastAccepted? 0 "a" log = some ⟨"a", true, some "job"⟩ ∧
    ∃ v lease, lastWrite? st.lockKey "a" log = some v ∧
      lease.millis = v.time + st.replicator.plan.expiration.wholeMillis ∧
      (s.server.fields (HashStore.hashKey st.lockKey)).lookup "a" = some v.value ∧
      HashStore.decode "a" v.value = ⟨"a", true, some "job", some lease⟩ := by
  obtain ⟨now, log, s, hlog, hp⟩ := exists_log_of_replay outageActs
    (fun log s => (s.storeAt? 0).any (!·.replicator.isPending "a") &&
      lastAccepted? 0 "a" log == some ⟨"a", true, some "job"⟩ &&
      (hashWrites log).all (·.writer == some 0))
    (by decide)
  simp only [Bool.and_eq_true, Option.any_eq_true, Bool.not_eq_true', beq_iff_eq,
    List.all_eq_true] at hp
  obtain ⟨⟨⟨st, hat, hsettled⟩, hlast⟩, hown⟩ := hp
  refine ⟨now, log, s, st, hlog, hat, hlast, ?_⟩
  exact (hash_says_last_status hlog hat).1 "a" _ hlast (fun v hv _ _ => hown v hv) hsettled

end HashScene

end Floodgate
