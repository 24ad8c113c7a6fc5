import Floodgate.Proofs.Replication.Line
import Floodgate.Proofs.Replication.Pending
/-!
# Floodgate.Proofs.Replication.InFlight

**The count of attempts in flight is exact, and it gates the loops.** An attempt is a call of a
delivery. A history tells which attempts are under way (`underWay`): each begins with its call, and
it ends when the call returns or when the delivery is dropped with the call in progress. The count
of a replicator is the number of these (`Run.count_attempts`), so no exit of an attempt is missed
and none is counted twice.

A tick of a loop reads the count. It is skipped while an attempt is under way, and otherwise it goes
ahead, whatever the deliveries that do not call are waiting for.

Design points:

* **Attempts are read off deliveries.** The generations that call (`attempting`) are a view of a
  replicator like the others: each function that changes a part has its equation on it.
* **One section begins one attempt, or ends some** (`AttemptChange`). Those that end are the one
  whose call returns, or all those that are dropped.
-/

namespace Floodgate

/-- The generation of a delivery that calls. -/
def Caller.generation? : Caller → Option Nat
  | .delivery g => some g
  | .renewal _ => none

namespace Replicator

variable {α : Type} {r r' : Replicator α} {now : Int} {event : Event α} {calls : List (Call α)}

/-! ### The attempts of a replicator -/

/-- The generations whose deliveries call. -/
def callingIn (deliveries : List (Delivery α)) : List Nat :=
  (deliveries.filter (·.stage = .calling)).map (·.generation)

/-- The generations whose attempts are in progress. -/
def attempting (r : Replicator α) : List Nat := callingIn r.deliveries

theorem mem_callingIn {l : List (Delivery α)} {g : Nat} :
    g ∈ callingIn l ↔ ∃ d ∈ l, d.stage = .calling ∧ d.generation = g := by
  simp [callingIn, and_assoc]

theorem mem_attempting {g : Nat} :
    g ∈ r.attempting ↔ ∃ d ∈ r.deliveries, d.stage = .calling ∧ d.generation = g :=
  mem_callingIn

theorem Sound.nodup_attempting (h : Sound r) : r.attempting.Nodup :=
  Keyed.nodup_filter h.generations

/-- Changes that leave generations and stages alone leave the attempts alone. -/
theorem callingIn_map {f : Delivery α → Delivery α}
    (hf : ∀ d, (f d).generation = d.generation ∧ (f d).stage = d.stage)
    (l : List (Delivery α)) : callingIn (l.map f) = callingIn l := by
  unfold callingIn
  rw [List.filter_map, List.map_map]
  have hstage : ((fun d : Delivery α => decide (d.stage = .calling)) ∘ f) =
      fun d => decide (d.stage = .calling) := by
    funext d
    simp [(hf d).2]
  rw [hstage]
  exact List.map_congr_left fun d _ => (hf d).1

theorem callingIn_filter (p : Nat → Bool) (l : List (Delivery α)) :
    callingIn (l.filter fun d => p d.generation) = (callingIn l).filter p := by
  unfold callingIn
  rw [List.filter_map, List.filter_filter, List.filter_filter]
  simp only [Function.comp_apply, Bool.and_comm]

@[simp] theorem attempting_register (r : Replicator α) (key : String) (action : α) :
    (r.register key action).1.attempting = r.attempting := by
  have hkept := callingIn_map (fun d => ⟨withdrawn_generation (r.pendingOf key) d,
    (withdrawn_fields (r.pendingOf key) d).2.2.2.2.2⟩) r.deliveries
  unfold attempting
  rw [deliveries_register]
  simpa [callingIn, freshDelivery] using hkept

theorem attempting_forget (r : Replicator α) (key : String) :
    (r.forget key).attempting = r.attempting := by
  rw [forget_eq]
  exact callingIn_map (fun d => ⟨withdrawn_generation _ d,
    (withdrawn_fields _ d).2.2.2.2.2⟩) r.deliveries

/-- A flush begins no attempt and ends none. -/
theorem flush_inFlight (r : Replicator α) :
    r.flush.1.attempting = r.attempting ∧ r.flush.1.inFlight = r.inFlight := by
  refine flush_induction (motive := fun r₁ => r₁.attempting = r.attempting ∧
    r₁.inFlight = r.inFlight) ?_ r ⟨rfl, rfl⟩
  intro r₁ key _ action h _
  obtain ⟨-, -, -, -, hinFlight, -⟩ := r₁.register_frame key action
  exact ⟨(attempting_register r₁ key action).trans h.1, hinFlight.trans h.2⟩

theorem attempting_finish (r : Replicator α) (g : Nat) :
    (r.finish g).attempting = r.attempting.filter (· ≠ g) :=
  callingIn_filter (fun g' => decide (g' ≠ g)) r.deliveries

theorem attempting_drop (r : Replicator α) (generations : List Nat) :
    (r.drop generations).attempting = r.attempting.filter (· ∉ generations) :=
  callingIn_filter (fun g => decide (g ∉ generations)) r.deliveries

/-- The count goes down by the calls that are dropped. -/
theorem inFlight_drop (r : Replicator α) (generations : List Nat) : (r.drop generations).inFlight =
    r.inFlight - (r.attempting.filter (· ∈ generations)).length := by
  have hdropped := callingIn_filter (fun g => decide (g ∈ generations)) r.deliveries
  have hlength := congrArg List.length hdropped
  rw [callingIn, List.length_map] at hlength
  show r.inFlight - _ = _
  rw [attempting, ← hlength]
  congr 3

/-- A delivery that moves to another stage than that of calling is in no attempt. -/
theorem attempting_updateDelivery (r : Replicator α) (g : Nat) {f : Delivery α → Delivery α}
    (hf : ∀ d, (f d).stage ≠ .calling) :
    (r.updateDelivery g f).attempting = r.attempting.filter (· ≠ g) := by
  simp only [attempting, updateDelivery]
  induction r.deliveries with
  | nil => rfl
  | cons d rest ih =>
    unfold callingIn at ih ⊢
    rw [List.map_cons, List.filter_cons, List.filter_cons]
    by_cases hg : d.generation = g
    · rw [if_pos hg, if_neg (by simpa using hf d), ih]
      split
      · simp [hg]
      · rfl
    · rw [if_neg hg]
      split
      · rw [List.map_cons, ih, List.map_cons, List.filter_cons, if_pos (by simpa using hg)]
      · exact ih

/-- Nothing is taken out of the attempts with a delivery that does not call. -/
theorem Sound.attempting_filter_of_idle (h : Sound r) {d : Delivery α} (hd : d ∈ r.deliveries)
    (hidle : d.stage ≠ .calling) : r.attempting.filter (· ≠ d.generation) = r.attempting := by
  refine List.filter_eq_self.mpr fun g hg => decide_eq_true ?_
  obtain ⟨d', hd', hcalling, rfl⟩ := mem_attempting.mp hg
  intro hsame
  exact hidle (h.eq_of_generation hd' hd hsame ▸ hcalling)

/-- A delivery that does not call may move about without calling. -/
theorem Sound.attempting_moved (h : Sound r) {d : Delivery α} (hd : d ∈ r.deliveries)
    (hidle : d.stage ≠ .calling) {stage : Delivery.Stage} (hstage : stage ≠ .calling) :
    (r.updateDelivery d.generation (inStage stage)).attempting = r.attempting :=
  (attempting_updateDelivery r d.generation fun _ => hstage).trans
    (h.attempting_filter_of_idle hd hidle)

/-- One attempt is taken out with a delivery that calls. -/
theorem Sound.attempting_filter_of_calling (h : Sound r) {d : Delivery α} (hd : d ∈ r.deliveries)
    (hcalling : d.stage = .calling) :
    (r.attempting.filter (· ∈ [d.generation])).length = 1 := by
  have hmem : d.generation ∈ r.attempting := mem_attempting.mpr ⟨d, hd, hcalling, rfl⟩
  have hone := Keyed.filter_eq_single (f := id) (by simpa using h.nodup_attempting) hmem
  simpa using congrArg List.length hone

/-- One attempt is added with a delivery that starts to call. -/
theorem Sound.perm_attempting (h : Sound r) {d : Delivery α} (hd : d ∈ r.deliveries)
    (hidle : d.stage ≠ .calling) :
    (r.updateDelivery d.generation (inStage .calling)).attempting.Perm
      (d.generation :: r.attempting) := by
  have hnodup : (r.updateDelivery d.generation (inStage .calling)).attempting.Nodup :=
    Keyed.nodup_filter ((Keyed.map_key_map fun d₀ =>
      Keyed.key_ite (f := Delivery.generation) (g := inStage .calling)
        (fun _ => rfl) d₀).symm ▸ h.generations)
  have hnew : d.generation ∉ r.attempting := by
    intro hg
    obtain ⟨d₀, hd₀, hcalling, hsame⟩ := mem_attempting.mp hg
    exact hidle (h.eq_of_generation hd₀ hd hsame ▸ hcalling)
  refine (List.perm_ext_iff_of_nodup hnodup
    (List.nodup_cons.mpr ⟨hnew, h.nodup_attempting⟩)).mpr fun g => ?_
  rw [List.mem_cons]
  constructor
  · intro hg
    obtain ⟨d', hd', hcalling, rfl⟩ := mem_attempting.mp hg
    obtain ⟨d₀, hd₀, rfl⟩ := mem_updateDelivery.mp hd'
    by_cases hsame : d₀.generation = d.generation
    · rw [if_pos hsame]
      exact .inl hsame
    · rw [if_neg hsame] at hcalling ⊢
      exact .inr (mem_attempting.mpr ⟨d₀, hd₀, hcalling, rfl⟩)
  · intro hg
    rcases hg with hg | hg
    · refine mem_attempting.mpr ⟨inStage .calling d, ?_, rfl, hg.symm⟩
      exact mem_updateDelivery.mpr ⟨d, hd, (if_pos rfl).symm⟩
    · obtain ⟨d₀, hd₀, hcalling, rfl⟩ := mem_attempting.mp hg
      refine mem_attempting.mpr ⟨_, mem_updateDelivery.mpr ⟨d₀, hd₀, rfl⟩, ?_⟩
      split <;> exact ⟨by simp [inStage, hcalling], rfl⟩

/-! ### One section -/

/-- The attempts that a section begins. -/
def Moment.begun (m : Moment α) : List Nat := m.calls.filterMap (·.caller.generation?)

/-- Whether a section ends the attempt of a generation: its call returns, or the delivery is dropped
with the call in progress. -/
def Moment.endsAttempt (m : Moment α) (g : Nat) : Bool :=
  (m.event.outcome? (.delivery g)).isSome || (m.after.delivery? g).isNone

/-- What a section does to the attempts and to their count. -/
inductive AttemptChange (m : Moment α) : Prop where
  /-- A delivery calls. -/
  | begins (g : Nat) (hbegun : m.begun = [g])
      (hattempts : m.after.attempting.Perm (g :: m.before.attempting))
      (hcount : m.after.inFlight = m.before.inFlight + 1)
      (hkept : ∀ g' ∈ m.before.attempting, m.endsAttempt g' = false)
  /-- Some attempts end, or none. -/
  | ends (ended : List Nat) (hbegun : m.begun = [])
      (hattempts : m.after.attempting = m.before.attempting.filter (· ∉ ended))
      (hcount : m.after.inFlight =
        m.before.inFlight - (m.before.attempting.filter (· ∈ ended)).length)
      (hended : ∀ g ∈ m.before.attempting, m.endsAttempt g = true ↔ g ∈ ended)

theorem isSome_outcome?_iff {caller : Caller} :
    (event.outcome? caller).isSome = true ↔ ∃ ok, event = .callEnded caller ok := by
  cases event <;> simp [Event.outcome?, and_comm]

/-- An attempt goes on if its call has not returned and the delivery still calls. -/
theorem Moment.endsAttempt_eq_false {m : Moment α} (h : Sound m.after) {g : Nat}
    (hevent : ∀ ok, m.event ≠ .callEnded (.delivery g) ok) (hg : g ∈ m.after.attempting) :
    m.endsAttempt g = false := by
  obtain ⟨d, hd, -, rfl⟩ := mem_attempting.mp hg
  have hnone : (m.event.outcome? (.delivery d.generation)).isSome = false := by
    rw [Bool.eq_false_iff]
    intro hsome
    obtain ⟨ok, heq⟩ := isSome_outcome?_iff.mp hsome
    exact hevent ok heq
  simp [Moment.endsAttempt, hnone, h.delivery?_of_mem hd]

/-- A section that ends no call and leaves the attempts and their count alone. -/
theorem AttemptChange.same {m : Moment α} (h : Sound m.after) (hbegun : m.begun = [])
    (hattempts : m.after.attempting = m.before.attempting)
    (hcount : m.after.inFlight = m.before.inFlight)
    (hevent : ∀ g ok, m.event ≠ .callEnded (.delivery g) ok) : AttemptChange m := by
  refine .ends [] hbegun (by simp [hattempts]) (by simp [hcount]) fun g hg => ?_
  simp [Moment.endsAttempt_eq_false h (hevent g) (hattempts ▸ hg)]

/-- Some deliveries leave, or stop calling, and the count goes down by those that called. -/
theorem AttemptChange.shed {m : Moment α} (h : Sound m.after) (ended : List Nat)
    (hbegun : m.begun = [])
    (hattempts : m.after.attempting = m.before.attempting.filter (· ∉ ended))
    (hcount : m.after.inFlight =
      m.before.inFlight - (m.before.attempting.filter (· ∈ ended)).length)
    (hevent : ∀ g ok, m.event = .callEnded (.delivery g) ok → g ∈ ended)
    (hends : ∀ g ∈ ended, m.endsAttempt g = true) : AttemptChange m := by
  refine .ends ended hbegun hattempts hcount fun g hg => ⟨fun hended => ?_, hends g⟩
  by_contra hout
  have hstill : g ∈ m.after.attempting := by
    rw [hattempts]
    exact List.mem_filter.mpr ⟨hg, decide_eq_true hout⟩
  rw [Moment.endsAttempt_eq_false h (fun ok heq => hout (hevent g ok heq)) hstill] at hended
  cases hended

/-- The call of a delivery returns. -/
theorem AttemptChange.returned (h : Sound r) (h' : Sound r') {d : Delivery α} {ok : Bool}
    (hd : d ∈ r.deliveries) (hcalling : d.stage = .calling)
    (hattempts : r'.attempting = r.attempting.filter (· ≠ d.generation))
    (hcount : r'.inFlight = r.inFlight - 1) :
    AttemptChange ⟨r, now, .callEnded (.delivery d.generation) ok, r', []⟩ := by
  refine AttemptChange.shed h' [d.generation] rfl ?_ ?_ ?_ ?_
  · simpa using hattempts
  · rw [h.attempting_filter_of_calling hd hcalling]
    exact hcount
  · intro g _ heq
    cases heq
    exact List.mem_singleton_self _
  · intro g hg
    obtain rfl := List.mem_singleton.mp hg
    simp [Moment.endsAttempt, Event.outcome?]

/-- Deliveries are dropped, some of them perhaps in the middle of a call. -/
theorem AttemptChange.dropped (h' : Sound r') (generations : List Nat)
    (hdeliveries : r'.deliveries = (r.drop generations).deliveries)
    (hcount : r'.inFlight = (r.drop generations).inFlight)
    (hevent : ∀ g ok, event ≠ .callEnded (.delivery g) ok) :
    AttemptChange ⟨r, now, event, r', []⟩ := by
  refine AttemptChange.shed h' generations rfl ?_ ?_
    (fun g ok heq => absurd heq (hevent g ok)) ?_
  · rw [← attempting_drop]
    exact congrArg callingIn hdeliveries
  · rw [← inFlight_drop]
    exact hcount
  · intro g hg
    have hgone : r'.delivery? g = none := by
      rw [delivery?, hdeliveries]
      refine Keyed.find?_eq_none_iff.mpr fun d hd heq => ?_
      have hout := (List.mem_filter.mp hd).2
      simp [heq, hg] at hout
    simp [Moment.endsAttempt, hgone]

/-- **What one section does to the attempts.** -/
theorem attempts_of_section (h : Sound r) (hs : Section r now event r' calls) :
    AttemptChange ⟨r, now, event, r', calls⟩ := by
  have h' := h.section hs
  cases hs with
  | registered key action =>
    exact .same h' rfl (attempting_register r key action)
      (r.register_frame key action).2.2.2.2.1 (by simp)
  | forgotten key =>
    exact .same h' rfl (attempting_forget r key) (by rw [forget_eq]) (by simp)
  | flushed => exact .same h' rfl r.flush_inFlight.1 r.flush_inFlight.2 (by simp)
  | ended hd hstage =>
    refine .same h' rfl ?_ rfl (by simp)
    exact (attempting_finish r _).trans (h.attempting_filter_of_idle (mem_of_delivery? hd) hstage)
  | @queued d hd hstage =>
    exact .same h' rfl (h.attempting_moved (mem_of_delivery? hd) (by simp [hstage]) (by simp)) rfl
      (by simp)
  | @died d =>
    obtain ⟨generations, _, _, -, hperish⟩ := r.perish_eq_drop d.generation
    rw [hperish] at h' ⊢
    exact .dropped h' generations rfl rfl (by simp)
  | @called d lease hd hstage =>
    have hperm := h.perm_attempting (mem_of_delivery? hd) (by simp [hstage])
    refine .begins d.generation rfl hperm rfl fun g hg => ?_
    exact Moment.endsAttempt_eq_false h' (by simp) (hperm.mem_iff.mpr (List.mem_cons_of_mem _ hg))
  | @woken d until_ hd hstage =>
    exact .same h' rfl (h.attempting_moved (mem_of_delivery? hd) (by simp [hstage]) (by simp)) rfl
      (by simp)
  | renewed => exact .same h' rfl rfl rfl (by simp)
  | @delivered d hd hcalling =>
    exact .returned h h' (mem_of_delivery? hd) hcalling (attempting_finish _ d.generation) rfl
  | @retried d delay hd hcalling =>
    refine .returned h h' (mem_of_delivery? hd) hcalling ?_ rfl
    exact attempting_updateDelivery (r.attemptOver d.generation) d.generation
      fun _ => by simp [inBackoff]
  | @abandoned d hd hcalling =>
    exact .returned h h' (mem_of_delivery? hd) hcalling (attempting_finish _ d.generation) rfl
  | renewalTicked =>
    refine .same h' rfl ?_ ?_ (by simp)
    · rw [renewAll_eq]; split <;> rfl
    · rw [renewAll_eq]; split <;> rfl
  | @recoveryTicked due =>
    have hflush := flush_inFlight { r with
      recoveryTick := some (due + r.plan.recovery.timerMillis) }
    refine .same h' rfl ?_ ?_ (by simp)
    · exact recover_elim (motive := fun r₁ => r₁.attempting = r.attempting) _ rfl fun _ => hflush.1
    · exact recover_elim (motive := fun r₁ => r₁.inFlight = r.inFlight) _ rfl fun _ => hflush.2
  | shutDown =>
    exact .same h' rfl (callingIn_map (f := fun d => { d with cancelled := true })
      (fun _ => ⟨rfl, rfl⟩) r.deliveries) rfl (by simp)
  | recoveryStopped => exact .dropped h' r.recovering rfl rfl (by simp)
  | _ => exact .same h' rfl rfl rfl (by simp)

/-! ### Histories -/

/-- The attempts of a history that have begun and have not ended. -/
def underWay : List (Moment α) → List Nat
  | [] => []
  | m :: past => m.begun ++ (underWay past).filter fun g => !m.endsAttempt g

theorem AttemptChange.perm_underWay {m : Moment α} {past : List (Moment α)}
    (hchange : AttemptChange m) (hperm : m.before.attempting.Perm (underWay past)) :
    m.after.attempting.Perm (underWay (m :: past)) := by
  have hfiltered := hperm.filter fun g => !m.endsAttempt g
  rw [underWay]
  cases hchange with
  | begins g hbegun hattempts _ hkept =>
    have hall : (m.before.attempting.filter fun g => !m.endsAttempt g) = m.before.attempting :=
      List.filter_eq_self.mpr fun g' hg' => by simp [hkept g' hg']
    rw [hall] at hfiltered
    rw [hbegun]
    exact hattempts.trans (hfiltered.cons g)
  | ends ended hbegun hattempts _ hended =>
    have hsame : m.before.attempting.filter (· ∉ ended) =
        m.before.attempting.filter fun g => !m.endsAttempt g :=
      List.filter_congr fun g hg => by simp [← hended g hg]
    rw [hbegun, List.nil_append, hattempts, hsame]
    exact hfiltered

/-- The count goes up by what begins and down by what ends. -/
theorem AttemptChange.count {m : Moment α} (hchange : AttemptChange m)
    (hbefore : m.before.inFlight = m.before.attempting.length) :
    m.after.inFlight = m.after.attempting.length ∧
      m.after.inFlight + (m.before.attempting.filter m.endsAttempt).length =
        m.before.inFlight + m.begun.length := by
  cases hchange with
  | begins g hbegun hattempts hcount hkept =>
    have hnone : m.before.attempting.filter m.endsAttempt = [] :=
      List.filter_eq_nil_iff.mpr fun g' hg' => by simp [hkept g' hg']
    rw [hattempts.length_eq, hnone, hbegun, hcount, hbefore]
    simp
  | ends ended hbegun hattempts hcount hended =>
    have hsame : m.before.attempting.filter m.endsAttempt =
        m.before.attempting.filter (· ∈ ended) :=
      List.filter_congr fun g hg => by simp [← hended g hg]
    have hsplit := List.length_eq_length_filter_add (l := m.before.attempting) (· ∈ ended)
    have hkept : (m.before.attempting.filter fun g => !decide (g ∈ ended)) =
        m.after.attempting := by simp [hattempts]
    rw [hkept] at hsplit
    rw [hsame, hbegun, hcount, hbefore]
    simp only [List.length_nil]
    omega

variable {plan : ReplicationPlan} {since : Int} {history : List (Moment α)}

theorem Run.perm_underWay (h : Run plan since history r) :
    r.attempting.Perm (underWay history) := by
  induction h with
  | start => exact .nil
  | next hpast hstep ih =>
    exact (attempts_of_section hpast.sound (section_of_step hstep)).perm_underWay ih

theorem Run.count_attempts (h : Run plan since history r) :
    r.inFlight = r.attempting.length := by
  induction h with
  | start => rfl
  | next hpast hstep ih =>
    exact ((attempts_of_section hpast.sound (section_of_step hstep)).count ih).1

/-! ### Ticks that are skipped -/

/-- A tick that does nothing but put off the next one. -/
structure Moment.Skipped (m : Moment α) : Prop where
  calls : m.calls = []
  after : m.after = { m.before with
    renewalTick := m.after.renewalTick
    recoveryTick := m.after.recoveryTick }

theorem skipped_of_renewalTick (hs : Section r now .renewalTick r' calls)
    (hbusy : r.inFlight ≠ 0) :
    Moment.Skipped ⟨r, now, .renewalTick, r', calls⟩ ∧ r'.renewals = [] := by
  cases hs with
  | renewalTicked htick hdue hidle =>
    have hnone : r.renewals = [] := by simpa [isRenewing] using hidle
    rw [renewAll_eq, if_neg hbusy]
    exact ⟨⟨rfl, rfl⟩, hnone⟩

theorem skipped_of_recoveryTick (hs : Section r now .recoveryTick r' calls)
    (hbusy : r.inFlight ≠ 0) :
    Moment.Skipped ⟨r, now, .recoveryTick, r', calls⟩ ∧ r'.isRecovering = false := by
  cases hs with
  | recoveryTicked htick hdue hidle =>
    rw [recover, if_neg hbusy]
    exact ⟨⟨rfl, rfl⟩, hidle⟩

/-! ### Ticks that go ahead -/

/-- A renewal of an entry is in line for the lane of the entry. If nobody was in line before it, it
calls the write of the entry as soon as it goes on. -/
def Moment.Renews (m : Moment α) (e : ReplicationEntry α) : Prop :=
  ∃ n ∈ m.after.renewals, n.key = e.key ∧ n.lane = e.lane ∧ n.calling = false ∧
    n.claim ∈ m.after.claims ∧
    ((∀ c ∈ m.before.claims, c.lane ≠ e.lane) →
      ∀ now lease, m.after.leaseDeadline now = some lease →
        ∃ r', m.after.step now (.resume (.renewal n.number)) =
          some (r', [⟨.renewal n.number, e.key, e.current, lease⟩]))

/-- The first renewal in line among those that a tick starts for a lane is one of the entry that
goes by the lane. -/
theorem exists_first_freshRenewal (h : Sound r) (hlanes : Lanes r) {e : ReplicationEntry α}
    (he : e ∈ r.entries) (first : Nat) : ∃ n ∈ freshRenewals first r.entries,
      n.key = e.key ∧ n.lane = e.lane ∧ n.calling = false ∧
      ((freshRenewals first r.entries).map Renewal.claim).find? (·.lane == e.lane) =
        some n.claim := by
  obtain ⟨n₀, hn₀, hkey₀⟩ := exists_freshRenewal first he
  obtain ⟨-, -, e₀, he₀, hkey, hlane₀⟩ := mem_freshRenewals hn₀
  obtain rfl := Keyed.eq_of_key_eq h.keys he₀ he (hkey.symm.trans hkey₀)
  obtain ⟨c, hc⟩ : ∃ c, ((freshRenewals first r.entries).map Renewal.claim).find?
      (·.lane == e₀.lane) = some c := by
    refine Option.isSome_iff_exists.mp (List.find?_isSome.mpr ?_)
    exact ⟨n₀.claim, List.mem_map_of_mem hn₀, beq_iff_eq.mpr hlane₀⟩
  obtain ⟨n, hn, rfl⟩ := List.mem_map.mp (List.mem_of_find?_eq_some hc)
  have hlane : n.claim.lane = e₀.lane := Keyed.key_of_find? hc
  obtain ⟨-, hidle, e₁, he₁, hkey₁, hlane₁⟩ := mem_freshRenewals hn
  have hsame : e₁.key = e₀.key := hlanes.one_key e₀.lane _ _
    (.inl ⟨e₁, he₁, hlane₁.symm.trans hlane, rfl⟩) (.inl ⟨e₀, he₀, rfl, rfl⟩)
  exact ⟨n, hn, hkey₁.trans hsame, hlane, hidle, hc⟩

theorem renews_of_renewalTick (h : Sound r) (hlanes : Lanes r)
    (hs : Section r now .renewalTick r' calls) (hfree : r.inFlight = 0)
    {e : ReplicationEntry α} (he : e ∈ r.entries) :
    Moment.Renews ⟨r, now, .renewalTick, r', calls⟩ e := by
  have h' := h.section hs
  obtain ⟨n, hn, hkey, hlane, hidle, hfirst⟩ :=
    exists_first_freshRenewal h hlanes he r.nextRenewal
  have hparts : r'.entries = r.entries ∧
      r'.renewals = r.renewals ++ freshRenewals r.nextRenewal r.entries ∧
      r'.claims = r.claims ++ (freshRenewals r.nextRenewal r.entries).map Renewal.claim := by
    cases hs
    rw [renewAll_eq, if_pos hfree]
    exact ⟨rfl, rfl, rfl⟩
  obtain ⟨hentries, hrenewals, hclaims⟩ := hparts
  have hmem : n ∈ r'.renewals := hrenewals ▸ List.mem_append_right _ hn
  refine ⟨n, hmem, hkey, hlane, hidle, ?_, fun hnobody now' lease hlease => ?_⟩
  · show n.claim ∈ r'.claims
    rw [hclaims]
    exact List.mem_append_right _ (List.mem_map_of_mem hn)
  · have hholds : r'.holds n.lane (.renewal n.number) = true := by
      have hnone : r.claims.find? (·.lane == e.lane) = none := Keyed.find?_eq_none_iff.mpr hnobody
      rw [holds_iff, hclaims, hlane, List.find?_append, hnone, Option.none_or, hfirst]
      rfl
    have hentry : r'.entryFor? n.key = some e := by
      rw [entryFor?, hentries, hkey]
      exact h.entryFor?_of_mem he
    have hstep := step_renewed (h'.renewal?_of_mem hmem) hidle hholds hentry hlease
    rw [hkey] at hstep
    exact ⟨_, hstep⟩

/-- A key whose delivery has given up has a new delivery of its latest write. If nobody was in line
for its lane and the replicator is up, the delivery calls as soon as it goes on twice. -/
def Moment.Recovers (m : Moment α) (key : String) : Prop :=
  ∃ d ∈ m.after.deliveries, d.key = key ∧ d.stage = .ready ∧
    d.cancelled = m.before.isShutDown ∧ m.before.nextGeneration ≤ d.generation ∧
    m.after.pendingOf key = some ⟨d.generation, true⟩ ∧
    (m.before.entryFor? key).map (·.current) = some d.action ∧
    ((∀ c ∈ m.before.claims, c.lane ≠ d.lane) → m.before.isShutDown = false →
      ∀ now now' lease, m.after.leaseDeadline now' = some lease →
        ∃ r₁ r₂, m.after.step now (.resume (.delivery d.generation)) = some (r₁, []) ∧
          r₁.step now' (.resume (.delivery d.generation)) =
            some (r₂, [⟨.delivery d.generation, key, d.action, lease⟩]))

/-- What a series of registrations of abandoned writes has started. -/
structure Started (r r₁ : Replicator α) : Prop where
  isShutDown : r₁.isShutDown = r.isShutDown
  le_nextGeneration : r.nextGeneration ≤ r₁.nextGeneration
  /-- Only what had given up before has given up. -/
  abandoned : ∀ k g, r₁.pendingOf k = some ⟨g, false⟩ → g < r.nextGeneration
  /-- A new mark names a delivery that is there. -/
  trying : ∀ k g, r₁.pendingOf k = some ⟨g, true⟩ → r.nextGeneration ≤ g →
    ∃ d ∈ r₁.deliveries, d.generation = g ∧ d.key = k ∧ d.stage = .ready ∧
      d.cancelled = r.isShutDown ∧ (r₁.entryFor? k).map (·.current) = some d.action

theorem Started.register {r₁ : Replicator α} (h : Started r r₁) {key : String} {g : Nat}
    {action : α} (hwrite : r₁.abandonedWrite? key g = some action) :
    Started r (r₁.register key action).1 where
  isShutDown := (r₁.register_frame key action).2.2.2.2.2.2.1.trans h.isShutDown
  le_nextGeneration := by
    rw [nextGeneration_register]
    exact Nat.le_succ_of_le h.le_nextGeneration
  abandoned k g' hp := by
    rw [pendingOf_register] at hp
    split at hp
    · cases hp
    · exact h.abandoned k g' hp
  trying k g' hp hnew := by
    rw [pendingOf_register] at hp
    rw [deliveries_register, entryFor?_register]
    by_cases hk : k = key
    · rw [if_pos hk] at hp ⊢
      cases hp
      exact ⟨_, List.mem_append_right _ (List.mem_singleton_self _), rfl, hk.symm, rfl,
        h.isShutDown, rfl⟩
    · rw [if_neg hk] at hp ⊢
      obtain ⟨d, hd, rfl, hd'⟩ := h.trying k g' hp hnew
      -- the mark that is taken up is of a generation that had given up before
      have hmark := abandonedWrite?_pendingOf hwrite
      have hlt := h.abandoned key g hmark
      have hother : withdrawn (r₁.pendingOf key) d = d := by
        refine if_neg ?_
        rw [hmark]
        simp only [Option.map_some, Option.some.injEq]
        omega
      refine ⟨d, List.mem_append_left _ (List.mem_map.mpr ⟨d, hd, hother⟩), rfl, hd'⟩

/-- A flush starts a delivery of what was given up. -/
theorem Sound.delivery_of_flush (h : Sound r) {key : String} {g : Nat}
    (hmark : r.pendingOf key = some ⟨g, false⟩) :
    ∃ d ∈ r.flush.1.deliveries, d.key = key ∧ d.stage = .ready ∧ d.cancelled = r.isShutDown ∧
      r.nextGeneration ≤ d.generation ∧ r.flush.1.pendingOf key = some ⟨d.generation, true⟩ ∧
      (r.entryFor? key).map (·.current) = some d.action := by
  have hstarted : Started r r.flush.1 := by
    refine flush_induction (fun _ _ _ _ h₁ hwrite => h₁.register hwrite) r
      ⟨rfl, Nat.le_refl _, fun k g' hp => h.pending_lt k _ hp, fun k g' hp hnew => ?_⟩
    exact absurd (h.pending_lt k _ hp) (Nat.not_lt.mpr hnew)
  obtain ⟨g', hle, hg'⟩ := flush_abandoned hmark
  obtain ⟨d, hd, rfl, hkey, hready, hcancelled, haction⟩ := hstarted.trying key g' hg' hle
  refine ⟨d, hd, hkey, hready, hcancelled, hle, hg', ?_⟩
  have hsame := congrArg (Option.map Prod.fst) (SameWrite.flush r key)
  rw [Option.map_map, Option.map_map] at hsame
  exact hsame.symm.trans haction

/-- A delivery whose lane is free gets in line and calls. -/
theorem Sound.calls_of_ready (h : Sound r) {d : Delivery α} (hd : d ∈ r.deliveries)
    (hready : d.stage = .ready) (hlive : d.cancelled = false)
    (hnobody : ∀ c ∈ r.claims, c.lane ≠ d.lane) {now' : Int} {lease : Timestamp}
    (hlease : r.leaseDeadline now' = some lease) :
    ∃ r₁ r₂, r.step now (.resume (.delivery d.generation)) = some (r₁, []) ∧
      r₁.step now' (.resume (.delivery d.generation)) =
        some (r₂, [⟨.delivery d.generation, d.key, d.action, lease⟩]) := by
  have hqueue := @step_queued _ r now d (h.delivery?_of_mem hd) hready hlive
  generalize hr₁ : (r.updateDelivery d.generation (inStage .queued)).claim d.lane
    (.delivery d.generation) = r₁ at hqueue
  have hmem : inStage .queued d ∈ r₁.deliveries := by
    rw [← hr₁]
    exact mem_updateDelivery.mpr ⟨d, hd, (if_pos rfl).symm⟩
  have hholds : r₁.holds d.lane (.delivery d.generation) = true := by
    have hnone : r.claims.find? (·.lane == d.lane) = none := Keyed.find?_eq_none_iff.mpr hnobody
    rw [← hr₁, holds_iff]
    simp [claim, Replicator.updateDelivery, List.find?_append, hnone]
  have hleaseThen : r₁.leaseDeadline now' = some lease := by
    rw [← hr₁]
    exact hlease
  have hcall := step_called ((h.step hqueue).delivery?_of_mem hmem) rfl hholds hlive hleaseThen
  exact ⟨r₁, _, hqueue, hcall⟩

theorem recovers_of_recoveryTick (h : Sound r) (hs : Section r now .recoveryTick r' calls)
    (hfree : r.inFlight = 0) {key : String} {g : Nat}
    (hmark : r.pendingOf key = some ⟨g, false⟩) :
    Moment.Recovers ⟨r, now, .recoveryTick, r', calls⟩ key := by
  have h' := h.section hs
  cases hs with
  | @recoveryTicked due =>
    have htick : Sound { r with recoveryTick := some (due + r.plan.recovery.timerMillis) } :=
      h.congr rfl rfl rfl rfl rfl rfl
    obtain ⟨d, hd, rfl, hready, hcancelled, hnew, hp, haction⟩ := htick.delivery_of_flush hmark
    have hclaims := (flush_frame { r with
      recoveryTick := some (due + r.plan.recovery.timerMillis) }).2.2.1
    rw [recover, if_pos hfree] at h' ⊢
    refine ⟨d, hd, rfl, hready, hcancelled, hnew, hp, haction, ?_⟩
    intro hnobody hup now₁ now₂ lease hlease
    refine h'.calls_of_ready hd hready (hcancelled.trans hup) ?_ hlease
    intro c hc
    exact hnobody c (hclaims ▸ hc)

/-- **In every state the count is the number of the attempts that are under way, which are those of
the deliveries that call. Each section takes from the count as much as ends, so it never falls
short. A tick of a loop is skipped while an attempt is under way. Otherwise a tick of the renewal
loop renews every entry, and a tick of the recovery loop takes up everything that was given up.** -/
theorem inFlight_gates_ticks (h : Run plan since history r) :
    (r.inFlight = (underWay history).length ∧ (underWay history).Nodup ∧
      ∀ g, g ∈ underWay history ↔ ∃ d ∈ r.deliveries, d.stage = .calling ∧ d.generation = g) ∧
    ∀ later m earlier, history = later ++ m :: earlier →
      m.after.inFlight + ((underWay earlier).filter m.endsAttempt).length =
        m.before.inFlight + m.begun.length ∧
      (m.event = .renewalTick →
        (underWay earlier ≠ [] → m.Skipped ∧ m.after.renewals = []) ∧
        (underWay earlier = [] → ∀ e ∈ m.before.entries, m.Renews e)) ∧
      (m.event = .recoveryTick →
        (underWay earlier ≠ [] → m.Skipped ∧ m.after.isRecovering = false) ∧
        (underWay earlier = [] →
          ∀ key g, m.before.pendingOf key = some ⟨g, false⟩ → m.Recovers key)) := by
  constructor
  · have hperm := h.perm_underWay
    refine ⟨h.count_attempts.trans hperm.length_eq, hperm.nodup_iff.mp h.sound.nodup_attempting,
      fun g => ?_⟩
    rw [← hperm.mem_iff]
    exact mem_attempting
  · intro later m earlier hhistory
    rw [hhistory] at h
    obtain ⟨hbefore, -, hs⟩ := h.split
    have hsound := hbefore.sound
    have hperm := hbefore.perm_underWay
    have hcount := hbefore.count_attempts
    -- the tick reads the count, the history says what is under way
    have hbusy : underWay earlier ≠ [] → m.before.inFlight ≠ 0 := by
      intro hsome hzero
      rw [hcount, hperm.length_eq] at hzero
      exact hsome (List.length_eq_zero_iff.mp hzero)
    have hfree : underWay earlier = [] → m.before.inFlight = 0 := by
      intro hnone
      rw [hcount, hperm.length_eq, hnone]
      rfl
    obtain ⟨before, now, event, after, calls⟩ := m
    refine ⟨?_, ?_, ?_⟩
    · rw [← (hperm.filter _).length_eq]
      exact ((attempts_of_section hsound hs).count hcount).2
    · intro hevent
      obtain rfl : event = .renewalTick := hevent
      exact ⟨fun hsome => skipped_of_renewalTick hs (hbusy hsome),
        fun hnone e he => renews_of_renewalTick hsound hbefore.lanes hs (hfree hnone) he⟩
    · intro hevent
      obtain rfl : event = .recoveryTick := hevent
      exact ⟨fun hsome => skipped_of_recoveryTick hs (hbusy hsome),
        fun hnone key g hmark => recovers_of_recoveryTick hsound hs (hfree hnone) hmark⟩

/-- One write gives up while another one is called, and both loops tick before and after that: first
while an attempt is under way, then while the second write waits to be tried again. -/
theorem inFlight_gates_ticks_of_two : ∃ (history : List (Moment Nat)) (r : Replicator Nat),
    Run { quietPlan with retry := .table [.ofSecs 3600] } 0 history r ∧
      history.map (·.after.inFlight) = [0, 0, 0, 1, 2, 1, 1, 1, 1, 1, 0, 0, 0, 1, 0, 0] ∧
      r.renewals.map (·.key) = ["j", "k"] ∧
      r.deliveries.map (fun d => (d.key, d.generation, d.stage)) =
        [("k", 2, .backoff 7200007), ("j", 3, .ready)] ∧
      r.inFlight = (underWay history).length ∧
      ∀ later m earlier, history = later ++ m :: earlier → m.event = .renewalTick →
        underWay earlier ≠ [] → m.Skipped := by
  obtain ⟨history, r, hrun, hp⟩ := exists_run_of_replay
    { quietPlan with retry := .table [.ofSecs 3600] } 0
    [(0, .register "j" 1), (0, .resume (.delivery 1)), (0, .resume (.delivery 1)),
      (0, .callEnded (.delivery 1) false), (3600000, .resume (.delivery 1)),
      (3600000, .resume (.delivery 1)), (3600000, .resume (.delivery 1)),
      (3600000, .renewalTick), (3600000, .recoveryTick), (3600005, .register "k" 2),
      (3600005, .resume (.delivery 2)), (3600005, .resume (.delivery 2)),
      (3600006, .callEnded (.delivery 1) false), (3600007, .callEnded (.delivery 2) false),
      (7200000, .renewalTick), (7200000, .recoveryTick)]
    (fun history r =>
      history.map (·.after.inFlight) == [0, 0, 0, 1, 2, 1, 1, 1, 1, 1, 0, 0, 0, 1, 0, 0] &&
        (r.renewals.map (·.key) == ["j", "k"] &&
          r.deliveries.map (fun d => (d.key, d.generation, d.stage)) ==
            [("k", 2, .backoff 7200007), ("j", 3, .ready)]))
    (by decide)
  simp only [Bool.and_eq_true, beq_iff_eq] at hp
  obtain ⟨hcounts, hrenewals, hdeliveries⟩ := hp
  obtain ⟨⟨hlength, -⟩, hticks⟩ := inFlight_gates_ticks hrun
  refine ⟨history, r, hrun, hcounts, hrenewals, hdeliveries, hlength, ?_⟩
  intro later m earlier hhistory htick hsome
  exact ((hticks later m earlier hhistory).2.1 htick).1 hsome |>.1

end Replicator

end Floodgate
