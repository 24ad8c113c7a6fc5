import Floodgate.Proofs.Replication.Calm
/-!
# Floodgate.Proofs.Replication.Attempts

**What the attempts at a write leave to be done.** A delivery calls its write, and if the call fails
it asks the retry policy whether and when to call again. What comes next is told by how the calls
have ended so far (`RetryPolicy.outlook`): another attempt from some instant on, the end of the one
in progress, or nothing. The attempts of a delivery are paced by it (`Paced`): each starts at the
very instant from which it may, or later if in between another call of the key held the lane.

Nobody else can bring a delivery to its end. As long as its key is neither registered for nor
forgotten, and the replicator is not shut down, the sections of others leave the mark of the key
alone (`mark_of_section`), and with it the delivery that the mark names (`Upright.delivery_kept`).
-/

namespace Floodgate

/-- What is to be done next for a write. -/
inductive Outlook where
  /-- Another attempt, from an instant on. -/
  | next (from_ : Int)
  /-- The attempt in progress has to end. -/
  | inProgress
  /-- Nothing: the last attempt has succeeded, or it has failed and the policy gives up. -/
  | finished (ok : Bool)
  deriving DecidableEq

namespace RetryPolicy

/-- What some attempts leave to be done, each given by its end if it has ended, the newest first. -/
def outlook (retry : RetryPolicy) (since : Int) : List (Option (Int × Bool)) → Outlook
  | [] => .next since
  | none :: _ => .inProgress
  | some (_, true) :: _ => .finished true
  | some (ended, false) :: earlier =>
    match retry.delayAfter (earlier.length + 1) with
    | some delay => .next (ended + delay.timerMillis)
    | none => .finished false

variable {retry : RetryPolicy} {since : Int} {ends : List (Option (Int × Bool))}

/-- Another attempt is to be made at first, and after a failure that the policy wants repeated. -/
theorem outlook_eq_next_iff {from_ : Int} : retry.outlook since ends = .next from_ ↔
    ends = [] ∧ since = from_ ∨ ∃ ended earlier delay, ends = some (ended, false) :: earlier ∧
      retry.delayAfter ends.length = some delay ∧ ended + delay.timerMillis = from_ := by
  unfold outlook
  split
  · simp
  · simp
  · simp
  · rename_i ended earlier
    cases retry.delayAfter (earlier.length + 1) <;> simp

/-- There is no other attempt after a success and after a failure with which the policy gives up. -/
theorem outlook_eq_finished_iff {ok : Bool} : retry.outlook since ends = .finished ok ↔
    ∃ ended earlier, ends = some (ended, ok) :: earlier ∧
      (ok = false → retry.delayAfter ends.length = none) := by
  unfold outlook
  split
  · simp
  · simp
  · cases ok <;> simp
  · rename_i ended earlier
    cases retry.delayAfter (earlier.length + 1) <;> cases ok <;> simp

/-- The policy gives up with so many failures, and with no fewer. -/
structure GivesUpAt (retry : RetryPolicy) (count : Nat) : Prop where
  pos : 0 < count
  gives_up : retry.delayAfter count = none
  retries : ∀ n, 0 < n → n < count → retry.delayAfter n ≠ none

/-- The first attempt counts, so that there is one even if none is allowed. -/
theorem givesUpAt_limited (delay : Duration) (maxAttempts : Nat) :
    (limited delay maxAttempts).GivesUpAt (max maxAttempts 1) where
  pos := by omega
  gives_up := delayAfter_limited_eq_none_iff.mpr (by omega)
  retries n hpos hlt := by
    rw [Ne, delayAfter_limited_eq_none_iff]
    omega

theorem givesUpAt_never : never.GivesUpAt 1 where
  pos := Nat.one_pos
  gives_up := rfl
  retries n hpos hlt := by omega

end RetryPolicy

namespace Replicator

variable {α : Type} {r r' : Replicator α} {now : Int} {event : Event α} {calls : List (Call α)}

/-! ### Nobody else brings a delivery to its end -/

/-- Whether a deed withdraws the pending write of a key. -/
def Deed.withdraws (key : String) : Deed α → Bool
  | .go event => event.withdraws key
  | .wait _ | .finish _ => false

/-- What holds of a replicator as long as it has not been shut down and the calendar reaches its
leases. -/
structure Upright (plan : ReplicationPlan) (now : Int) (r : Replicator α) : Prop where
  plan_eq : r.plan = plan
  sound : Sound r
  tracked : Tracked r
  up : r.isShutDown = false
  lease : ∃ lease, plan.leaseDeadline now = some lease
  /-- No task has died. -/
  alive : r.dead = []

variable {plan : ReplicationPlan}

theorem Upright.leaseDeadline (h : Upright plan now r) :
    ∃ lease, r.leaseDeadline now = some lease := by
  rw [Replicator.leaseDeadline, h.plan_eq]
  exact h.lease

theorem Upright.section (h : Upright plan now r) (hs : Section r now event r' calls)
    (hup : event ≠ .shutDown) : Upright plan now r' where
  plan_eq := (frame_of_section hs).1.trans h.plan_eq
  sound := h.sound.section hs
  tracked := by
    refine h.tracked.section h.sound h.up hs hup ?_
    rintro ⟨_, -, -, -, -, hnone⟩
    exact absurd hnone (Option.ne_none_iff_exists'.mpr h.leaseDeadline)
  up := ((frame_of_section hs).2.2 hup).trans h.up
  lease := h.lease
  alive := by
    obtain ⟨more, hdead, hnone⟩ := dead_of_section hs
    cases more with
    | nil => rw [hdead, h.alive, List.append_nil]
    | cons g rest =>
      exact absurd (hnone (List.cons_ne_nil g rest))
        (Option.ne_none_iff_exists'.mpr h.leaseDeadline)

/-- A delivery that nobody withdraws is left alone by the sections of others. -/
theorem Upright.delivery_kept (h : Upright plan now r) (hs : Section r now event r' calls)
    {d : Delivery α} (hd : d ∈ r.deliveries) (hlive : d.cancelled = false)
    (hkept : event.withdraws d.key = false) (hother : event.isOf d.generation = false) :
    d ∈ r'.deliveries := by
  have hup : event ≠ .shutDown := by rintro rfl; cases hkept
  have hmark := h.sound.pendingOf_of_live hd hlive
  rcases mark_of_section hs hmark hkept (fun p hp => by cases hp; exact hother) with
    hmark' | ⟨-, g, hg⟩
  · -- the mark still names it, so it is there and has not been cancelled
    obtain ⟨d', hd', hg, -, hlive'⟩ := (h.section hs hup).tracked.trying _ _ hmark'
    rcases bystander_of_section hs hd' (hg ▸ hother) with ⟨hnew, -⟩ | ⟨d₀, hd₀, heq⟩
    · exact absurd (h.sound.generation_lt d hd) (Nat.not_lt_of_le (hg ▸ hnew))
    · have hsame : d₀.generation = d.generation := by rw [← hg, heq]
      obtain rfl := h.sound.eq_of_generation hd₀ hd hsame
      rwa [heq, hlive', ← hlive] at hd'
  · cases hg

/-! ### Held up -/

/-- The execution of a write. -/
structure Execution (α : Type) where
  key : String
  /-- The write. -/
  action : α
  /-- When it was registered. -/
  since : Int
  /-- The generation under which it was registered. -/
  generation : Nat

/-- Another call of the key holds the lane that the delivery of a write is to call on. -/
def HeldUp (w : Execution α) (r : Replicator α) : Prop :=
  ∃ d ∈ r.deliveries, d.generation = w.generation ∧
    ∃ c ∈ r.callersOf w.key, c ≠ .delivery w.generation ∧ r.holds d.lane c = true

/-- Who waits in line while nobody can go on is held up by a call in progress: whoever is first in
the line would go on otherwise. -/
theorem heldUp_of_queued (hsound : Sound r) (hlined : Lined r) (hlanes : Lanes r)
    (hdeliveries : ∀ d ∈ r.deliveries, r.step now (.resume (.delivery d.generation)) = none)
    (hrenewals : ∀ n ∈ r.renewals, r.step now (.resume (.renewal n.number)) = none)
    {w : Execution α} {d : Delivery α} (hd : d ∈ r.deliveries) (hg : d.generation = w.generation)
    (hkey : d.key = w.key) (hqueued : d.stage = .queued) : HeldUp w r := by
  have hline : ∃ c ∈ r.claims, c.lane = d.lane :=
    ⟨place d, (hlined _).mpr (.inl ⟨d, hd, .inl hqueued, rfl⟩), rfl⟩
  refine ⟨d, hd, hg, ?_⟩
  rw [← hg, ← hkey]
  rcases hlined.first_in_line hlanes hline (.inr (.inl ⟨d, hd, rfl, rfl⟩)) with
    ⟨d₀, hd₀, hlane, hkey₀, hwaits, -, hholds⟩ | ⟨n, hn, hlane, hkey₀, hholds⟩
  · rcases hwaits with hqueued₀ | hcalling
    · have hstep := isSome_step_of_holds now (hsound.delivery?_of_mem hd₀) hqueued₀ hholds
      rw [hdeliveries d₀ hd₀] at hstep
      cases hstep
    · refine ⟨_, mem_callersOf.mpr (.inl ⟨d₀, hd₀, hkey₀, hcalling, rfl⟩), fun heq => ?_,
        hlane ▸ hholds⟩
      rw [hsound.eq_of_generation hd₀ hd (Caller.delivery.inj heq), hqueued] at hcalling
      cases hcalling
  · cases hcalling : n.calling with
    | true =>
      exact ⟨_, mem_callersOf.mpr (.inr ⟨n, hn, hkey₀, hcalling, rfl⟩), by simp, hlane ▸ hholds⟩
    | false =>
      have hstep := isSome_step_of_renewal_holds now (hsound.renewal?_of_mem hn) hcalling hholds
      rw [hrenewals n hn] at hstep
      cases hstep

/-! ### The attempts of a delivery -/

/-- Whether a call has failed. -/
def CallNote.hasFailed (n : CallNote α) : Bool := n.returned.any fun how => !how.2

namespace Clocked

variable {plan : ReplicationPlan} {since : Int} {conduct : Conduct α}
  {past past' : List (Clocked α × Deed α)} {s s' : Clocked α} {deed : Deed α}

/-- At rest a delivery that waits in line is held up. -/
theorem heldUp_of_isSettled (hrun : Run plan since conduct past s) (hsettled : s.isSettled = true)
    {w : Execution α} {d : Delivery α} (hd : d ∈ s.replicator.deliveries)
    (hg : d.generation = w.generation) (hkey : d.key = w.key) (hqueued : d.stage = .queued) :
    HeldUp w s.replicator := by
  obtain ⟨_, hhistory, -⟩ := hrun.history
  exact heldUp_of_queued hhistory.sound hhistory.lined hhistory.lanes
    (fun _ hd => resume_of_isSettled hsettled hd) (fun _ hn => renewal_of_isSettled hsettled hn)
    hd hg hkey hqueued

/-- The calls of a delivery, the newest first. -/
def attempts (s : Clocked α) (g : Nat) : List (CallNote α) :=
  s.notes.filter (·.caller = .delivery g)

theorem mem_attempts {g : Nat} {n : CallNote α} :
    n ∈ s.attempts g ↔ n ∈ s.notes ∧ n.caller = .delivery g := by
  simp [attempts]

/-- What the attempts at a write so far leave to be done. -/
def outlook (s : Clocked α) (retry : RetryPolicy) (w : Execution α) : Outlook :=
  retry.outlook w.since ((s.attempts w.generation).map (·.returned))

theorem attempts_note {r' : Replicator α} {c : Call α} {returned : Option (Int × Bool)} {g : Nat} :
    attempts { s with replicator := r', notes := s.noteOf conduct c returned :: s.notes } g =
      if c.caller = .delivery g then s.noteOf conduct c returned :: s.attempts g
      else s.attempts g := by
  simp only [attempts, List.filter_cons, decide_eq_true_eq, noteOf]

/-- The return of another's call leaves the attempts of a delivery alone. -/
theorem attempts_return {r' : Replicator α} {caller : Caller} {how : Int × Bool} {g : Nat} :
    attempts { s with replicator := r', notes := s.notes.map (CallNote.return caller how) } g =
      (s.attempts g).map (CallNote.return caller how) := by
  simp only [attempts, List.filter_map, Function.comp_def, (return_fields caller how _).1]

theorem attempts_return_of_ne {r' : Replicator α} {caller : Caller} {how : Int × Bool} {g : Nat}
    (hother : caller ≠ .delivery g) :
    attempts { s with replicator := r', notes := s.notes.map (CallNote.return caller how) } g =
      s.attempts g := by
  rw [attempts_return]
  refine (List.map_congr_left fun n hn => if_neg fun hsame => ?_).trans (List.map_id _)
  exact hother (hsame.1.symm.trans (mem_attempts.mp hn).2)

/-- A generation that has not been given out has made no attempt. -/
theorem Run.attempts_eq_nil (h : Run plan since conduct past s) {g : Nat}
    (hnew : s.replicator.nextGeneration ≤ g) : s.attempts g = [] := by
  induction h with
  | start => rfl
  | @next past s s' deed hpast hact ih =>
    obtain ⟨_, hrun, -⟩ := hpast.history
    -- who starts a call is there already
    have hother : ∀ {event : Event α} {r' : Replicator α} {c : Call α},
        s.replicator.step s.now event = some (r', [c]) → r'.nextGeneration ≤ g →
        s.replicator.nextGeneration ≤ g ∧ c.caller ≠ .delivery g := by
      intro event r' c hstep hnew
      have hs := section_of_step hstep
      have hle := Nat.le_trans (frame_of_section hs).2.1 hnew
      refine ⟨hle, ?_⟩
      cases hs with
      | called hd =>
        have hlt := hrun.sound.generation_lt _ (mem_of_delivery? hd)
        exact fun heq => Nat.not_le_of_lt hlt (Caller.delivery.inj heq ▸ hle)
      | renewed => simp
    cases acts_of_act hact with
    | waited => exact ih hnew
    | went _ hstep =>
      exact ih (Nat.le_trans (frame_of_section (section_of_step hstep)).2.1 hnew)
    | called hstep _ hover =>
      have hnew := Nat.le_trans (frame_of_section (section_of_step hover)).2.1 hnew
      obtain ⟨hold, hcaller⟩ := hother hstep hnew
      rw [attempts_note, if_neg hcaller]
      exact ih hold
    | began hstep =>
      obtain ⟨hold, hcaller⟩ := hother hstep hnew
      rw [attempts_note, if_neg hcaller]
      exact ih hold
    | @returned n _ _ _ _ _ _ _ hstep =>
      rw [attempts_return,
        ih (Nat.le_trans (frame_of_section (section_of_step hstep)).2.1 hnew)]
      rfl

/-! ### The pace -/

/-- At some rest from an instant on, and before another, the delivery of a write was held up. -/
def WasHeldUp (past : List (Clocked α × Deed α)) (w : Execution α) (from_ until_ : Int) : Prop :=
  ∃ x ∈ past, x.1.isSettled = true ∧ from_ ≤ x.1.now ∧ x.1.now < until_ ∧ HeldUp w x.1.replicator

/-- The turn of a delivery that may call from an instant on comes at that instant, or later if it
was held up. -/
def InTurn (past : List (Clocked α × Deed α)) (w : Execution α) (from_ now : Int) : Prop :=
  from_ ≤ now ∧ (now = from_ ∨ WasHeldUp past w from_ now)

variable {w : Execution α} {retry : RetryPolicy} {l : List (CallNote α)}

theorem InTurn.mono {from_ now : Int} (h : InTurn past w from_ now) (hsub : past ⊆ past') :
    InTurn past' w from_ now :=
  ⟨h.1, h.2.imp_right fun ⟨x, hx, hheld⟩ => ⟨x, hsub hx, hheld⟩⟩

/-- Attempts at a write that follow one another as the policy lets them, the newest first: each is
made since those before it leave it to be made, and in its turn. -/
inductive Paced (retry : RetryPolicy) (past : List (Clocked α × Deed α)) (w : Execution α) :
    List (CallNote α) → Prop where
  | nil : Paced retry past w []
  | cons {n : CallNote α} {earlier : List (CallNote α)} {from_ : Int}
      (hearlier : Paced retry past w earlier)
      (hnext : retry.outlook w.since (earlier.map (·.returned)) = .next from_)
      (hturn : InTurn past w from_ n.record.time) : Paced retry past w (n :: earlier)

theorem Paced.mono (h : Paced retry past w l) (hsub : past ⊆ past') : Paced retry past' w l := by
  induction h with
  | nil => exact .nil
  | cons _ hnext hturn ih => exact .cons ih hnext (hturn.mono hsub)

/-- If another attempt is to be made, all so far have failed. -/
theorem Paced.hasFailed_of_next (h : Paced retry past w l) {from_ : Int}
    (hnext : retry.outlook w.since (l.map (·.returned)) = .next from_) :
    ∀ n ∈ l, n.hasFailed = true := by
  induction h generalizing from_ with
  | nil => exact fun _ hn => absurd hn List.not_mem_nil
  | @cons n earlier _ _ hbefore _ ih =>
    refine List.forall_mem_cons.mpr ⟨?_, ih hbefore⟩
    rcases RetryPolicy.outlook_eq_next_iff.mp hnext with ⟨hnil, -⟩ | ⟨ended, _, _, hends, -⟩
    · cases hnil
    · have hreturned : n.returned = some (ended, false) := (List.cons.inj hends).1
      rw [CallNote.hasFailed, hreturned]
      rfl

/-- All attempts but the newest have failed. -/
theorem Paced.hasFailed {n : CallNote α} (h : Paced retry past w (n :: l)) :
    ∀ m ∈ l, m.hasFailed = true := by
  cases h with
  | cons hearlier hnext _ => exact hearlier.hasFailed_of_next hnext

/-- After each attempt but the newest the policy wanted another one. -/
theorem Paced.delayAfter_ne_none (h : Paced retry past w l) {n : Nat} (hpos : 0 < n)
    (hlt : n < l.length) : retry.delayAfter n ≠ none := by
  induction h with
  | nil => cases hlt
  | @cons _ earlier _ _ hnext _ ih =>
    rcases Nat.lt_or_ge n earlier.length with hlt' | hge
    · exact ih hlt'
    · obtain rfl : n = earlier.length := Nat.le_antisymm (Nat.le_of_lt_succ hlt) hge
      rcases RetryPolicy.outlook_eq_next_iff.mp hnext with ⟨hnil, -⟩ | ⟨_, _, _, -, hdelay, -⟩
      · rw [List.map_eq_nil_iff.mp hnil] at hpos
        cases hpos
      · rw [List.length_map] at hdelay
        rw [hdelay]
        exact Option.some_ne_none _

end Clocked

end Replicator

end Floodgate
