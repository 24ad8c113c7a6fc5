import Floodgate.Proofs.Replication.Run
/-!
# Floodgate.Proofs.Replication.Line

**Who stands in the line of a lane.** Lanes are held and waited for by claims. The claims are those
of the deliveries that are queued or calling and of the unfinished renewals, no more and no fewer
(`Lined`), and whatever goes by one lane belongs to one key (`Lanes`). So the line of a lane is a
line of calls of one key, and whoever is first in it is there to go on.
-/

namespace Floodgate.Replicator

variable {α : Type} {r r' : Replicator α} {now : Int} {event : Event α} {calls : List (Call α)}

/-! ### The claims -/

/-- The place in line of a delivery. -/
def place (d : Delivery α) : LaneClaim := ⟨d.lane, .delivery d.generation⟩

/-- Whether a delivery is in line. -/
def waits (d : Delivery α) : Prop := d.stage = .queued ∨ d.stage = .calling

/-- The claims are those of the deliveries in line and of the renewals. -/
def Lined (r : Replicator α) : Prop :=
  ∀ c, c ∈ r.claims ↔
    (∃ d ∈ r.deliveries, waits d ∧ place d = c) ∨ ∃ n ∈ r.renewals, n.claim = c

theorem Lined.congr (h : Lined r) (hdeliveries : r'.deliveries = r.deliveries)
    (hrenewals : r'.renewals = r.renewals) (hclaims : r'.claims = r.claims) : Lined r' := by
  intro c
  rw [hdeliveries, hrenewals, hclaims]
  exact h c

/-- A change of deliveries that leaves their places in line alone. -/
theorem Lined.of_places (h : Lined r) (hrenewals : r'.renewals = r.renewals)
    (hclaims : r'.claims = r.claims)
    (hplaces : ∀ c, (∃ d ∈ r'.deliveries, waits d ∧ place d = c) ↔
      ∃ d ∈ r.deliveries, waits d ∧ place d = c) : Lined r' := by
  intro c
  rw [hrenewals, hclaims, hplaces]
  exact h c

/-- Taking some callers out of line, with the deliveries and renewals that they are. -/
theorem Lined.drop (h : Lined r) {p : Caller → Bool}
    (hdeliveries : r'.deliveries = r.deliveries.filter fun d => p (.delivery d.generation))
    (hrenewals : r'.renewals = r.renewals.filter fun n => p (.renewal n.number))
    (hclaims : r'.claims = r.claims.filter fun c => p c.caller) : Lined r' := by
  intro c
  rw [hdeliveries, hrenewals, hclaims, List.mem_filter, h c]
  constructor
  · rintro ⟨⟨d, hd, hwaits, rfl⟩ | ⟨n, hn, rfl⟩, hp⟩
    · exact .inl ⟨d, List.mem_filter.mpr ⟨hd, hp⟩, hwaits, rfl⟩
    · exact .inr ⟨n, List.mem_filter.mpr ⟨hn, hp⟩, rfl⟩
  · rintro (⟨d, hd, hwaits, rfl⟩ | ⟨n, hn, rfl⟩)
    · obtain ⟨hd, hp⟩ := List.mem_filter.mp hd
      exact ⟨.inl ⟨d, hd, hwaits, rfl⟩, hp⟩
    · obtain ⟨hn, hp⟩ := List.mem_filter.mp hn
      exact ⟨.inr ⟨n, hn, rfl⟩, hp⟩

theorem Lined.finish (h : Lined r) (g : Nat) : Lined (r.finish g) :=
  h.drop (p := fun c => decide (c ≠ .delivery g)) (by simp [Replicator.finish, release])
    (by simp [Replicator.finish, release]) rfl

theorem Lined.finishRenewal (h : Lined r) (i : Nat) : Lined (r.finishRenewal i) :=
  h.drop (p := fun c => decide (c ≠ .renewal i)) (by simp [Replicator.finishRenewal, release])
    (by simp [Replicator.finishRenewal, release]) rfl

theorem Lined.stopRenewals (h : Lined r) : Lined r.stopRenewals := by
  refine h.drop (p := fun c => decide (c ∉ (r.renewals.map (·.number)).map .renewal)) ?_ ?_ rfl
  · simp [Replicator.stopRenewals]
  · refine (List.filter_eq_nil_iff.mpr fun n hn => ?_).symm
    simpa using ⟨n, hn, rfl⟩

theorem Lined.dropDeliveries (h : Lined r) (generations : List Nat) :
    Lined (r.drop generations) := by
  refine h.drop (p := fun c => decide (c ∉ generations.map .delivery)) ?_ ?_ rfl
  · simp [Replicator.drop]
  · simp [Replicator.drop]

theorem Lined.stopRecovery (h : Lined r) : Lined r.stopRecovery :=
  (h.dropDeliveries r.recovering).congr rfl rfl rfl

theorem Lined.perish (h : Lined r) (g : Nat) : Lined (r.perish g) := by
  obtain ⟨generations, _, _, -, hperish⟩ := r.perish_eq_drop g
  rw [hperish]
  exact (h.dropDeliveries generations).congr rfl rfl rfl

theorem Lined.withdraw (h : Lined r) (p : Option Pending) :
    Lined { r with deliveries := r.deliveries.map (withdrawn p) } := by
  refine h.of_places rfl rfl fun c => ?_
  simp only [List.mem_map, exists_exists_and_eq_and]
  refine exists_congr fun d => and_congr_right fun _ => ?_
  obtain ⟨hg, -, -, hlane, -, hstage⟩ := withdrawn_fields p d
  simp only [waits, place, hg, hlane, hstage]

theorem Lined.register (h : Lined r) (key : String) (action : α) :
    Lined (r.register key action).1 := by
  obtain ⟨-, hrenewals, hclaims, -⟩ := r.register_frame key action
  refine (h.withdraw (r.pendingOf key)).of_places hrenewals hclaims fun c => ?_
  rw [deliveries_register]
  constructor
  · rintro ⟨d, hd, hwaits, hplace⟩
    rcases List.mem_append.mp hd with hd | hd
    · exact ⟨d, hd, hwaits, hplace⟩
    · obtain rfl := List.mem_singleton.mp hd
      simp [waits, freshDelivery] at hwaits
  · rintro ⟨d, hd, hwaits, hplace⟩
    exact ⟨d, List.mem_append_left _ hd, hwaits, hplace⟩

theorem Lined.flush (h : Lined r) : Lined r.flush.1 :=
  flush_induction (fun _ key _ action h _ => h.register key action) r h

/-- A delivery that moves on without getting in line or out of it. -/
theorem Lined.updateDelivery (h : Lined r) {g : Nat} {stage : Delivery.Stage}
    (hstage : ∀ d ∈ r.deliveries, d.generation = g → (waits (inStage stage d) ↔ waits d)) :
    Lined (r.updateDelivery g (inStage stage)) := by
  refine h.of_places rfl rfl fun c => ?_
  constructor
  · rintro ⟨d, hd, hwaits, hplace⟩
    obtain ⟨d₀, hd₀, rfl⟩ := mem_updateDelivery.mp hd
    by_cases hg : d₀.generation = g
    · rw [if_pos hg] at hwaits hplace
      exact ⟨d₀, hd₀, (hstage d₀ hd₀ hg).mp hwaits, hplace⟩
    · rw [if_neg hg] at hwaits hplace
      exact ⟨d₀, hd₀, hwaits, hplace⟩
  · rintro ⟨d₀, hd₀, hwaits, hplace⟩
    refine ⟨_, mem_updateDelivery.mpr ⟨d₀, hd₀, rfl⟩, ?_⟩
    by_cases hg : d₀.generation = g
    · rw [if_pos hg]
      exact ⟨(hstage d₀ hd₀ hg).mpr hwaits, hplace⟩
    · rw [if_neg hg]
      exact ⟨hwaits, hplace⟩

theorem Lined.queue (h : Lined r) (hsound : Sound r) {d : Delivery α} (hd : d ∈ r.deliveries)
    (hready : d.stage = .ready) :
    Lined ((r.updateDelivery d.generation (inStage .queued)).claim d.lane
      (.delivery d.generation)) := by
  intro c
  show c ∈ r.claims ++ [place d] ↔ (∃ d' ∈ (r.updateDelivery _ _).deliveries, _) ∨ _
  rw [List.mem_append, List.mem_singleton, h c]
  constructor
  · rintro ((⟨d₀, hd₀, hwaits, rfl⟩ | hn) | rfl)
    · have hg : d₀.generation ≠ d.generation := by
        intro hg
        obtain rfl := hsound.eq_of_generation hd₀ hd hg
        simp [waits, hready] at hwaits
      exact .inl ⟨d₀, mem_updateDelivery.mpr ⟨d₀, hd₀, (if_neg hg).symm⟩, hwaits, rfl⟩
    · exact .inr hn
    · exact .inl ⟨inStage .queued d, mem_updateDelivery.mpr ⟨d, hd, (if_pos rfl).symm⟩,
        .inl rfl, rfl⟩
  · rintro (⟨d', hd', hwaits, rfl⟩ | hn)
    · obtain ⟨d₀, hd₀, rfl⟩ := mem_updateDelivery.mp hd'
      by_cases hg : d₀.generation = d.generation
      · obtain rfl := hsound.eq_of_generation hd₀ hd hg
        rw [if_pos rfl]
        exact .inr rfl
      · rw [if_neg hg] at hwaits ⊢
        exact .inl (.inl ⟨d₀, hd₀, hwaits, rfl⟩)
    · exact .inl (.inr hn)

/-- A delivery whose call has failed is out of line. -/
theorem Lined.retry (h : Lined r) (g failures : Nat) (until_ : Int) :
    Lined ((r.attemptOver g).updateDelivery g (inBackoff failures until_)) := by
  intro c
  show c ∈ r.claims.filter _ ↔ (∃ d' ∈ (Replicator.updateDelivery _ _ _).deliveries, _) ∨ _
  rw [List.mem_filter, h c]
  constructor
  · rintro ⟨⟨d, hd, hwaits, rfl⟩ | hn, hne⟩
    · have hg : d.generation ≠ g := by simpa [place] using hne
      exact .inl ⟨d, mem_updateDelivery.mpr ⟨d, hd, (if_neg hg).symm⟩, hwaits, rfl⟩
    · exact .inr hn
  · rintro (⟨d', hd', hwaits, rfl⟩ | ⟨n, hn, rfl⟩)
    · obtain ⟨d₀, hd₀, rfl⟩ := mem_updateDelivery.mp hd'
      by_cases hg : d₀.generation = g
      · rw [if_pos hg] at hwaits
        simp [waits, inBackoff] at hwaits
      · rw [if_neg hg] at hwaits ⊢
        exact ⟨.inl ⟨d₀, hd₀, hwaits, rfl⟩, by simpa [place] using hg⟩
    · exact ⟨.inr ⟨n, hn, rfl⟩, by simp [Renewal.claim]⟩

theorem Lined.renewAll (h : Lined r) : Lined r.renewAll := by
  rw [renewAll_eq]
  split
  · intro c
    simp only [List.mem_append, h c, List.mem_map, or_and_right, exists_or, or_assoc]
  · exact h

theorem Lined.section (h : Lined r) (hsound : Sound r) (hs : Section r now event r' calls) :
    Lined r' := by
  cases hs with
  | registered key action => exact h.register key action
  | forgotten key =>
    rw [forget_eq]
    exact (h.withdraw (r.pendingOf key)).congr rfl rfl rfl
  | flushed => exact h.flush.congr rfl rfl rfl
  | ended => exact h.finish _
  | queued hd hstage => exact h.queue hsound (mem_of_delivery? hd) hstage
  | died => exact h.perish _
  | @called d lease hd hstage =>
    refine (h.updateDelivery fun d' hd' hg => ?_).congr rfl rfl rfl
    obtain rfl := hsound.eq_of_generation hd' (mem_of_delivery? hd) hg
    simp [waits, inStage, hstage]
  | @woken d until_ hd hstage =>
    refine h.updateDelivery fun d' hd' hg => ?_
    obtain rfl := hsound.eq_of_generation hd' (mem_of_delivery? hd) hg
    simp [waits, inStage, hstage]
  | renewalGone => exact h.finishRenewal _
  | renewalDied => exact h.stopRenewals
  | renewed =>
    intro c
    refine (h c).trans (or_congr_right ?_)
    simp only [List.mem_map, exists_exists_and_eq_and]
    refine exists_congr fun n => and_congr_right fun _ => ?_
    split <;> rfl
  | @delivered d =>
    rw [markDelivered_eq, finish_attemptOver]
    exact (h.finish d.generation).congr rfl rfl rfl
  | retried => exact h.retry _ _ _
  | @abandoned d =>
    rw [markAbandoned_eq, finish_attemptOver]
    exact (h.finish d.generation).congr rfl rfl rfl
  | renewalOver => exact h.finishRenewal _
  | renewalTicked =>
    apply Lined.renewAll
    exact h.congr rfl rfl rfl
  | @recoveryTicked due =>
    have htick : Lined { r with recoveryTick := some (due + r.plan.recovery.timerMillis) } :=
      h.congr rfl rfl rfl
    exact recover_elim _ htick fun recovering => htick.flush.congr rfl rfl rfl
  | shutDown =>
    refine h.of_places rfl rfl fun c => ?_
    simp only [List.mem_map, exists_exists_and_eq_and]
    rfl
  | renewalsStopped => exact h.stopRenewals
  | recoveryStopped => exact h.stopRecovery

/-! ### The lanes -/

/-- Whether something of a key goes by a lane. -/
def uses (r : Replicator α) (lane : Nat) (key : String) : Prop :=
  (∃ e ∈ r.entries, e.lane = lane ∧ e.key = key) ∨
    (∃ d ∈ r.deliveries, d.lane = lane ∧ d.key = key) ∨
      ∃ n ∈ r.renewals, n.lane = lane ∧ n.key = key

/-- The next lane is new, and a lane is used by one key. -/
structure Lanes (r : Replicator α) : Prop where
  lane_lt : ∀ lane key, r.uses lane key → lane < r.nextLane
  one_key : ∀ lane key key', r.uses lane key → r.uses lane key' → key = key'

/-- The lane of an entry that is there after a section. -/
theorem entry_lane_of_section (h : Sound r) (hs : Section r now event r' calls)
    {e' : ReplicationEntry α} (he' : e' ∈ r'.entries) : r.uses e'.lane e'.key ∨
      e'.lane = r.nextLane ∧ r.TakesLane event e'.key := by
  have hentry := (h.section hs).entryFor?_of_mem he'
  by_cases hregister : ∃ action, event = .register e'.key action
  · obtain ⟨action, rfl⟩ := hregister
    generalize hkey : e'.key = key at hs hentry ⊢
    cases hs
    rw [entryFor?_register, if_pos rfl] at hentry
    obtain rfl := Option.some.inj hentry
    cases hold : r.entryFor? key with
    | some e =>
      refine .inl (.inl ⟨e, mem_of_entryFor? hold, ?_, entryFor?_key hold⟩)
      simp only [freshEntry, laneFor, hold]
    | none => exact .inr ⟨by simp only [freshEntry, laneFor, hold], hold, action, rfl⟩
  · by_cases hforget : event = .forget e'.key
    · generalize hkey : e'.key = key at hforget hentry
      subst hforget
      cases hs
      rw [entryFor?_forget, if_pos rfl] at hentry
      cases hentry
    · have hsame := sameWrite_of_section hs e'.key (fun a ha => hregister ⟨a, ha⟩) hforget
      rw [SameWrite, hentry, eq_comm, Option.map_some, Option.map_eq_some_iff] at hsame
      obtain ⟨e, he, heq⟩ := hsame
      exact .inl (.inl ⟨e, mem_of_entryFor? he, (Prod.mk.inj heq).2, entryFor?_key he⟩)

/-- What goes by a lane after a section went by it before, or the lane is new. -/
theorem uses_of_section (h : Sound r) (hs : Section r now event r' calls) {lane : Nat}
    {key : String} (huses : r'.uses lane key) :
    r.uses lane key ∨ lane = r.nextLane ∧ r.TakesLane event key := by
  rcases huses with ⟨e', he', rfl, rfl⟩ | ⟨d', hd', rfl, rfl⟩ | ⟨n', hn', rfl, rfl⟩
  · exact entry_lane_of_section h hs he'
  · have hfollows : ∀ d ∈ r.deliveries, Follows d d' → r.uses d'.lane d'.key := fun d hd hf =>
      .inr (.inl ⟨d, hd, hf.lane.symm, hf.key.symm⟩)
    cases delivery_of_section h hs hd' with
    | fresh _ _ _ hlane =>
      rcases hlane with ⟨e, he, hlane⟩ | hnew
      · exact .inl (.inl ⟨e, mem_of_entryFor? he, hlane, entryFor?_key he⟩)
      · exact .inr hnew
    | kept hd hf => exact .inl (hfollows _ hd hf)
    | called hd hf => exact .inl (hfollows _ hd hf)
    | failed hd hf => exact .inl (hfollows _ hd hf)
  · rcases renewal_of_section hs hn' with ⟨n, hn, -, hkey, hlane⟩ | ⟨e, he, hkey, hlane⟩
    · exact .inl (.inr (.inr ⟨n, hn, hlane.symm, hkey.symm⟩))
    · exact .inl (.inl ⟨e, he, hlane.symm, hkey.symm⟩)

/-- Lanes are not taken twice. -/
theorem nextLane_of_section (hs : Section r now event r' calls) : r.nextLane ≤ r'.nextLane := by
  cases hs with
  | registered key action => exact (r.register_frame key action).2.2.2.2.2.2.2
  | forgotten key => simp only [forget_eq, Nat.le_refl]
  | flushed => exact r.flush_frame.2.2.2.2.2
  | @died d =>
    obtain ⟨_, _, _, -, hperish⟩ := r.perish_eq_drop d.generation
    rw [hperish]
    exact Nat.le_refl _
  | renewalTicked => rw [renewAll_eq]; split <;> exact Nat.le_refl _
  | @recoveryTicked due =>
    have hflush := flush_frame { r with
      recoveryTick := some (due + r.plan.recovery.timerMillis) }
    exact recover_elim _ (Nat.le_refl _) fun recovering => hflush.2.2.2.2.2
  | _ => exact Nat.le_refl _

theorem nextLane_lt_of_takesLane {key : String} (hs : Section r now event r' calls)
    (htakes : r.TakesLane event key) : r.nextLane < r'.nextLane := by
  obtain ⟨hnone, action, rfl⟩ := htakes
  cases hs
  rw [register_fst]
  simp only [updateEntry, withEntry, hnone]
  exact Nat.lt_succ_self _

theorem Lanes.section (h : Lanes r) (hsound : Sound r) (hs : Section r now event r' calls) :
    Lanes r' := by
  constructor
  · intro lane key huses
    rcases uses_of_section hsound hs huses with hold | ⟨rfl, htakes⟩
    · exact Nat.lt_of_lt_of_le (h.lane_lt lane key hold) (nextLane_of_section hs)
    · exact nextLane_lt_of_takesLane hs htakes
  · intro lane key key' huses huses'
    rcases uses_of_section hsound hs huses with hold | ⟨hlane, -, action, hevent⟩
    · rcases uses_of_section hsound hs huses' with hold' | ⟨hlane', -⟩
      · exact h.one_key lane key key' hold hold'
      · exact absurd (h.lane_lt lane key hold) (hlane' ▸ Nat.lt_irrefl _)
    · rcases uses_of_section hsound hs huses' with hold' | ⟨-, -, action', hevent'⟩
      · exact absurd (h.lane_lt lane key' hold') (hlane ▸ Nat.lt_irrefl _)
      · exact (Event.register.inj (hevent.symm.trans hevent')).1

/-- Somebody is first in the line of a lane, if anybody is in it: a delivery or a renewal of the key
whose lane it is. -/
theorem Lined.first_in_line (h : Lined r) (hlanes : Lanes r) {lane : Nat} {key : String}
    (hline : ∃ c ∈ r.claims, c.lane = lane) (huses : r.uses lane key) :
    (∃ d ∈ r.deliveries, d.lane = lane ∧ d.key = key ∧ waits d ∧ place d ∈ r.claims ∧
      r.holds d.lane (.delivery d.generation) = true) ∨
    ∃ n ∈ r.renewals, n.lane = lane ∧ n.key = key ∧
      r.holds n.lane (.renewal n.number) = true := by
  obtain ⟨c, hc, rfl⟩ := hline
  obtain ⟨first, hfirst⟩ : ∃ first, r.claims.find? (·.lane == c.lane) = some first :=
    Option.isSome_iff_exists.mp (List.find?_isSome.mpr ⟨c, hc, beq_self_eq_true c.lane⟩)
  have hlane : first.lane = c.lane := Keyed.key_of_find? hfirst
  have hholds : r.holds first.lane first.caller = true := by
    rw [holds_iff, hlane, hfirst, Option.map_some]
  have hclaim := List.mem_of_find?_eq_some hfirst
  have hkey : ∀ k, r.uses c.lane k → k = key := fun k hk =>
    hlanes.one_key c.lane k key hk huses
  rcases (h first).mp hclaim with ⟨d, hd, hwaits, rfl⟩ | ⟨n, hn, rfl⟩
  · exact .inl ⟨d, hd, hlane, hkey _ (.inr (.inl ⟨d, hd, hlane, rfl⟩)), hwaits, hclaim, hholds⟩
  · exact .inr ⟨n, hn, hlane, hkey _ (.inr (.inr ⟨n, hn, hlane, rfl⟩)), hholds⟩

/-- Who is in line without calling goes on once it holds its lane: a delivery calls, or leaves if it
has been cancelled, and a renewal calls, or leaves if its key has been forgotten. -/
theorem isSome_step_of_holds (now : Int) {d : Delivery α} (hd : r.delivery? d.generation = some d)
    (hqueued : d.stage = .queued) (hholds : r.holds d.lane (.delivery d.generation) = true) :
    (r.step now (.resume (.delivery d.generation))).isSome = true := by
  simp only [step, hd, Option.bind_some, resumeDelivery, hqueued, hholds, if_true]
  split
  · rfl
  · split <;> rfl

theorem isSome_step_of_renewal_holds (now : Int) {n : Renewal} (hn : r.renewal? n.number = some n)
    (hidle : n.calling = false) (hholds : r.holds n.lane (.renewal n.number) = true) :
    (r.step now (.resume (.renewal n.number))).isSome = true := by
  simp only [step, hn, Option.bind_some, resumeRenewal, hidle, Bool.false_eq_true, if_false, hholds,
    if_true]
  split
  · rfl
  · split <;> rfl

/-! ### Runs -/

theorem Run.lined {plan : ReplicationPlan} {since : Int} {history : List (Moment α)}
    (h : Run plan since history r) : Lined r := by
  induction h with
  | start => intro c; simp [Replicator.start]
  | next hpast hstep ih => exact ih.section hpast.sound (section_of_step hstep)

theorem Run.lanes {plan : ReplicationPlan} {since : Int} {history : List (Moment α)}
    (h : Run plan since history r) : Lanes r := by
  induction h with
  | start => constructor <;> simp [uses, Replicator.start]
  | next hpast hstep ih => exact ih.section hpast.sound (section_of_step hstep)

end Floodgate.Replicator
