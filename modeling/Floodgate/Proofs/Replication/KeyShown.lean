import Floodgate.Proofs.Replication.Calm
import Floodgate.Proofs.Replication.KeyView
/-!
# Floodgate.Proofs.Replication.KeyShown

**A replicator shows each key by itself.** In a calm run a replicator on a clock shows, for each
key, one view (`Shows`): the latest write is that of the entry, how it is getting on is what its
mark and its delivery say, and the lane is taken if a delivery on it is calling. What the replicator
does with other keys leaves the view alone (`Undisturbed`); what it does with the key is either not
to be seen, such as getting in line, or is the one step that the view can take then
(`Shows.began`, `Shows.returned`).

A call of the key from before it was forgotten goes by another lane. It is noted when it returns,
but to the view it is over.
-/

namespace Floodgate.Replicator

variable {α : Type} {r r' : Replicator α} {now : Int} {event : Event α} {calls : List (Call α)}
  {key : String}

/-! ### Showing -/

/-- How the latest write of an entry is getting on, as its mark and the delivery that it names
say. -/
def Getting (r : Replicator α) (now : Int) (e : ReplicationEntry α) : Progress → Prop
  | .delivered => e.pending = none
  | .abandoned => ∃ g, e.pending = some ⟨g, false⟩
  | .waiting failures from_ => ∃ g, e.pending = some ⟨g, true⟩ ∧
      ∀ d ∈ r.deliveries, d.generation = g → d.failures = failures ∧
        ((d.stage = .ready ∨ d.stage = .queued) ∧ from_ ≤ now ∨ d.stage = .backoff from_)
  | .calling failures => ∃ g, e.pending = some ⟨g, true⟩ ∧
      ∀ d ∈ r.deliveries, d.generation = g → d.failures = failures ∧ d.stage = .calling

theorem Getting.isSome_pending {e : ReplicationEntry α} {p : Progress} (h : Getting r now e p) :
    e.pending.isSome = decide (p ≠ .delivered) := by
  cases p with
  | delivered => exact congrArg Option.isSome h
  | abandoned =>
    obtain ⟨g, hp⟩ := h
    rw [hp]
    rfl
  | waiting | calling =>
    obtain ⟨g, hp, -⟩ := h
    rw [hp]
    rfl

theorem Getting.eq_abandoned {e : ReplicationEntry α} {p : Progress} (h : Getting r now e p)
    {g : Nat} (hpending : e.pending = some ⟨g, false⟩) : p = .abandoned := by
  cases p with
  | delivered => exact absurd (hpending.symm.trans h) (by simp)
  | abandoned => rfl
  | waiting | calling =>
    obtain ⟨_, hp, -⟩ := h
    rw [hpending] at hp
    cases hp

/-- As long as the delivery that the mark names is there, it says how the write is getting on. -/
theorem Getting.of_trying {e : ReplicationEntry α} {p : Progress} (h : Getting r now e p)
    {d : Delivery α} (hd : d ∈ r.deliveries) (hpending : e.pending = some ⟨d.generation, true⟩) :
    (∃ from_, p = .waiting d.failures from_ ∧
      ((d.stage = .ready ∨ d.stage = .queued) ∧ from_ ≤ now ∨ d.stage = .backoff from_)) ∨
    p = .calling d.failures ∧ d.stage = .calling := by
  cases p with
  | delivered => exact absurd (hpending.symm.trans h) (by simp)
  | abandoned =>
    obtain ⟨_, hp⟩ := h
    rw [hpending] at hp
    cases hp
  | waiting failures from_ =>
    obtain ⟨_, hp, hall⟩ := h
    rw [hpending] at hp
    cases hp
    obtain ⟨rfl, hwaits⟩ := hall d hd rfl
    exact .inl ⟨from_, rfl, hwaits⟩
  | calling failures =>
    obtain ⟨_, hp, hall⟩ := h
    rw [hpending] at hp
    cases hp
    obtain ⟨rfl, hcalling⟩ := hall d hd rfl
    exact .inr ⟨rfl, hcalling⟩

namespace Clocked

variable {plan : ReplicationPlan} {since : Int} {conduct : Conduct α}
  {past : List (Clocked α × Deed α)} {s s' : Clocked α} {deed : Deed α} {v : KeyView α}

/-- Whether a lane is taken, and until when. -/
structure ShowsLane (s : Clocked α) (lane : Nat) (shown : Option (Option (Int × Bool))) :
    Prop where
  taken : ∀ d ∈ s.replicator.deliveries, d.lane = lane → d.stage = .calling →
    ∀ n ∈ s.notes, n.returned = none → n.caller = .delivery d.generation →
      shown = some n.record.ends
  free : shown.isSome = true → ∃ d ∈ s.replicator.deliveries, d.lane = lane ∧ d.stage = .calling

/-- A view is what a replicator does for a key. -/
structure Shows (s : Clocked α) (key : String) (v : KeyView α) : Prop where
  calls : s.callsOf key = v.calls
  absent : s.replicator.entryFor? key = none → v.write = none ∧ v.lane = none
  present : ∀ e, s.replicator.entryFor? key = some e →
    (∃ p, v.write = some (e.current, p) ∧ Getting s.replicator s.now e p) ∧
      s.ShowsLane e.lane v.lane

theorem Shows.start (plan : ReplicationPlan) (now : Int) (key : String) :
    Shows (.start plan now : Clocked α) key .start where
  calls := rfl
  absent _ := ⟨rfl, rfl⟩
  present _ he := by cases he

/-! ### What is not to be seen -/

end Clocked

/-- Whether a delivery may go on now without having to wait for an instant. -/
def isOn (now : Int) : Delivery.Stage → Prop
  | .ready | .queued => True
  | .calling => False
  | .backoff until_ => until_ ≤ now

/-- For a key nothing changes that could be seen. -/
structure Undisturbed (now : Int) (key : String) (r r' : Replicator α) : Prop where
  entry : r'.entryFor? key = r.entryFor? key
  /-- The delivery that the mark names stands where it stood, or has gone on in line. -/
  marked : ∀ d' ∈ r'.deliveries, r.pendingOf key = some ⟨d'.generation, true⟩ →
    ∃ d ∈ r.deliveries, d.generation = d'.generation ∧ d.failures = d'.failures ∧
      (d'.stage = d.stage ∨ isOn now d.stage ∧ (d'.stage = .ready ∨ d'.stage = .queued))
  /-- Who is calling on the lane was calling. -/
  calling : ∀ e, r.entryFor? key = some e → ∀ d' ∈ r'.deliveries, d'.lane = e.lane →
    d'.stage = .calling →
      ∃ d ∈ r.deliveries, d.generation = d'.generation ∧ d.lane = e.lane ∧ d.stage = .calling
  /-- Who was calling on the lane is calling. -/
  kept : ∀ e, r.entryFor? key = some e → ∀ d ∈ r.deliveries, d.lane = e.lane →
    d.stage = .calling → ∃ d' ∈ r'.deliveries, d'.lane = e.lane ∧ d'.stage = .calling

/-- How a write is getting on is told by the delivery that the mark names. -/
theorem Getting.of_marked {e : ReplicationEntry α} {p : Progress} (h : Getting r now e p)
    (he : r.entryFor? key = some e)
    (hmarked : ∀ d' ∈ r'.deliveries, r.pendingOf key = some ⟨d'.generation, true⟩ →
      ∃ d ∈ r.deliveries, d.generation = d'.generation ∧ d.failures = d'.failures ∧
        (d'.stage = d.stage ∨ isOn now d.stage ∧ (d'.stage = .ready ∨ d'.stage = .queued))) :
    Getting r' now e p := by
  have hmark : ∀ {g}, e.pending = some ⟨g, true⟩ → r.pendingOf key = some ⟨g, true⟩ := by
    intro g hp
    rw [pendingOf, he]
    exact hp
  cases p with
  | delivered => exact h
  | abandoned => exact h
  | waiting failures from_ =>
    obtain ⟨g, hp, hall⟩ := h
    refine ⟨g, hp, fun d' hd' hg => ?_⟩
    obtain ⟨d, hd, hgd, hfailures, hstage⟩ := hmarked d' hd' (hg ▸ hmark hp)
    obtain ⟨hf, hwaits⟩ := hall d hd (hgd.trans hg)
    refine ⟨hfailures ▸ hf, ?_⟩
    rcases hstage with hsame | ⟨hon, hmoved⟩
    · rw [hsame]
      exact hwaits
    · -- who has left its retry delay has waited to the end of it
      refine .inl ⟨hmoved, ?_⟩
      rcases hwaits with ⟨-, hle⟩ | hbackoff
      · exact hle
      · rw [hbackoff] at hon
        exact hon
  | calling failures =>
    obtain ⟨g, hp, hall⟩ := h
    refine ⟨g, hp, fun d' hd' hg => ?_⟩
    obtain ⟨d, hd, hgd, hfailures, hstage⟩ := hmarked d' hd' (hg ▸ hmark hp)
    obtain ⟨hf, hcalling⟩ := hall d hd (hgd.trans hg)
    refine ⟨hfailures ▸ hf, ?_⟩
    rcases hstage with hsame | ⟨hon, -⟩
    · exact hsame.trans hcalling
    · rw [hcalling] at hon
      exact hon.elim

/-- A delivery that a mark names and that a section is not about stands where it stood. -/
theorem marked_of_section (hsound : Sound r) (hs : Section r now event r' calls)
    (hmarked : ∀ d ∈ r.deliveries, r.pendingOf key = some ⟨d.generation, true⟩ →
      event.isOf d.generation = false) {d' : Delivery α} (hd' : d' ∈ r'.deliveries)
    (hp : r.pendingOf key = some ⟨d'.generation, true⟩) :
    ∃ d ∈ r.deliveries, d.generation = d'.generation ∧ d.failures = d'.failures ∧
      (d'.stage = d.stage ∨ isOn now d.stage ∧ (d'.stage = .ready ∨ d'.stage = .queued)) := by
  have hlt : d'.generation < r.nextGeneration := hsound.pending_lt key _ hp
  have hother : event.isOf d'.generation = false := by
    have hof : ∀ d ∈ r.deliveries, Follows d d' → event.isOf d'.generation = false := by
      intro d hd hf
      rw [hf.generation] at hp ⊢
      exact hmarked d hd hp
    cases delivery_of_section hsound hs hd' with
    | fresh hnew => exact absurd hnew (Nat.not_le_of_lt hlt)
    | kept hd hf => exact hof _ hd hf
    | called hd hf => exact hof _ hd hf
    | failed hd hf => exact hof _ hd hf
  rcases bystander_of_section hs hd' hother with ⟨hnew, -⟩ | ⟨d, hd, heq⟩
  · exact absurd hnew (Nat.not_le_of_lt hlt)
  · exact ⟨d, hd, heq ▸ rfl, heq ▸ rfl, .inl (heq ▸ rfl)⟩

/-- A section that is neither about the delivery that the mark of a key names nor about one that is
calling on its lane. -/
theorem Undisturbed.of_section (hsound : Sound r) (hlanes : Lanes r)
    (hs : Section r now event r' calls) (hcalm : event.isCalm = true)
    (hlease : ∃ lease, r.leaseDeadline now = some lease)
    (hentry : r'.entryFor? key = r.entryFor? key)
    (hmarked : ∀ d ∈ r.deliveries, r.pendingOf key = some ⟨d.generation, true⟩ →
      event.isOf d.generation = false)
    (hlane : ∀ e, r.entryFor? key = some e → ∀ d ∈ r.deliveries, d.lane = e.lane →
      d.stage = .calling → event.isOf d.generation = false) :
    Undisturbed now key r r' where
  entry := hentry
  marked d' hd' hp := marked_of_section hsound hs hmarked hd' hp
  calling e he d' hd' hd'lane hcalling := by
    cases delivery_of_section hsound hs hd' with
    | fresh _ _ hready => rw [hready] at hcalling; cases hcalling
    | @kept d hd hf _ hold =>
      exact ⟨d, hd, hf.generation.symm, hf.lane.symm.trans hd'lane, hold hcalling⟩
    | @called d _ hd hf _ hlive hevent =>
      -- who starts a call on the lane is the one that the mark names
      have hkey : d.key = key := hlanes.one_key e.lane d.key key
        (.inr (.inl ⟨d, hd, hf.lane.symm.trans hd'lane, rfl⟩))
        (.inl ⟨e, mem_of_entryFor? he, rfl, entryFor?_key he⟩)
      have hother := hmarked d hd (hkey ▸ hsound.pendingOf_of_live hd hlive)
      rw [hevent] at hother
      exact absurd rfl (of_decide_eq_false hother)
    | failed _ _ _ hidle => exact absurd hcalling hidle
  kept e he d hd hdlane hcalling := by
    obtain ⟨d', hd', heq⟩ := delivery_kept hs hcalm hlease hd (hlane e he d hd hdlane hcalling)
    exact ⟨d', hd', heq ▸ hdlane, heq ▸ hcalling⟩

/-- A delivery that goes on without calling. -/
theorem Undisturbed.of_resume (hsound : Sound r) (htracked : Tracked r) (hnil : r.renewals = [])
    (hlease : ∃ lease, r.leaseDeadline now = some lease) {caller : Caller}
    (hs : Section r now (.resume caller) r' []) : Undisturbed now key r r' := by
  have hupdate : ∀ {d : Delivery α} {stage : Delivery.Stage}, d ∈ r.deliveries →
      d.stage ≠ .calling → (stage = .ready ∨ stage = .queued) →
      (d.cancelled = false → isOn now d.stage) → r'.entryFor? key = r.entryFor? key →
      r'.deliveries = (r.updateDelivery d.generation (inStage stage)).deliveries →
      Undisturbed now key r r' := by
    intro d stage hd hidle hstage hon hentry hdeliveries
    have hmem : ∀ d' ∈ r'.deliveries, ∃ d₀ ∈ r.deliveries,
        d' = if d₀.generation = d.generation then inStage stage d₀ else d₀ := fun d' hd' =>
      mem_updateDelivery.mp (hdeliveries ▸ hd')
    refine ⟨hentry, fun d' hd' hp => ?_, fun e he d' hd' hlane hcalling => ?_,
      fun e he d₀ hd₀ hlane hcalling => ?_⟩
    · obtain ⟨d₀, hd₀, rfl⟩ := hmem d' hd'
      by_cases hg : d₀.generation = d.generation
      · obtain rfl := hsound.eq_of_generation hd₀ hd hg
        rw [if_pos rfl] at hp ⊢
        refine ⟨d₀, hd₀, rfl, rfl, .inr ⟨hon ?_, hstage⟩⟩
        exact (htracked.live_of_mark hsound hd₀ (by rw [hp]; rfl)).2
      · rw [if_neg hg] at hp ⊢
        exact ⟨d₀, hd₀, rfl, rfl, .inl rfl⟩
    · obtain ⟨d₀, hd₀, rfl⟩ := hmem d' hd'
      by_cases hg : d₀.generation = d.generation
      · rw [if_pos hg] at hcalling
        rcases hstage with rfl | rfl <;> cases hcalling
      · rw [if_neg hg] at hcalling hlane ⊢
        exact ⟨d₀, hd₀, rfl, hlane, hcalling⟩
    · have hg : d₀.generation ≠ d.generation := by
        intro hg
        rw [hsound.eq_of_generation hd₀ hd hg] at hcalling
        exact hidle hcalling
      refine ⟨d₀, ?_, hlane, hcalling⟩
      rw [hdeliveries]
      exact mem_updateDelivery.mpr ⟨d₀, hd₀, (if_neg hg).symm⟩
  cases hs with
  | @ended d hd hidle =>
    refine ⟨rfl, fun d' hd' _ => ?_, fun e _ d' hd' hlane hcalling => ?_,
      fun e _ d₀ hd₀ hlane hcalling => ⟨d₀, mem_finish.mpr ⟨hd₀, fun hg => ?_⟩, hlane, hcalling⟩⟩
    · exact ⟨d', (mem_finish.mp hd').1, rfl, rfl, .inl rfl⟩
    · exact ⟨d', (mem_finish.mp hd').1, rfl, hlane, hcalling⟩
    · rw [hsound.eq_of_generation hd₀ (mem_of_delivery? hd) hg] at hcalling
      exact hidle hcalling
  | queued hd hready =>
    exact hupdate (mem_of_delivery? hd) (by simp [hready]) (.inr rfl)
      (fun _ => by rw [hready]; trivial) rfl rfl
  | died _ _ _ _ hnone =>
    exact absurd hnone (Option.ne_none_iff_exists'.mpr hlease)
  | @woken d until_ hd hbackoff hdue =>
    refine hupdate (mem_of_delivery? hd) (by simp [hbackoff]) (.inl rfl) (fun hlive => ?_) rfl rfl
    rw [hbackoff]
    exact hdue.resolve_left (by simp [hlive])
  | renewalGone hn => exact absurd hn (renewal?_ne_of_nil hnil)
  | renewalDied hn => exact absurd hn (renewal?_ne_of_nil hnil)

/-- What the end of an attempt makes of the latest write. -/
theorem Getting.ended {d : Delivery α} {e : ReplicationEntry α}
    (he : r.entryFor? d.key = some e)
    (hpending : e.pending = some ⟨d.generation, true⟩) (ok : Bool) :
    ∃ e', (r.endAttempt now d ok).entryFor? d.key = some e' ∧ e'.current = e.current ∧
      e'.lane = e.lane ∧ Getting (r.endAttempt now d ok) now e'
        ((Progress.calling d.failures).returned r.plan now ok) := by
  have hplan : (r.release (.delivery d.generation)).plan = r.plan := rfl
  have hown : e.pending.map (·.generation) = some d.generation := by rw [hpending]; rfl
  have hsettled : ∀ p : Option Pending,
      ((r.attemptOver d.generation).updateEntry d.key (settled d.generation p)).entryFor? d.key =
        some { e with pending := p } := by
    intro p
    have hentry := (r.attemptOver d.generation).entryFor?_updateEntry d.key
      (settled_key d.generation p) d.key
    rw [if_pos rfl] at hentry
    refine hentry.trans ?_
    show (r.entryFor? d.key).map _ = _
    rw [he, Option.map_some, settled_of_eq hown]
  cases ok with
  | true => exact ⟨_, hsettled none, rfl, rfl, rfl⟩
  | false =>
    cases hdelay : r.plan.retry.delayAfter (d.failures + 1) with
    | none =>
      have hend : r.endAttempt now d false =
          ((r.attemptOver d.generation).markAbandoned d.key d.generation).finish d.generation := by
        simp only [endAttempt, Bool.false_eq_true, if_false, hplan, hdelay]
        rfl
      simp only [Progress.returned, Bool.false_eq_true, if_false, hdelay]
      rw [hend]
      exact ⟨_, hsettled (some ⟨d.generation, false⟩), rfl, rfl, d.generation, rfl⟩
    | some delay =>
      have hend : r.endAttempt now d false = (r.attemptOver d.generation).updateDelivery
          d.generation (inBackoff (d.failures + 1) (now + delay.timerMillis)) := by
        simp only [endAttempt, Bool.false_eq_true, if_false, hplan, hdelay]
        rfl
      simp only [Progress.returned, Bool.false_eq_true, if_false, hdelay]
      rw [hend]
      refine ⟨e, he, rfl, rfl, d.generation, hpending, fun d' hd' hg => ?_⟩
      obtain ⟨d₀, hd₀, rfl⟩ := mem_updateDelivery.mp hd'
      by_cases hg₀ : d₀.generation = d.generation
      · rw [if_pos hg₀]
        exact ⟨rfl, .inr rfl⟩
      · rw [if_neg hg₀] at hg
        exact absurd hg hg₀

/-- A flush leaves alone a key that has not been given up. -/
theorem entryFor?_flush (h : ∀ g, r.pendingOf key ≠ some ⟨g, false⟩) :
    r.flush.1.entryFor? key = r.entryFor? key := by
  refine flush_induction (motive := fun r₁ => r₁.entryFor? key = r.entryFor? key) ?_ r rfl
  intro r₁ k g action hsame hwrite
  have hk : key ≠ k := by
    rintro rfl
    have hp := abandonedWrite?_pendingOf hwrite
    rw [pendingOf, hsame] at hp
    exact h g hp
  rw [entryFor?_register, if_neg hk]
  exact hsame

namespace Clocked

variable {plan : ReplicationPlan} {since : Int} {conduct : Conduct α}
  {past : List (Clocked α × Deed α)} {s s' : Clocked α} {deed : Deed α} {v : KeyView α}

/-- A lane is taken by who is calling on it. -/
theorem ShowsLane.of_calling {lane : Nat} {shown : Option (Option (Int × Bool))}
    (h : s.ShowsLane lane shown) {r' : Replicator α}
    (hback : ∀ d' ∈ r'.deliveries, d'.lane = lane → d'.stage = .calling →
      ∃ d ∈ s.replicator.deliveries, d.generation = d'.generation ∧ d.lane = lane ∧
        d.stage = .calling)
    (hkept : ∀ d ∈ s.replicator.deliveries, d.lane = lane → d.stage = .calling →
      ∃ d' ∈ r'.deliveries, d'.lane = lane ∧ d'.stage = .calling) :
    ShowsLane { s with replicator := r' } lane shown where
  taken d' hd' hlane' hcalling' n hn hopen hcaller := by
    obtain ⟨d, hd, hg, hlane, hcalling⟩ := hback d' hd' hlane' hcalling'
    exact h.taken d hd hlane hcalling n hn hopen (hg ▸ hcaller)
  free htaken := by
    obtain ⟨d, hd, hlane, hcalling⟩ := h.free htaken
    exact hkept d hd hlane hcalling

theorem Shows.undisturbed (h : Shows s key v) {r' : Replicator α}
    (hu : Undisturbed s.now key s.replicator r') : Shows { s with replicator := r' } key v where
  calls := h.calls
  absent hnone := h.absent (hu.entry ▸ hnone)
  present e he := by
    rw [hu.entry] at he
    obtain ⟨⟨p, hwrite, hgetting⟩, hlane⟩ := h.present e he
    exact ⟨⟨p, hwrite, hgetting.of_marked he hu.marked⟩,
      hlane.of_calling (hu.calling e he) (hu.kept e he)⟩

/-! ### Requests -/

theorem Shows.register (h : Shows s key v) (hfit : Fit plan s) (action : α) :
    Shows { s with replicator := (s.replicator.register key action).1 } key
      (v.ask s.now (.register action)) := by
  have hentry := entryFor?_register s.replicator key action key
  rw [if_pos rfl] at hentry
  have hmem : ∀ d' ∈ (s.replicator.register key action).1.deliveries,
      (∃ d ∈ s.replicator.deliveries, d' = withdrawn (s.replicator.pendingOf key) d) ∨
        d' = s.replicator.freshDelivery key action := by
    intro d' hd'
    rw [deliveries_register, List.mem_append, List.mem_singleton] at hd'
    rcases hd' with hd' | hd'
    · obtain ⟨d, hd, rfl⟩ := List.mem_map.mp hd'
      exact .inl ⟨d, hd, rfl⟩
    · exact .inr hd'
  refine ⟨h.calls, fun hnone => ?_, fun e he => ?_⟩
  · rw [hentry] at hnone
    cases hnone
  obtain rfl : s.replicator.freshEntry key action = e := Option.some.inj (hentry.symm.trans he)
  refine ⟨⟨.waiting 0 s.now, rfl, s.replicator.nextGeneration, rfl, fun d' hd' hg => ?_⟩, ?_⟩
  · rcases hmem d' hd' with ⟨d, hd, rfl⟩ | rfl
    · rw [withdrawn_generation] at hg
      exact absurd hg (Nat.ne_of_lt (hfit.sound.generation_lt d hd))
    · exact ⟨rfl, .inl ⟨.inl rfl, Int.le_refl _⟩⟩
  · show ShowsLane _ (s.replicator.laneFor key) v.lane
    have hback : ∀ d' ∈ (s.replicator.register key action).1.deliveries, d'.stage = .calling →
        ∃ d ∈ s.replicator.deliveries, d.generation = d'.generation ∧ d.lane = d'.lane ∧
          d.stage = .calling := by
      intro d' hd' hcalling
      rcases hmem d' hd' with ⟨d, hd, rfl⟩ | rfl
      · obtain ⟨hg, -, -, hlane, -, hstage⟩ :=
          withdrawn_fields (s.replicator.pendingOf key) d
        exact ⟨d, hd, hg.symm, hlane.symm, hstage ▸ hcalling⟩
      · cases hcalling
    cases hold : s.replicator.entryFor? key with
    | some e =>
      have hlane : s.replicator.laneFor key = e.lane := by simp only [laneFor, hold]
      rw [hlane]
      refine (h.present e hold).2.of_calling (fun d' hd' hlane' hcalling => ?_)
        fun d hd hdlane hcalling => ?_
      · obtain ⟨d, hd, hg, hdlane, hcalling'⟩ := hback d' hd' hcalling
        exact ⟨d, hd, hg, hdlane.trans hlane', hcalling'⟩
      · obtain ⟨-, -, -, hlane', -, hstage'⟩ :=
          withdrawn_fields (s.replicator.pendingOf key) d
        refine ⟨_, ?_, hlane'.trans hdlane, hstage'.trans hcalling⟩
        rw [deliveries_register]
        exact List.mem_append_left _ (List.mem_map_of_mem hd)
    | none =>
      -- the lane is new, and nobody is on it
      have hlane : s.replicator.laneFor key = s.replicator.nextLane := by
        simp only [laneFor, hold]
      rw [hlane, (h.absent hold).2]
      refine ⟨fun d' hd' hlane' hcalling => ?_, fun htaken => by cases htaken⟩
      obtain ⟨d, hd, -, hdlane, -⟩ := hback d' hd' hcalling
      have hlt := hfit.lanes.lane_lt d.lane d.key (.inr (.inl ⟨d, hd, rfl, rfl⟩))
      rw [hdlane, hlane'] at hlt
      exact absurd hlt (Nat.lt_irrefl _)

theorem Shows.forget (h : Shows s key v) :
    Shows { s with replicator := s.replicator.forget key } key (v.ask s.now .forget) where
  calls := h.calls
  absent _ := ⟨rfl, rfl⟩
  present e he := by
    have hentry := entryFor?_forget s.replicator key key
    rw [if_pos rfl] at hentry
    rw [hentry] at he
    cases he

theorem Shows.flush (h : Shows s key v) (hfit : Fit plan s) :
    Shows { s with replicator := s.replicator.flushPending.1 } key (v.ask s.now .flush) := by
  have hs : Section s.replicator s.now .flush s.replicator.flushPending.1 [] := .flushed
  by_cases habandoned : ∃ g, s.replicator.pendingOf key = some ⟨g, false⟩
  · -- the latest write was given up, and gets a new delivery on the lane that it had
    obtain ⟨g, hp⟩ := habandoned
    obtain ⟨e, he, hpending⟩ := Option.bind_eq_some_iff.mp hp
    obtain ⟨⟨p, hwrite, hgetting⟩, hlane⟩ := h.present e he
    obtain rfl := hgetting.eq_abandoned hpending
    have hask : v.ask s.now .flush = { v with write := some (e.current, .waiting 0 s.now) } := by
      simp only [KeyView.ask, hwrite]
    obtain ⟨g', hnew, hp'⟩ := flush_abandoned hp
    obtain ⟨e', he', hpending'⟩ := Option.bind_eq_some_iff.mp hp'
    have hsame := SameWrite.flush s.replicator key
    rw [SameWrite, he, he'] at hsame
    obtain ⟨hcurrent, hlane'⟩ := Prod.mk.inj (Option.some.inj hsame)
    rw [hask]
    refine ⟨h.calls, fun hnone => ?_, fun e₁ he₁ => ?_⟩
    · exact absurd (he'.symm.trans hnone) (by simp)
    obtain rfl : e' = e₁ := Option.some.inj (he'.symm.trans he₁)
    refine ⟨⟨.waiting 0 s.now, by rw [hcurrent], g', hpending', fun d' hd' hg => ?_⟩, ?_⟩
    · rcases bystander_of_section hs hd' rfl with ⟨-, hfailures, hready⟩ | ⟨d, hd, heq⟩
      · exact ⟨hfailures, .inl ⟨.inl hready, Int.le_refl _⟩⟩
      · rw [heq] at hg
        exact absurd (hg ▸ hnew) (Nat.not_le_of_lt (hfit.sound.generation_lt d hd))
    · rw [hlane']
      refine hlane.of_calling (fun d' hd' hd'lane hcalling => ?_) fun d hd hdlane hcalling => ?_
      · rcases bystander_of_section hs hd' rfl with ⟨-, -, hready⟩ | ⟨d, hd, heq⟩
        · rw [hready] at hcalling
          cases hcalling
        · rw [heq] at hd'lane hcalling ⊢
          exact ⟨d, hd, rfl, hd'lane, hcalling⟩
      · obtain ⟨d', hd', heq⟩ := delivery_kept hs rfl hfit.leaseDeadline hd rfl
        exact ⟨d', hd', heq ▸ hdlane, heq ▸ hcalling⟩
  · -- the flush has nothing to do for the key
    have hnot : ∀ g, s.replicator.pendingOf key ≠ some ⟨g, false⟩ := fun g hp =>
      habandoned ⟨g, hp⟩
    have hask : v.ask s.now .flush = v := by
      unfold KeyView.ask
      dsimp only
      split
      · rename_i action hwrite
        cases he : s.replicator.entryFor? key with
        | none =>
          rw [(h.absent he).1] at hwrite
          cases hwrite
        | some e =>
          obtain ⟨⟨p, hwrite', hgetting⟩, -⟩ := h.present e he
          rw [hwrite] at hwrite'
          obtain ⟨-, rfl⟩ := Prod.mk.inj (Option.some.inj hwrite')
          obtain ⟨g, hp⟩ := hgetting
          exact absurd (by rw [pendingOf, he]; exact hp) (hnot g)
      · rfl
    rw [hask]
    refine h.undisturbed (Undisturbed.of_section hfit.sound hfit.lanes hs rfl hfit.leaseDeadline
      (entryFor?_flush hnot) (fun _ _ _ => rfl) fun _ _ _ _ _ _ => rfl)

/-! ### Calls and returns -/

/-- A lane that a delivery holds without calling is free. -/
theorem ShowsLane.eq_none {lane : Nat} {shown : Option (Option (Int × Bool))}
    (h : s.ShowsLane lane shown) (hsound : Sound s.replicator) {d : Delivery α}
    (hd : d ∈ s.replicator.deliveries) (hidle : d.stage ≠ .calling) (hlane : d.lane = lane)
    (hholds : s.replicator.holds d.lane (.delivery d.generation) = true) :
    shown = none ∧ ∀ d' ∈ s.replicator.deliveries, d'.lane = lane → d'.stage ≠ .calling := by
  have hfree : ∀ d' ∈ s.replicator.deliveries, d'.lane = lane → d'.stage ≠ .calling := by
    intro d' hd' hlane' hcalling
    have hholds' := hsound.calling d' hd' hcalling
    rw [hlane', ← hlane] at hholds'
    have hg := Caller.delivery.inj (holds_unique hholds hholds')
    rw [hsound.eq_of_generation hd hd' hg] at hidle
    exact hidle hcalling
  refine ⟨Option.not_isSome_iff_eq_none.mp fun htaken => ?_, hfree⟩
  obtain ⟨d', hd', hlane', hcalling⟩ := h.free htaken
  exact hfree d' hd' hlane' hcalling

/-- A call of the key starts: it is the step that the view takes. -/
theorem Shows.began (h : Shows s key v) (hfit : Fit plan s) (conduct : Conduct α)
    {event : Event α} {r' : Replicator α} {c : Call α}
    (hs : Section s.replicator s.now event r' [c]) (hkey : c.key = key) :
    ∃ v', v.next plan (conduct key) s.now = some v' ∧ Shows { s with
      replicator := r', notes := s.noteOf conduct c none :: s.notes } key v' := by
  obtain ⟨d, hd, hqueued, hholds, hlive, hlease, hc, -, hr'⟩ :=
    delivery_of_call hs hfit.renewals (List.mem_singleton_self c)
  have hd := mem_of_delivery? hd
  have hdkey : d.key = key := by rw [← hkey, hc]
  have haction : c.action = d.action := by rw [hc]
  have hcaller : c.caller = .delivery d.generation := by rw [hc]
  obtain ⟨e, he, hcurrent, hlane, hpending⟩ := hfit.sound.live d hd hlive
  rw [hdkey] at he
  obtain ⟨⟨p, hwrite, hgetting⟩, hshows⟩ := h.present e he
  obtain ⟨hfree, hnobody⟩ := hshows.eq_none hfit.sound hd (by simp [hqueued]) hlane.symm hholds
  -- the delivery is live, so it is that of the latest write, and has waited long enough
  obtain ⟨from_, hfrom, rfl⟩ : ∃ from_ ≤ s.now, p = .waiting d.failures from_ := by
    rcases hgetting.of_trying hd hpending with ⟨from_, rfl, ⟨-, hle⟩ | hbackoff⟩ | ⟨-, hcalling⟩
    · exact ⟨from_, hle, rfl⟩
    · rw [hqueued] at hbackoff
      cases hbackoff
    · rw [hqueued] at hcalling
      cases hcalling
  have hplan : plan.leaseDeadline s.now = some c.lease := by
    rw [← hfit.plan_eq]
    exact hlease
  have hcall : v.call (conduct key) s.now e.current d.failures c.lease =
      ⟨some (e.current, .calling d.failures), some (s.noteOf conduct c none).record.ends,
        (s.noteOf conduct c none).record :: v.calls⟩ := by
    simp only [KeyView.call, noteOf, manner, heard, hkey, h.calls, hcurrent, haction]
  refine ⟨v.call (conduct key) s.now e.current d.failures c.lease, ?_, ?_⟩
  · simp only [KeyView.next, hfree, hwrite, hfrom, if_true, hplan, Option.map_some]
  rw [hcall, hr']
  refine ⟨?_, fun hnone => ?_, fun e' he' => ?_⟩
  · rw [callsOf_note, noteOf_key, if_pos hkey, h.calls]
  · exact absurd (he.symm.trans hnone) (by simp)
  obtain rfl : e = e' := Option.some.inj (he.symm.trans he')
  have hmem : ∀ d' ∈ (s.replicator.updateDelivery d.generation (inStage .calling)).deliveries,
      d' = inStage .calling d ∨ d' ∈ s.replicator.deliveries ∧ d'.generation ≠ d.generation := by
    intro d' hd'
    obtain ⟨d₀, hd₀, rfl⟩ := mem_updateDelivery.mp hd'
    by_cases hg : d₀.generation = d.generation
    · rw [if_pos hg, hfit.sound.eq_of_generation hd₀ hd hg]
      exact .inl rfl
    · rw [if_neg hg]
      exact .inr ⟨hd₀, hg⟩
  refine ⟨⟨.calling d.failures, rfl, d.generation, hpending, fun d' hd' hg => ?_⟩, ?_, fun _ => ?_⟩
  · rcases hmem d' hd' with rfl | ⟨-, hother⟩
    · exact ⟨rfl, rfl⟩
    · exact absurd hg hother
  · intro d' hd' hd'lane hcalling n hn hopen hncaller
    rcases hmem d' hd' with rfl | ⟨hd', -⟩
    · rcases List.mem_cons.mp hn with rfl | hn
      · rfl
      · exact absurd (hncaller.trans hcaller.symm)
          ((hfit.noted.start hfit.sound hfit.renewals hs).1 n hn hopen).1
    · exact absurd hcalling (hnobody d' hd' hd'lane)
  · exact ⟨inStage .calling d, mem_updateDelivery.mpr ⟨d, hd, (if_pos rfl).symm⟩, hlane.symm, rfl⟩

/-- A call of another key starts. -/
theorem Shows.began_other (h : Shows s key v) (hfit : Fit plan s) {event : Event α}
    {r' : Replicator α} {c : Call α} (hs : Section s.replicator s.now event r' [c])
    (hcalm : event.isCalm = true) (hkey : c.key ≠ key) : Shows { s with
      replicator := r', notes := s.noteOf conduct c none :: s.notes } key v := by
  obtain ⟨d, hd, hqueued, -, hlive, -, hc, hevent, hr'⟩ :=
    delivery_of_call hs hfit.renewals (List.mem_singleton_self c)
  have hd := mem_of_delivery? hd
  have hdkey : d.key ≠ key := by rwa [hc] at hkey
  have hentry : r'.entryFor? key = s.replicator.entryFor? key := by rw [hr']; rfl
  have hmarked : ∀ d' ∈ s.replicator.deliveries,
      s.replicator.pendingOf key = some ⟨d'.generation, true⟩ →
        event.isOf d'.generation = false := by
    intro d' hd' hp
    rw [hevent]
    refine decide_eq_false fun hg => hdkey ?_
    rw [hfit.sound.eq_of_generation hd hd' hg]
    exact (hfit.tracked.live_of_mark hfit.sound hd' (by rw [hp]; rfl)).1
  have hu := Undisturbed.of_section hfit.sound hfit.lanes hs hcalm hfit.leaseDeadline hentry hmarked
    fun e he d' hd' _ hcalling => isOf_of_calling hs hfit.sound
      (endsCall_of_call hs (List.mem_singleton_self c)) hd' hcalling
  have hold := h.undisturbed hu
  refine ⟨?_, hold.absent, fun e he => ?_⟩
  · rw [callsOf_note, noteOf_key, if_neg hkey]
    exact h.calls
  obtain ⟨hwrite, hlane⟩ := hold.present e he
  refine ⟨hwrite, fun d' hd' hd'lane hcalling n hn hopen hncaller => ?_, hlane.free⟩
  rcases List.mem_cons.mp hn with rfl | hn
  · -- the one that has started its call is of another key, and on another lane
    have hfit' := hfit.began conduct hs hcalm
    obtain ⟨d₁, hd₁, -, hcaller₁, hkey₁⟩ := hfit'.noted.open_calling _ List.mem_cons_self rfl
    have hsame := hfit'.sound.eq_of_generation hd' hd₁
      (Caller.delivery.inj (hncaller.symm.trans hcaller₁))
    have hone := hfit'.lanes.one_key e.lane d'.key key
      (.inr (.inl ⟨d', hd', hd'lane, rfl⟩)) (.inl ⟨e, mem_of_entryFor? he, rfl, entryFor?_key he⟩)
    rw [hsame, ← hkey₁] at hone
    exact absurd hone hkey
  · exact hlane.taken d' hd' hd'lane hcalling n hn hopen hncaller

/-- A return that the view has nothing to do with. -/
theorem Shows.return (h : Shows s key v) (caller : Caller) (how : Int × Bool) :
    Shows { s with notes := s.notes.map (CallNote.return caller how) } key v where
  calls := (callsOf_return s s.replicator caller how key).trans h.calls
  absent := h.absent
  present e he := by
    obtain ⟨hwrite, hlane⟩ := h.present e he
    refine ⟨hwrite, fun d hd hdlane hcalling n hn hopen hcaller => ?_, hlane.free⟩
    exact hlane.taken d hd hdlane hcalling n (mem_notes_of_return hn hopen).1 hopen hcaller

/-- What the return of a call on the lane of a key makes of the latest write. -/
theorem Getting.returned (hfit : Fit plan s) {d : Delivery α} {e : ReplicationEntry α}
    {p : Progress} {ok : Bool} (hd : d ∈ s.replicator.deliveries) (hcalling : d.stage = .calling)
    (hkey : d.key = key) (he : s.replicator.entryFor? key = some e) (hlane : d.lane = e.lane)
    (hgetting : Getting s.replicator s.now e p)
    (hs : Section s.replicator s.now (.callEnded (.delivery d.generation) ok)
      (s.replicator.endAttempt s.now d ok) []) :
    ∃ e', (s.replicator.endAttempt s.now d ok).entryFor? key = some e' ∧
      e'.current = e.current ∧ e'.lane = e.lane ∧
      Getting (s.replicator.endAttempt s.now d ok) s.now e' (p.returned plan s.now ok) := by
  cases hlive : d.cancelled with
  | false =>
    -- it was a call of the latest write
    obtain ⟨e₁, he₁, -, -, hpending⟩ := hfit.sound.live d hd hlive
    rw [hkey, he] at he₁
    obtain rfl := Option.some.inj he₁
    obtain rfl : p = .calling d.failures := by
      rcases hgetting.of_trying hd hpending with ⟨from_, -, hwaits⟩ | ⟨hp, -⟩
      · simp [hcalling] at hwaits
      · exact hp
    rw [← hkey] at he ⊢
    rw [← hfit.plan_eq]
    exact Getting.ended he hpending ok
  | true =>
    -- it was a call of a write before it
    have hmark : (s.replicator.pendingOf key).map (·.generation) ≠ some d.generation := by
      intro hmark
      rw [(hfit.tracked.live_of_mark hfit.sound hd hmark).2] at hlive
      cases hlive
    have hsame : p.returned plan s.now ok = p := by
      cases p with
      | calling failures =>
        obtain ⟨g, hp, hall⟩ := hgetting
        obtain ⟨d₁, hd₁, rfl, hkey₁, hlive₁⟩ :=
          hfit.tracked.trying key g (by rw [pendingOf, he]; exact hp)
        obtain ⟨e₁, he₁, -, hlane₁, -⟩ := hfit.sound.live d₁ hd₁ hlive₁
        rw [hkey₁, he] at he₁
        obtain rfl := Option.some.inj he₁
        have hholds₁ := hfit.sound.calling d₁ hd₁ (hall d₁ hd₁ rfl).2
        rw [← hlane₁, ← hlane] at hholds₁
        have hg := holds_unique hholds₁ (hfit.sound.calling d hd hcalling)
        rw [hfit.sound.eq_of_generation hd₁ hd (Caller.delivery.inj hg), hlive] at hlive₁
        cases hlive₁
      | _ => rfl
    rw [hsame]
    refine ⟨e, (entryFor?_of_isOf hs (decide_eq_true rfl) hmark).trans he, rfl, rfl,
      hgetting.of_marked he fun d' hd' hp => marked_of_section hfit.sound hs ?_ hd' hp⟩
    intro d₁ _ hp₁
    refine decide_eq_false fun hg => hmark ?_
    rw [hp₁, hg]
    rfl

/-- A call in progress returns: if it is on the lane of the key, that is the step that the view
takes. -/
theorem Shows.returned (h : Shows s key v) (hfit : Fit plan s) {n : CallNote α} {due : Int}
    {ok : Bool} {r' : Replicator α} (hn : n ∈ s.notes) (hopen : n.returned = none)
    (hends : n.record.ends = some (due, ok)) (hdue : due ≤ s.now)
    (hstep : s.replicator.step s.now (.callEnded n.caller ok) = some (r', []))
    (conduct : List (α × Int) → Manner) :
    ∃ v', (v' = v ∨ v.next plan conduct s.now = some v') ∧ Shows { s with
      replicator := r', notes := s.notes.map (CallNote.return n.caller (s.now, ok)) } key v' := by
  obtain ⟨d, hd, hcalling, hcaller, -⟩ := hfit.noted.open_calling n hn hopen
  have hs := section_of_step hstep
  rw [hcaller] at hs
  by_cases hon : ∃ e, s.replicator.entryFor? key = some e ∧ d.lane = e.lane
  · obtain ⟨e, he, hdlane⟩ := hon
    have hkey : d.key = key := hfit.lanes.one_key e.lane d.key key
      (.inr (.inl ⟨d, hd, hdlane, rfl⟩)) (.inl ⟨e, mem_of_entryFor? he, rfl, entryFor?_key he⟩)
    obtain ⟨⟨p, hwrite, hgetting⟩, hlane⟩ := h.present e he
    have htaken : v.lane = some (some (due, ok)) := by
      rw [hlane.taken d hd hdlane hcalling n hn hopen hcaller, hends]
    obtain ⟨d₁, hd₁, -, rfl⟩ := endAttempt_of_step (hcaller ▸ hstep)
    obtain rfl : d = d₁ := Option.some.inj ((hfit.sound.delivery?_of_mem hd).symm.trans hd₁)
    obtain ⟨e', he', hcurrent, hlane', hgetting'⟩ :=
      Getting.returned hfit hd hcalling hkey he hdlane hgetting hs
    refine ⟨⟨some (e.current, p.returned plan s.now ok), none, v.calls⟩, .inr ?_, ?_⟩
    · simp only [KeyView.next, htaken, hdue, if_true, hwrite, Option.map_some]
    refine ⟨(callsOf_return ..).trans h.calls, fun hnone => ?_, fun e₁ he₁ => ?_⟩
    · exact absurd (he'.symm.trans hnone) (by simp)
    obtain rfl : e' = e₁ := Option.some.inj (he'.symm.trans he₁)
    refine ⟨⟨_, by rw [hcurrent], hgetting'⟩, fun d' hd' hd'lane hcalling' => ?_,
      fun htaken => by cases htaken⟩
    -- who was calling on the lane has returned, and there was nobody else
    obtain ⟨d₂, hd₂, hcalling₂, hfollows, hother⟩ :=
      calling_of_callEnded hfit.sound hs hd' hcalling'
    have hholds₂ := hfit.sound.calling d₂ hd₂ hcalling₂
    rw [← hfollows.lane, hd'lane, hlane', ← hdlane] at hholds₂
    exact absurd (holds_unique (hfit.sound.calling d hd hcalling) hholds₂) hother
  · -- the key has been forgotten since, or the call is of another key
    refine ⟨v, .inl rfl, Shows.return (h.undisturbed ?_) n.caller (s.now, ok)⟩
    have hmark : (s.replicator.pendingOf key).map (·.generation) ≠ some d.generation := by
      intro hmark
      obtain ⟨rfl, hlive⟩ := hfit.tracked.live_of_mark hfit.sound hd hmark
      obtain ⟨e, he, -, hlane, -⟩ := hfit.sound.live d hd hlive
      exact hon ⟨e, he, hlane.symm⟩
    refine Undisturbed.of_section hfit.sound hfit.lanes hs rfl hfit.leaseDeadline
      (entryFor?_of_isOf hs (decide_eq_true rfl) hmark) ?_ ?_
    · intro d' hd' hp
      refine decide_eq_false fun hg => hmark ?_
      rw [hp, hg]
      rfl
    · intro e he d' hd' hlane' _
      refine decide_eq_false fun hg => hon ⟨e, he, ?_⟩
      rw [hfit.sound.eq_of_generation hd hd' hg]
      exact hlane'

end Clocked

end Floodgate.Replicator
