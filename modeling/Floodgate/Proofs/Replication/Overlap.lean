import Floodgate.Proofs.Replication.Lane
import Floodgate.Proofs.Replication.Line
/-!
# Floodgate.Proofs.Replication.Overlap

**When calls of one key overlap.** Calls of a key exclude each other in every run in which the key
is forgotten only while it is not engaged (`OneLane`). This is all that can be said: whenever a key
is engaged, forgetting it and registering a write for it can lead to two calls of the key at once
(`overlap_iff_forgotten_engaged`). The new write gets a new lane, and what was bound to the old one
goes on, a call in progress as well as a renewal that has only got in line.

The renewal takes some steps. It may stand behind deliveries of the key that were forgotten with it;
these are cancelled, and leave one after the other until a renewal or a call in progress is first.
-/

namespace Floodgate.Replicator

variable {α : Type} {r : Replicator α} {plan : ReplicationPlan} {since now : Int}
  {history : List (Moment α)} {key : String} {action : α}

/-! ### Going on to an overlap -/

/-- Forgetting a key, registering a write for it, and letting tasks go on, all at one instant. -/
def Moment.rewrites (m : Moment α) (key : String) (action : α) (now : Int) : Prop :=
  m.now = now ∧ (m.event = .forget key ∨ m.event = .register key action ∨
    ∃ caller, m.event = .resume caller)

/-- A run can go on, in such moments only, to two calls of a key at once. -/
def CanOverlap (plan : ReplicationPlan) (since now : Int) (key : String) (action : α)
    (history : List (Moment α)) : Prop :=
  ∃ more r', Run plan since (more ++ history) r' ∧ (∀ m ∈ more, m.rewrites key action now) ∧
    2 ≤ (r'.callersOf key).length

theorem CanOverlap.step {m : Moment α} (h : CanOverlap plan since now key action (m :: history))
    (hm : m.rewrites key action now) : CanOverlap plan since now key action history := by
  obtain ⟨more, r', hrun, hmore, htwo⟩ := h
  refine ⟨more ++ [m], r', by simpa using hrun, ?_, htwo⟩
  intro m' hm'
  rcases List.mem_append.mp hm' with hm' | hm'
  · exact hmore m' hm'
  · exact List.mem_singleton.mp hm' ▸ hm

/-- Two different callers are two. -/
theorem CanOverlap.of_two (h : Run plan since history r) {c c' : Caller} (hne : c ≠ c')
    (hc : c ∈ r.callersOf key) (hc' : c' ∈ r.callersOf key) :
    CanOverlap plan since now key action history := by
  refine ⟨[], r, h, fun _ hm => absurd hm List.not_mem_nil, ?_⟩
  have hsub : [c, c'] ⊆ r.callersOf key := by
    intro x hx
    rcases List.mem_cons.mp hx with rfl | hx
    · exact hc
    · exact List.mem_singleton.mp hx ▸ hc'
  have hnodup : [c, c'].Nodup := by simp [hne]
  exact hnodup.length_le_of_subset hsub

/-- While the new delivery of a key calls, a renewal on another lane of the key gets its turn, or
somebody before it in line is calling. -/
theorem CanOverlap.of_renewal {lease : Timestamp} (hlease : plan.leaseDeadline now = some lease)
    {d : Delivery α} (hcalling : d.stage = .calling) (hlive : d.cancelled = false)
    (hkey : d.key = key) {n : Renewal} (hn : n.key = key) (hlane : n.lane ≠ d.lane)
    (h : Run plan since history r) (hd : d ∈ r.deliveries) (hmem : n ∈ r.renewals) :
    CanOverlap plan since now key action history := by
  induction hlength : r.claims.length using Nat.strongRecOn generalizing r history with
  | ind length ih =>
  have hsound := h.sound
  have hcaller : .delivery d.generation ∈ r.callersOf key :=
    mem_callersOf.mpr (.inl ⟨d, hd, hkey, hcalling, rfl⟩)
  obtain ⟨e, he, -, helane, -⟩ := hsound.live d hd hlive
  have hline : ∃ c ∈ r.claims, c.lane = n.lane :=
    ⟨n.claim, (h.lined n.claim).mpr (.inr ⟨n, hmem, rfl⟩), rfl⟩
  rcases h.lined.first_in_line h.lanes hline (.inr (.inr ⟨n, hmem, rfl, rfl⟩)) with
    ⟨d₀, hd₀, hlane₀, hkey₀, hwaits, hinLine, hholds⟩ | ⟨n₀, hn₀, hlane₀, hkey₀, hholds⟩
  · have hne : d₀.generation ≠ d.generation := fun hg =>
      hlane (by rw [← hlane₀, hsound.eq_of_generation hd₀ hd hg])
    rcases hwaits with hqueued | hcalling₀
    · cases hcancelled : d₀.cancelled with
      | true =>
        -- it leaves, and the line is shorter
        have hshorter : (r.finish d₀.generation).claims.length < length := by
          rw [← hlength]
          refine List.length_filter_lt_length_iff_exists.mpr ⟨place d₀, hinLine, ?_⟩
          simp [place]
        have hstep : r.step now _ = _ := step_ended (hsound.delivery?_of_mem hd₀) hqueued
          hholds hcancelled
        have hrest := ih _ hshorter (h.next hstep) (mem_finish.mpr ⟨hd, hne.symm⟩) hmem rfl
        exact hrest.step ⟨rfl, .inr (.inr ⟨_, rfl⟩)⟩
      | false =>
        -- it would be on the lane of the entry, which is that of the new delivery
        obtain ⟨e₀, he₀, -, helane₀, -⟩ := hsound.live d₀ hd₀ hcancelled
        rw [hkey₀, hn, ← hkey, he] at he₀
        obtain rfl := Option.some.inj he₀
        exact absurd (hlane₀.symm.trans (helane₀.symm.trans helane)) hlane
    · have hcaller₀ : .delivery d₀.generation ∈ r.callersOf key :=
        mem_callersOf.mpr (.inl ⟨d₀, hd₀, hkey₀.trans hn, hcalling₀, rfl⟩)
      exact .of_two h (fun heq => hne (Caller.delivery.inj heq)) hcaller₀ hcaller
  · cases hcalling₀ : n₀.calling with
    | true =>
      have hcaller₀ : .renewal n₀.number ∈ r.callersOf key :=
        mem_callersOf.mpr (.inr ⟨n₀, hn₀, hkey₀.trans hn, hcalling₀, rfl⟩)
      exact .of_two h (by simp) hcaller₀ hcaller
    | false =>
      have hentry : r.entryFor? n₀.key = some e := by rw [hkey₀, hn, ← hkey, he]
      have hfound : r.renewal? n₀.number = some n₀ :=
        (Keyed.find?_eq_some_iff hsound.numbers).mpr ⟨hn₀, rfl⟩
      have hleaseNow : r.leaseDeadline now = some lease := by
        rw [leaseDeadline, h.plan_eq, hlease]
      have hstep : r.step now _ = _ := step_renewed hfound hcalling₀ hholds hentry hleaseNow
      have hnew : Caller.renewal n₀.number ∈ _ :=
        mem_callersOf_of_call (section_of_step hstep) List.mem_cons_self
      have hover : CanOverlap plan since now key action (_ :: history) :=
        .of_two (h.next hstep) (by simp) (hkey₀.trans hn ▸ hnew)
          (mem_callersOf.mpr (.inl ⟨d, hd, hkey, hcalling, rfl⟩))
      exact hover.step ⟨rfl, .inr (.inr ⟨_, rfl⟩)⟩

/-- A delivery whose lane is free gets to call, and leaves everything else as it is. -/
theorem CanOverlap.of_ready {lease : Timestamp} (hlease : plan.leaseDeadline now = some lease)
    (h : Run plan since history r) {d : Delivery α} (hd : d ∈ r.deliveries)
    (hready : d.stage = .ready) (hlive : d.cancelled = false)
    (hfree : ∀ c ∈ r.claims, c.lane ≠ d.lane)
    (hnext : ∀ history' r', Run plan since history' r' → inStage .calling d ∈ r'.deliveries →
      (∀ d' ∈ r.deliveries, d'.generation ≠ d.generation → d' ∈ r'.deliveries) →
      r'.renewals = r.renewals → CanOverlap plan since now key action history') :
    CanOverlap plan since now key action history := by
  have hqueue : r.step now _ = _ := step_queued (h.sound.delivery?_of_mem hd) hready hlive
  have hqueued := h.next hqueue
  generalize hr₁ : (r.updateDelivery d.generation (inStage .queued)).claim d.lane
    (.delivery d.generation) = r₁ at hqueue hqueued
  have hmem : inStage .queued d ∈ r₁.deliveries := by
    rw [← hr₁]
    exact mem_updateDelivery.mpr ⟨d, hd, (if_pos rfl).symm⟩
  have hholds : r₁.holds d.lane (.delivery d.generation) = true := by
    have hnone : r.claims.find? (·.lane == d.lane) = none := Keyed.find?_eq_none_iff.mpr hfree
    rw [← hr₁, holds_iff]
    simp [claim, updateDelivery, List.find?_append, hnone]
  have hleaseNow : r₁.leaseDeadline now = some lease := by
    rw [leaseDeadline, hqueued.plan_eq, hlease]
  have hcall : r₁.step now _ = _ :=
    step_called (hqueued.sound.delivery?_of_mem hmem) rfl hholds hlive hleaseNow
  refine (CanOverlap.step (hnext _ _ (hqueued.next hcall) ?_ ?_ ?_)
    ⟨rfl, .inr (.inr ⟨_, rfl⟩)⟩).step ⟨rfl, .inr (.inr ⟨_, rfl⟩)⟩
  · exact mem_updateDelivery.mpr ⟨_, hmem, (if_pos rfl).symm⟩
  · intro d' hd' hne
    refine mem_updateDelivery.mpr ⟨d', ?_, (if_neg hne).symm⟩
    rw [← hr₁]
    exact mem_updateDelivery.mpr ⟨d', hd', (if_neg hne).symm⟩
  · rw [← hr₁]
    rfl

/-- Forgetting a key and registering a write for it gets a delivery on a new lane to call, while
everybody else goes on. -/
theorem CanOverlap.of_rewritten {lease : Timestamp} (hlease : plan.leaseDeadline now = some lease)
    (h : Run plan since history r) (hup : r.isShutDown = false)
    (hnext : ∀ history' r' (new : Delivery α), Run plan since history' r' →
      new ∈ r'.deliveries → new.generation = r.nextGeneration → new.key = key →
      new.lane = r.nextLane → new.stage = .calling → new.cancelled = false →
      (∀ d ∈ r.deliveries, ∃ d' ∈ r'.deliveries, d'.generation = d.generation ∧ d'.key = d.key ∧
        d'.stage = d.stage) →
      r'.renewals = r.renewals → CanOverlap plan since now key action history') :
    CanOverlap plan since now key action history := by
  have hforget : r.step now (.forget key) = some (r.forget key, []) := rfl
  have hforgotten := h.next hforget
  obtain ⟨hnone, hgeneration, hnextLane, hdown, hrenewals, hdeliveries⟩ :
      (r.forget key).entryFor? key = none ∧ (r.forget key).nextGeneration = r.nextGeneration ∧
        (r.forget key).nextLane = r.nextLane ∧ (r.forget key).isShutDown = r.isShutDown ∧
        (r.forget key).renewals = r.renewals ∧
        (r.forget key).deliveries = r.deliveries.map (withdrawn (r.pendingOf key)) := by
    refine ⟨by rw [entryFor?_forget, if_pos rfl], ?_⟩
    rw [forget_eq]
    exact ⟨rfl, rfl, rfl, rfl, rfl⟩
  generalize r.forget key = r₁ at *
  have hregister : r₁.step now (.register key action) =
    some ((r₁.register key action).1, []) := rfl
  have hregistered := hforgotten.next hregister
  have hlane : r₁.laneFor key = r.nextLane := by simp only [laneFor, hnone, hnextLane]
  obtain ⟨-, hsame, hclaims, -⟩ := r₁.register_frame key action
  have hfresh : r₁.freshDelivery key action ∈ (r₁.register key action).1.deliveries := by
    rw [deliveries_register]
    exact List.mem_append_right _ (List.mem_singleton_self _)
  have hover : CanOverlap plan since now key action
      (⟨r₁, now, .register key action, (r₁.register key action).1, []⟩ ::
        ⟨r, now, .forget key, r₁, []⟩ :: history) := by
    refine .of_ready hlease hregistered hfresh rfl (hdown.trans hup) ?_ ?_
    · -- the lane is new
      intro c hc
      rw [hclaims] at hc
      have hlt : c.lane < r₁.nextLane := by
        rcases (hforgotten.lined c).mp hc with ⟨d, hd, -, rfl⟩ | ⟨n, hn, rfl⟩
        · exact hforgotten.lanes.lane_lt d.lane d.key (.inr (.inl ⟨d, hd, rfl, rfl⟩))
        · exact hforgotten.lanes.lane_lt n.lane n.key (.inr (.inr ⟨n, hn, rfl, rfl⟩))
      exact Nat.ne_of_lt (Nat.lt_of_lt_of_eq hlt (hnextLane.trans hlane.symm))
    · intro history' r' hrun hcalling hothers hrenewals'
      refine hnext history' r' _ hrun hcalling hgeneration rfl hlane rfl (hdown.trans hup) ?_
        (hrenewals'.trans (hsame.trans hrenewals))
      intro d hd
      -- the delivery has been withdrawn twice
      have hd₁ : withdrawn (r.pendingOf key) d ∈ r₁.deliveries :=
        hdeliveries ▸ List.mem_map_of_mem hd
      obtain ⟨hg₁, hkey₁, -, -, -, hstage₁⟩ := withdrawn_fields (r.pendingOf key) d
      obtain ⟨hg₂, hkey₂, -, -, -, hstage₂⟩ :=
        withdrawn_fields (r₁.pendingOf key) (withdrawn (r.pendingOf key) d)
      refine ⟨_, hothers _ ?_ ?_, hg₂.trans hg₁, hkey₂.trans hkey₁, hstage₂.trans hstage₁⟩
      · rw [deliveries_register]
        exact List.mem_append_left _ (List.mem_map_of_mem hd₁)
      · rw [hg₂, hg₁]
        exact Nat.ne_of_lt (Nat.lt_of_lt_of_eq (h.sound.generation_lt d hd) hgeneration.symm)
  exact (hover.step ⟨rfl, .inr (.inl rfl)⟩).step ⟨rfl, .inl rfl⟩

/-- Forgetting an engaged key and registering for it leads to an overlap. -/
theorem CanOverlap.of_engaged {lease : Timestamp} (hlease : plan.leaseDeadline now = some lease)
    (h : Run plan since history r) (hup : r.isShutDown = false) (hengaged : r.engaged key = true) :
    CanOverlap plan since now key action history := by
  refine .of_rewritten hlease h hup fun history' r' new hrun hnew hgeneration hkey hlane hcalling
    hlive hothers hrenewals => ?_
  rcases exists_of_engaged hengaged with ⟨d, hd, hdkey, hstage⟩ | ⟨n, hn, hnkey⟩
  · -- a delivery that is calling goes on calling
    obtain ⟨d', hd', hg', hkey', hstage'⟩ := hothers d hd
    have hne : d'.generation ≠ new.generation := by
      rw [hg', hgeneration]
      exact Nat.ne_of_lt (h.sound.generation_lt d hd)
    exact .of_two hrun (fun heq => hne (Caller.delivery.inj heq))
      (mem_callersOf.mpr (.inl ⟨d', hd', hkey'.trans hdkey, hstage'.trans hstage, rfl⟩))
      (mem_callersOf.mpr (.inl ⟨new, hnew, hkey, hcalling, rfl⟩))
  · -- a renewal is on an older lane
    have hlt := h.lanes.lane_lt n.lane n.key (.inr (.inr ⟨n, hn, rfl, rfl⟩))
    refine .of_renewal hlease hcalling hlive hkey hnkey ?_ hrun hnew (hrenewals ▸ hn)
    rw [hlane]
    exact Nat.ne_of_lt hlt

/-- **Calls of a key overlap only if the key was forgotten while it was engaged, and whenever it is
engaged, forgetting it can make them overlap.** -/
theorem overlap_iff_forgotten_engaged (h : Run plan since history r) (key : String) :
    ((∀ m ∈ history, m.event = .forget key → m.before.engaged key = false) →
      (r.callersOf key).length ≤ 1) ∧
    ∀ now lease action, plan.leaseDeadline now = some lease → r.isShutDown = false →
      r.engaged key = true → CanOverlap plan since now key action history := by
  constructor
  · intro hforget
    exact (h.oneLane hforget).length_callersOf_le h.sound
  · intro now lease action hlease hup hengaged
    exact CanOverlap.of_engaged hlease h hup hengaged

/-- While the first write of a key is being called, it is called alone, and it need not stay so. -/
theorem overlap_iff_forgotten_engaged_of_call :
    ∃ (history : List (Moment Nat)) (r : Replicator Nat), Run quietPlan 0 history r ∧
      (∀ m ∈ history, m.event = .forget "k" → m.before.engaged "k" = false) ∧
      quietPlan.leaseDeadline 1 ≠ none ∧ r.isShutDown = false ∧ r.engaged "k" = true ∧
      (r.callersOf "k").length ≤ 1 ∧ CanOverlap quietPlan 0 1 "k" 2 history := by
  obtain ⟨history, r, hrun, hp⟩ := exists_run_of_replay quietPlan 0
    [(0, .forget "k"), (0, .register "k" 1), (0, .resume (.delivery 1)),
      (0, .resume (.delivery 1))]
    (fun history r => history.all (fun m => !m.before.engaged "k") && !r.isShutDown &&
      r.engaged "k")
    (by decide)
  simp only [Bool.and_eq_true, List.all_eq_true, Bool.not_eq_true'] at hp
  obtain ⟨⟨hidle, hup⟩, hengaged⟩ := hp
  have hlease : (quietPlan.leaseDeadline 1).isSome = true := by decide
  obtain ⟨lease, hlease⟩ := Option.isSome_iff_exists.mp hlease
  have hforget : ∀ m ∈ history, m.event = .forget "k" → m.before.engaged "k" = false :=
    fun m hm _ => hidle m hm
  obtain ⟨hone, hover⟩ := overlap_iff_forgotten_engaged hrun "k"
  refine ⟨history, r, hrun, hforget, by simp [hlease], hup, hengaged, hone hforget, ?_⟩
  exact hover 1 lease 2 hlease hup hengaged

/-- A key is forgotten while its first write is being called, and the second one joins it. -/
theorem forget_overlaps_calls : ∃ (history : List (Moment Nat)) (r : Replicator Nat),
    Run quietPlan 0 history r ∧ r.callersOf "k" = [.delivery 1, .delivery 2] := by
  obtain ⟨history, r, hrun, hp⟩ := exists_run_of_replay quietPlan 0
    [(0, .register "k" 1), (0, .resume (.delivery 1)), (0, .resume (.delivery 1)),
      (10, .forget "k"), (10, .register "k" 2), (10, .resume (.delivery 2)),
      (10, .resume (.delivery 2))]
    (fun _ r => r.callersOf "k" == [.delivery 1, .delivery 2])
    (by decide)
  exact ⟨history, r, hrun, eq_of_beq hp⟩

end Floodgate.Replicator
