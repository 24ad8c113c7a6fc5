import Mathlib.Data.List.Perm.Basic
import Mathlib.Data.List.Nodup
import Floodgate.Proofs.PeerStore.Ranking
import Floodgate.Proofs.Verdict
/-!
# Floodgate.Proofs.PeerStore.Regrouping

**Views are merged alike in every order and in every grouping.** Peers and instances come in no
particular order, and nothing but the leases may decide which status of an instance wins. Without
ties the merged statuses are those that rank highest, so that they depend on the statuses that the
views hold and on nothing else (`mergeViews_perm_of_mem`): neither on where a status stands nor on
how often.

Views may also be merged in groups first. A view that holds, for each instance, one of the statuses
of the group that rank highest stands for the group (`StandsFor`), and what is merged from such
views stands for all of their groups.

Main statement: `merged_in_any_order`.
-/

namespace Floodgate

variable {views views' : List View} {s s' : Status}

/-- The lease of a status ends no later than that of another one, which may have none. -/
def Status.EndsBy (s s' : Status) : Prop :=
  ∀ t', s'.validUntil = some t' → ∃ t, s.validUntil = some t ∧ t.millis ≤ t'.millis

/-- A status ranks no higher than another one exactly if its lease ends no later. -/
theorem Status.leaseRank_le_iff : s.leaseRank ≤ s'.leaseRank ↔ s.EndsBy s' := by
  unfold leaseRank EndsBy
  cases hs' : s'.validUntil with
  | none =>
    -- whatever ends is earlier than no end at all
    cases s.validUntil with
    | none => simp
    | some t =>
      have hmax := t.le_max
      simp only [reduceCtorEq, false_implies, implies_true, iff_true]
      omega
  | some t' =>
    cases s.validUntil with
    | none =>
      have hmax := t'.le_max
      simp only [Option.some.injEq, forall_eq', reduceCtorEq, false_and, exists_false, iff_false]
      omega
    | some t => simp

/-! ### What the merged statuses depend on -/

theorem Untied.of_mem (huntied : Untied views) (hfrom : ∀ s ∈ viewed views', s ∈ viewed views) :
    Untied views' := fun s hs s' hs' =>
  huntied s (hfrom s hs) s' (hfrom s' hs')

/-- **Views that hold the same statuses are merged alike.** -/
theorem mergeViews_perm_of_mem (huntied : Untied views)
    (hsame : ∀ s, s ∈ viewed views' ↔ s ∈ viewed views) :
    (mergeViews views').Perm (mergeViews views) := by
  have huntied' : Untied views' := huntied.of_mem fun s => (hsame s).mp
  have hnodup : ∀ views, (mergeViews views).Nodup := fun views =>
    List.Nodup.of_map Status.instanceId (nodup_mergeViews views)
  refine (List.perm_ext_iff_of_nodup (hnodup views') (hnodup views)).mpr fun s => ?_
  rw [mem_mergeViews_iff huntied, mem_mergeViews_iff huntied']
  simp only [hsame]

/-- There is a merged status of the instances that some view knows, and of no others. -/
theorem mem_instances_mergeViews {id : String} :
    id ∈ (mergeViews views).map (·.instanceId) ↔ ∃ s ∈ viewed views, s.instanceId = id := by
  rw [List.mem_map]
  constructor
  · rintro ⟨s, hs, rfl⟩
    exact ⟨s, mem_viewed.mpr (mem_mergeViews hs), rfl⟩
  · rintro ⟨s, hs, rfl⟩
    obtain ⟨s', hs', hid, -⟩ := leaseRank_le_merged hs
    exact ⟨s', hs', hid⟩

/-! ### Other orders -/

/-- The same views in another order, each with its statuses in another order. -/
def Rearranged (views views' : List View) : Prop :=
  ∃ reordered, views.Perm reordered ∧ List.Forall₂ List.Perm reordered views'

theorem Rearranged.mem_viewed (h : Rearranged views views') :
    s ∈ viewed views' ↔ s ∈ viewed views := by
  obtain ⟨reordered, hperm, heach⟩ := h
  have hflatten : views.flatten.Perm views'.flatten :=
    hperm.flatten.trans (List.Perm.flatten_congr heach)
  exact (hflatten.map _).symm.mem_iff

/-! ### Groups -/

/-- A view that holds statuses of some views, and for each instance one that ranks highest among
them. -/
structure StandsFor (v : View) (views : List View) : Prop where
  from_views : ∀ s ∈ viewed [v], s ∈ viewed views
  highest : ∀ s ∈ viewed views, ∃ s' ∈ viewed [v],
    s'.instanceId = s.instanceId ∧ s.leaseRank ≤ s'.leaseRank

theorem StandsFor.self (v : View) : StandsFor v [v] :=
  ⟨fun _ => id, fun s hs => ⟨s, hs, rfl, Int.le_refl _⟩⟩

section Groups

variable {groups : List (List View × View)}

theorem mem_viewed_groups : s ∈ viewed (groups.flatMap (·.1)) ↔
    ∃ g ∈ groups, s ∈ viewed g.1 := by
  simp only [Floodgate.mem_viewed, List.mem_flatMap]
  constructor
  · rintro ⟨v, ⟨g, hg, hv⟩, hs⟩
    exact ⟨g, hg, v, hv, hs⟩
  · rintro ⟨g, hg, v, hv, hs⟩
    exact ⟨v, ⟨g, hg, hv⟩, hs⟩

theorem mem_viewed_each : s ∈ viewed (groups.map (·.2)) ↔ ∃ g ∈ groups, s ∈ viewed [g.2] := by
  simp only [Floodgate.mem_viewed, List.mem_map, List.mem_singleton]
  constructor
  · rintro ⟨_, ⟨g, hg, rfl⟩, hs⟩
    exact ⟨g, hg, g.2, rfl, hs⟩
  · rintro ⟨g, hg, _, rfl, hs⟩
    exact ⟨g.2, ⟨g, hg, rfl⟩, hs⟩

variable (hgroups : ∀ g ∈ groups, StandsFor g.2 g.1)

include hgroups

theorem viewed_of_groups (hs : s ∈ viewed (groups.map (·.2))) :
    s ∈ viewed (groups.flatMap (·.1)) := by
  obtain ⟨g, hg, hs⟩ := mem_viewed_each.mp hs
  exact mem_viewed_groups.mpr ⟨g, hg, (hgroups g hg).from_views s hs⟩

theorem highest_of_groups (hs : s ∈ viewed (groups.flatMap (·.1))) :
    ∃ s' ∈ viewed (groups.map (·.2)),
      s'.instanceId = s.instanceId ∧ s.leaseRank ≤ s'.leaseRank := by
  obtain ⟨g, hg, hs⟩ := mem_viewed_groups.mp hs
  obtain ⟨s', hs', hid, hle⟩ := (hgroups g hg).highest s hs
  exact ⟨s', mem_viewed_each.mpr ⟨g, hg, hs'⟩, hid, hle⟩

/-- What is merged from views that stand for groups stands for all the groups. -/
theorem StandsFor.merge :
    StandsFor (.ofStatuses (mergeViews (groups.map (·.2)))) (groups.flatMap (·.1)) where
  from_views s hs := by
    obtain ⟨v, hv, k, hmem⟩ := Floodgate.mem_viewed.mp hs
    rw [List.mem_singleton.mp hv] at hmem
    exact viewed_of_groups hgroups
      (Floodgate.mem_viewed.mpr (mem_mergeViews (mem_ofStatuses hmem).1))
  highest s hs := by
    obtain ⟨s₁, hs₁, hid₁, hle₁⟩ := highest_of_groups hgroups hs
    obtain ⟨s₂, hs₂, hid₂, hle₂⟩ := leaseRank_le_merged hs₁
    obtain ⟨s₃, hmem⟩ := exists_mem_ofStatuses hs₂
    -- no two merged statuses are of one instance, so that the view holds this one
    obtain ⟨hs₃, hid₃⟩ := mem_ofStatuses hmem
    obtain rfl : s₃ = s₂ := Keyed.eq_of_key_eq (nodup_mergeViews _) hs₃ hs₂ hid₃
    exact ⟨s₃, Floodgate.mem_viewed.mpr ⟨_, List.mem_singleton_self _, _, hmem⟩,
      hid₂.trans hid₁, Int.le_trans hle₁ hle₂⟩

/-- Merging views that stand for groups is merging the groups. -/
theorem mergeViews_perm_of_groups (huntied : Untied (groups.flatMap (·.1))) :
    (mergeViews (groups.map (·.2))).Perm (mergeViews (groups.flatMap (·.1))) := by
  have huntied' : Untied (groups.map (·.2)) := huntied.of_mem fun s => viewed_of_groups hgroups
  have hnodup : ∀ views, (mergeViews views).Nodup := fun views =>
    List.Nodup.of_map Status.instanceId (nodup_mergeViews views)
  refine (List.perm_ext_iff_of_nodup (hnodup _) (hnodup _)).mpr fun s => ?_
  rw [mem_mergeViews_iff huntied, mem_mergeViews_iff huntied']
  constructor
  · rintro ⟨hs, hhighest⟩
    refine ⟨viewed_of_groups hgroups hs, fun s' hs' hid => ?_⟩
    obtain ⟨top, htop, hsame, hle⟩ := highest_of_groups hgroups hs'
    exact Int.le_trans hle (hhighest top htop (hsame.trans hid))
  · rintro ⟨hs, hhighest⟩
    refine ⟨?_, fun s' hs' hid => hhighest s' (viewed_of_groups hgroups hs') hid⟩
    obtain ⟨top, htop, hsame, hle⟩ := highest_of_groups hgroups hs
    have htop' := viewed_of_groups hgroups htop
    have hrank := Int.le_antisymm (hhighest top htop' hsame) hle
    rwa [huntied s hs top htop' hsame.symm (Status.leaseRank_inj hrank.symm)]

end Groups

/-- The views that come of merging views in groups, and merged groups again, with the views that
have gone into them. -/
inductive Grouped : List View → View → Prop
  | view (v : View) : Grouped [v] v
  | merge {groups : List (List View × View)} (hgroups : ∀ g ∈ groups, Grouped g.1 g.2) :
      Grouped (groups.flatMap (·.1)) (.ofStatuses (mergeViews (groups.map (·.2))))

theorem Grouped.standsFor {v : View} (h : Grouped views v) : StandsFor v views := by
  induction h with
  | view v => exact .self v
  | merge _ ih => exact .merge ih

/-! ### Verdicts -/

/-- The lock data of a verdict is that of the statuses that are busy. -/
theorem Verdict.lockData_ofStatuses (statuses : List Status) (now : Int) :
    (ofStatuses statuses now).lockData =
      merge (dataEntries (statuses.filter (·.isBusyAt now))) := by
  unfold ofStatuses
  cases statuses.filter (·.isBusyAt now) with
  | nil => rfl
  | cons s rest => rfl

theorem Verdict.dataEntries_perm {statuses statuses' : List Status} (h : statuses.Perm statuses') :
    (dataEntries statuses).Perm (dataEntries statuses') :=
  (h.filterMap _).filter _

/-- **Merging takes for each instance that some peer reports the status whose lease ends last, one
without a lease before all others, and it takes nothing else. If no two statuses of an instance
differ under one lease, then the result is the same in whatever order the peers and their instances
come and however the peers are numbered; merging in groups, and merging merged groups again, makes
no difference, nor does it matter how often a view is among them. And the verdict is the same in any
order of the merged statuses: whether all are idle, when that may change, and which lock data is
merged.** -/
theorem merged_in_any_order (peers : List (Nat × View)) (huntied : Untied (peers.map (·.2))) :
    ((mergeViews (peers.map (·.2))).map (·.instanceId)).Nodup ∧
    (∀ id, id ∈ (mergeViews (peers.map (·.2))).map (·.instanceId) ↔
      ∃ s ∈ viewed (peers.map (·.2)), s.instanceId = id) ∧
    (∀ s ∈ mergeViews (peers.map (·.2)), s ∈ viewed (peers.map (·.2)) ∧
      ∀ s' ∈ viewed (peers.map (·.2)), s'.instanceId = s.instanceId → s'.EndsBy s) ∧
    (∀ peers' : List (Nat × View), Rearranged (peers.map (·.2)) (peers'.map (·.2)) →
      (mergeViews (peers'.map (·.2))).Perm (mergeViews (peers.map (·.2)))) ∧
    (∀ groups : List (List View × View), (∀ g ∈ groups, Grouped g.1 g.2) →
      (∀ v, v ∈ groups.flatMap (·.1) ↔ v ∈ peers.map (·.2)) →
      (mergeViews (groups.map (·.2))).Perm (mergeViews (peers.map (·.2)))) ∧
    ∀ merged, merged.Perm (mergeViews (peers.map (·.2))) → ∀ now,
      (Verdict.ofStatuses merged now).isAllIdle =
        (Verdict.ofStatuses (mergeViews (peers.map (·.2))) now).isAllIdle ∧
      (Verdict.ofStatuses merged now).nextExpiry =
        (Verdict.ofStatuses (mergeViews (peers.map (·.2))) now).nextExpiry ∧
      ∃ entries, (Verdict.ofStatuses merged now).lockData = Verdict.merge entries ∧
        entries.Perm
          (Verdict.dataEntries ((mergeViews (peers.map (·.2))).filter (·.isBusyAt now))) := by
  refine ⟨nodup_mergeViews _, fun id => mem_instances_mergeViews, fun s hs => ?_,
    fun peers' hrearranged => ?_, fun groups hgroups hall => ?_, fun merged hperm now => ?_⟩
  · obtain ⟨hviewed, hhighest⟩ := (mem_mergeViews_iff huntied).mp hs
    exact ⟨hviewed, fun s' hs' hid => Status.leaseRank_le_iff.mp (hhighest s' hs' hid)⟩
  · exact mergeViews_perm_of_mem huntied fun s => hrearranged.mem_viewed
  · have hviewed : ∀ s, s ∈ viewed (groups.flatMap (·.1)) ↔ s ∈ viewed (peers.map (·.2)) := by
      intro s
      rw [mem_viewed, mem_viewed]
      simp only [hall]
    have huntied' := huntied.of_mem fun s => (hviewed s).mp
    exact (mergeViews_perm_of_groups (fun g hg => (hgroups g hg).standsFor) huntied').trans
      (mergeViews_perm_of_mem huntied hviewed)
  · have hbusy := hperm.filter (·.isBusyAt now)
    obtain ⟨hidle, hexpiry⟩ := Verdict.ofStatuses_perm hbusy
    exact ⟨hidle, hexpiry, _, Verdict.lockData_ofStatuses merged now,
      Verdict.dataEntries_perm hbusy⟩

/-- Three peers of which two report an instance without a lease and a third one with leases. -/
def disagreeing : List (Nat × View) :=
  let status (id data : String) (lease : Int) : Status :=
    ⟨id, true, some data, Timestamp.ofWire lease⟩
  [(0, .ofStatuses [status "a" "early" 1000, status "b" "held" 0]),
    (1, .ofStatuses [status "a" "late" 3000]),
    (4, .ofStatuses [status "a" "middle" 2000, status "b" "held" 0])]

/-- The same peers with other numbers, in another order, and with their instances in another
order. -/
def disagreeing' : List (Nat × View) :=
  (disagreeing.map fun p => (p.1 + 7, p.2.reverse)).reverse

theorem merged_in_any_order_of_three :
    Untied (disagreeing.map (·.2)) ∧
    Rearranged (disagreeing.map (·.2)) (disagreeing'.map (·.2)) ∧
    mergeViews (disagreeing.map (·.2)) ≠ mergeViews (disagreeing'.map (·.2)) ∧
    (mergeViews (disagreeing.map (·.2))).map (·.lockData) = [some "late", some "held"] ∧
    (mergeViews (disagreeing'.map (·.2))).Perm (mergeViews (disagreeing.map (·.2))) := by
  have huntied : Untied (disagreeing.map (·.2)) := by decide
  have hrearranged : Rearranged (disagreeing.map (·.2)) (disagreeing'.map (·.2)) := by
    refine ⟨(disagreeing.map (·.2)).reverse, (List.reverse_perm _).symm, ?_⟩
    exact .cons (List.reverse_perm _).symm
      (.cons (List.reverse_perm _).symm (.cons (List.reverse_perm _).symm .nil))
  exact ⟨huntied, hrearranged, by decide, by decide,
    (merged_in_any_order disagreeing huntied).2.2.2.1 disagreeing' hrearranged⟩

end Floodgate
