import Floodgate.Proofs.Keyed
import Floodgate.Proofs.PeerStore.Merge
/-!
# Floodgate.Proofs.PeerStore.Ranking

**Which status of an instance wins.** No view holds a status of an instance whose lease ends later
than that of the merged one. Two statuses of one instance under one lease would both rank highest,
and which of them wins would be up to the order of the views. If there are none such (`Untied`), the
merged statuses are exactly those that rank highest (`mem_mergeViews_iff`), whatever the order.
-/

namespace Floodgate

/-- Ranks tell leases apart: no timestamp is as late as no lease. -/
theorem Status.leaseRank_inj {s s' : Status} (h : s.leaseRank = s'.leaseRank) :
    s.validUntil = s'.validUntil := by
  unfold leaseRank at h
  cases hs : s.validUntil with
  | none =>
    cases hs' : s'.validUntil with
    | none => rfl
    | some t' =>
      have hmax := t'.le_max
      simp only [hs, hs'] at h
      omega
  | some t =>
    cases hs' : s'.validUntil with
    | none =>
      have hmax := t.le_max
      simp only [hs, hs'] at h
      omega
    | some t' =>
      simp only [hs, hs'] at h
      rw [Timestamp.ext h]

/-! ### Taking in one status after the other -/

/-- Each status that has been taken in has a merged one of its instance that ranks no lower. -/
def Ranked (taken : List Status) (merged : View) : Prop :=
  ∀ s ∈ taken, ∃ s', (s.instanceId, s') ∈ merged ∧ s.leaseRank ≤ s'.leaseRank

theorem Ranked.nil : Ranked [] [] := fun _ h => absurd h List.not_mem_nil

section MergeStatus

variable {taken : List Status} {merged : View} {s : Status}

/-- What is put for an instance ranks no lower than what was there. -/
theorem Ranked.put (h : Ranked taken merged)
    (hrank : ∀ s', (s.instanceId, s') ∈ merged → s'.leaseRank ≤ s.leaseRank) :
    Ranked (taken ++ [s]) (Assoc.put s.instanceId s merged) := by
  intro x hx
  have hself : (s.instanceId, s) ∈ Assoc.put s.instanceId s merged := Assoc.mem_put_self
  rcases List.mem_append.mp hx with hx | hx
  · obtain ⟨x', hmem, hle⟩ := h x hx
    by_cases hid : x.instanceId = s.instanceId
    · rw [hid] at hmem ⊢
      exact ⟨s, hself, Int.le_trans hle (hrank x' hmem)⟩
    · exact ⟨x', Assoc.mem_put_of_ne hid hmem, hle⟩
  · rw [List.mem_singleton.mp hx]
    exact ⟨s, hself, Int.le_refl _⟩

theorem Ranked.mergeStatus (h : Ranked taken merged) (hmerged : Merged taken merged)
    (s : Status) : Ranked (taken ++ [s]) (mergeStatus merged s) := by
  unfold Floodgate.mergeStatus
  cases hfound : merged.lookup s.instanceId with
  | none =>
    refine h.put fun s' hmem => ?_
    rw [(Assoc.lookup_eq_some_iff hmerged.nodup).mpr hmem] at hfound
    cases hfound
  | some existing =>
    have hexisting := (Assoc.lookup_eq_some_iff hmerged.nodup).mp hfound
    simp only
    split
    · next hle =>
      -- the merged status ranks no lower, and stays
      intro x hx
      rcases List.mem_append.mp hx with hx | hx
      · exact h x hx
      · rw [List.mem_singleton.mp hx]
        exact ⟨existing, hexisting, hle⟩
    · next hlt =>
      refine h.put fun s' hmem => ?_
      rw [(Assoc.lookup_eq_some_iff hmerged.nodup).mpr hmem] at hfound
      cases hfound
      exact Int.le_of_not_le hlt

theorem Ranked.foldl (h : Ranked taken merged) (hmerged : Merged taken merged)
    (statuses : List Status) :
    Ranked (taken ++ statuses) (statuses.foldl Floodgate.mergeStatus merged) := by
  induction statuses generalizing taken merged with
  | nil => simpa using h
  | cons s rest ih => simpa using ih (h.mergeStatus hmerged s) (hmerged.mergeStatus s)

end MergeStatus

/-! ### Merged views -/

/-- All statuses that some views hold. -/
def viewed (views : List View) : List Status := views.flatten.map (·.2)

section MergeViews

variable {views : List View} {s : Status}

theorem mem_viewed : s ∈ viewed views ↔ ∃ v ∈ views, ∃ k, (k, s) ∈ v := by
  simp only [viewed, List.mem_map, List.mem_flatten]
  constructor
  · rintro ⟨⟨k, s⟩, ⟨v, hv, hmem⟩, rfl⟩
    exact ⟨v, hv, k, hmem⟩
  · rintro ⟨v, hv, k, hmem⟩
    exact ⟨(k, s), ⟨v, hv, hmem⟩, rfl⟩

/-- The merged status of an instance ranks no lower than any status of it in the views. -/
theorem leaseRank_le_merged (h : s ∈ viewed views) :
    ∃ s' ∈ mergeViews views, s'.instanceId = s.instanceId ∧ s.leaseRank ≤ s'.leaseRank := by
  have hmerged := Merged.nil.foldl (viewed views)
  have hranked : Ranked (viewed views) ((viewed views).foldl mergeStatus []) :=
    Ranked.nil.foldl .nil (viewed views)
  obtain ⟨s', hmem, hle⟩ := hranked s h
  exact ⟨s', List.mem_map_of_mem (f := (·.2)) hmem, hmerged.named _ _ hmem, hle⟩

/-- No two statuses of one instance differ under one lease. -/
def Untied (views : List View) : Prop :=
  ∀ s ∈ viewed views, ∀ s' ∈ viewed views,
    s.instanceId = s'.instanceId → s.validUntil = s'.validUntil → s = s'

instance (views : List View) : Decidable (Untied views) :=
  inferInstanceAs (Decidable (∀ s ∈ viewed views, ∀ s' ∈ viewed views,
    s.instanceId = s'.instanceId → s.validUntil = s'.validUntil → s = s'))

/-- **Without ties the merged statuses are those that rank highest among the statuses of their
instance.** -/
theorem mem_mergeViews_iff (h : Untied views) : s ∈ mergeViews views ↔
    s ∈ viewed views ∧
      ∀ s' ∈ viewed views, s'.instanceId = s.instanceId → s'.leaseRank ≤ s.leaseRank := by
  have hviewed : ∀ s ∈ mergeViews views, s ∈ viewed views := fun s hs =>
    mem_viewed.mpr (mem_mergeViews hs)
  constructor
  · intro hs
    refine ⟨hviewed s hs, fun s' hs' hid => ?_⟩
    obtain ⟨top, htop, hsame, hle⟩ := leaseRank_le_merged hs'
    have heq : top = s := Keyed.eq_of_key_eq (nodup_mergeViews views) htop hs (hsame.trans hid)
    exact heq ▸ hle
  · rintro ⟨hs, hhighest⟩
    obtain ⟨top, htop, hsame, hle⟩ := leaseRank_le_merged hs
    have hrank := Int.le_antisymm (hhighest top (hviewed top htop) hsame) hle
    rwa [h s hs top (hviewed top htop) hsame.symm (Status.leaseRank_inj hrank.symm)]

end MergeViews

end Floodgate
