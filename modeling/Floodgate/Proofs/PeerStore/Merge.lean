import Floodgate.PeerStore.Views
import Floodgate.Proofs.Assoc
/-!
# Floodgate.Proofs.PeerStore.Merge

**What is in merged views.** Which status of an instance wins depends on the leases; that one of
them does, and only one, does not. Merged statuses are taken from the views (`mem_mergeViews`),
there is one for each instance that some view knows (`exists_mem_mergeViews`), and no two are of one
instance (`nodup_mergeViews`). So views that agree on an instance determine what the merged status
says of it, whatever the leases are.
-/

namespace Floodgate

/-- The statuses of a view stand under their instances. -/
def View.Named (v : View) : Prop := ∀ k s, (k, s) ∈ v → s.instanceId = k

section OfStatuses

variable {statuses : List Status} {k : String} {s : Status}

theorem mem_ofStatuses (h : (k, s) ∈ View.ofStatuses statuses) :
    s ∈ statuses ∧ s.instanceId = k := by
  obtain ⟨s', hs', heq⟩ := List.mem_map.mp (Assoc.mem_ofList h)
  cases heq
  exact ⟨hs', rfl⟩

theorem exists_mem_ofStatuses (h : s ∈ statuses) :
    ∃ s', (s.instanceId, s') ∈ View.ofStatuses statuses := by
  have hkey : s.instanceId ∈ (statuses.map fun s => (s.instanceId, s)).map (·.1) := by
    simpa using ⟨s, h, rfl⟩
  obtain ⟨⟨k, s'⟩, hmem, rfl⟩ := List.mem_map.mp (Assoc.mem_keys_ofList hkey)
  exact ⟨s', hmem⟩

end OfStatuses

/-! ### Taking in one status after the other -/

/-- What holds of merged statuses after some statuses have been taken in. -/
structure Merged (taken : List Status) (merged : View) : Prop where
  named : merged.Named
  nodup : (merged.map (·.1)).Nodup
  from_taken : ∀ k s, (k, s) ∈ merged → s ∈ taken
  complete : ∀ s ∈ taken, s.instanceId ∈ merged.map (·.1)

theorem Merged.nil : Merged [] [] where
  named _ _ h := absurd h List.not_mem_nil
  nodup := List.nodup_nil
  from_taken _ _ h := absurd h List.not_mem_nil
  complete _ h := absurd h List.not_mem_nil

/-- A status is left out if there is one of its instance. -/
theorem Merged.skip {taken : List Status} {merged : View} (h : Merged taken merged) {s : Status}
    (hs : s.instanceId ∈ merged.map (·.1)) : Merged (taken ++ [s]) merged where
  named := h.named
  nodup := h.nodup
  from_taken k s' hmem := List.mem_append_left _ (h.from_taken k s' hmem)
  complete s' hs' := by
    rcases List.mem_append.mp hs' with hs' | hs'
    · exact h.complete s' hs'
    · exact List.mem_singleton.mp hs' ▸ hs

theorem Merged.put {taken : List Status} {merged : View} (h : Merged taken merged) (s : Status) :
    Merged (taken ++ [s]) (Assoc.put s.instanceId s merged) where
  named k s' hmem := by
    rcases Assoc.mem_put hmem with ⟨rfl, rfl⟩ | hold
    · rfl
    · exact h.named k s' hold
  nodup := Assoc.nodup_keys_put h.nodup
  from_taken k s' hmem := by
    rcases Assoc.mem_put hmem with ⟨-, rfl⟩ | hold
    · exact List.mem_append_right _ (List.mem_singleton_self _)
    · exact List.mem_append_left _ (h.from_taken k s' hold)
  complete s' hs' := by
    rcases List.mem_append.mp hs' with hs' | hs'
    · exact Assoc.mem_keys_put.mpr (.inr (h.complete s' hs'))
    · exact Assoc.mem_keys_put.mpr (.inl (List.mem_singleton.mp hs' ▸ rfl))

theorem Merged.mergeStatus {taken : List Status} {merged : View} (h : Merged taken merged)
    (s : Status) : Merged (taken ++ [s]) (mergeStatus merged s) := by
  unfold Floodgate.mergeStatus
  cases hfound : merged.lookup s.instanceId with
  | none => exact h.put s
  | some existing =>
    have hmem := (Assoc.lookup_eq_some_iff h.nodup).mp hfound
    simp only
    split
    · exact h.skip (List.mem_map_of_mem hmem)
    · exact h.put s

theorem Merged.foldl {taken : List Status} {merged : View} (h : Merged taken merged)
    (statuses : List Status) :
    Merged (taken ++ statuses) (statuses.foldl Floodgate.mergeStatus merged) := by
  induction statuses generalizing taken merged with
  | nil => simpa using h
  | cons s rest ih => simpa using ih (h.mergeStatus s)

/-! ### Merged views -/

section MergeViews

variable {views : List View} {s : Status}

theorem mergeViews_merged (views : List View) :
    ∃ merged, Merged (views.flatten.map (·.2)) merged ∧ mergeViews views = merged.map (·.2) :=
  ⟨_, by simpa using Merged.nil.foldl (views.flatten.map (·.2)), rfl⟩

theorem mem_mergeViews (h : s ∈ mergeViews views) : ∃ v ∈ views, ∃ k, (k, s) ∈ v := by
  obtain ⟨merged, hmerged, heq⟩ := mergeViews_merged views
  rw [heq] at h
  obtain ⟨⟨k, s⟩, hmem, rfl⟩ := List.mem_map.mp h
  obtain ⟨⟨k', s'⟩, hentry, hs'⟩ := List.mem_map.mp (hmerged.from_taken k s hmem)
  obtain ⟨v, hv, hvmem⟩ := List.mem_flatten.mp hentry
  cases hs'
  exact ⟨v, hv, k', hvmem⟩

theorem exists_mem_mergeViews {v : View} {k : String} (hv : v ∈ views) (h : (k, s) ∈ v) :
    ∃ s' ∈ mergeViews views, s'.instanceId = s.instanceId := by
  obtain ⟨merged, hmerged, heq⟩ := mergeViews_merged views
  have htaken : s ∈ views.flatten.map (·.2) :=
    List.mem_map.mpr ⟨(k, s), List.mem_flatten.mpr ⟨v, hv, h⟩, rfl⟩
  obtain ⟨⟨k', s'⟩, hmem, hk'⟩ := List.mem_map.mp (hmerged.complete s htaken)
  rw [heq]
  exact ⟨s', List.mem_map_of_mem hmem, (hmerged.named k' s' hmem).trans hk'⟩

theorem nodup_mergeViews (views : List View) :
    ((mergeViews views).map (·.instanceId)).Nodup := by
  obtain ⟨merged, hmerged, heq⟩ := mergeViews_merged views
  have hkeys : (merged.map (·.2)).map (·.instanceId) = merged.map (·.1) := by
    rw [List.map_map]
    exact List.map_congr_left fun e he => hmerged.named e.1 e.2 he
  rw [heq, hkeys]
  exact hmerged.nodup

end MergeViews

end Floodgate
