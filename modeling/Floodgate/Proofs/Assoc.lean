import Floodgate.Assoc
/-!
# Floodgate.Proofs.Assoc

**What is in a list of keys with values.** `put` keeps each key once, so that looking a key up and
finding it in the list are the same. A list made by giving each key its value in turn holds every
key, with one of the values that it was given.
-/

namespace Floodgate.Assoc

variable {κ ν : Type} [BEq κ] [LawfulBEq κ] {key k : κ} {value v : ν} {entries : List (κ × ν)}

theorem mem_put (h : (k, v) ∈ put key value entries) :
    (k = key ∧ v = value) ∨ (k, v) ∈ entries := by
  induction entries with
  | nil => simpa [put] using h
  | cons e rest ih =>
    obtain ⟨k', v'⟩ := e
    rw [put] at h
    split at h
    · rename_i hk
      rcases List.mem_cons.mp h with heq | hrest
      · cases heq
        exact .inl ⟨(eq_of_beq hk).symm, rfl⟩
      · exact .inr (List.mem_cons_of_mem _ hrest)
    · rcases List.mem_cons.mp h with heq | hrest
      · exact .inr (heq ▸ List.mem_cons_self)
      · exact (ih hrest).imp_right (List.mem_cons_of_mem _)

theorem mem_put_self : (key, value) ∈ put key value entries := by
  induction entries with
  | nil => exact List.mem_singleton_self _
  | cons e rest ih =>
    rw [put]
    split
    · next hk =>
      rw [eq_of_beq hk]
      exact List.mem_cons_self
    · exact List.mem_cons_of_mem _ ih

theorem mem_put_of_ne (hne : k ≠ key) (h : (k, v) ∈ entries) : (k, v) ∈ put key value entries := by
  induction entries with
  | nil => exact absurd h List.not_mem_nil
  | cons e rest ih =>
    rw [put]
    split
    · next hk =>
      rcases List.mem_cons.mp h with heq | hrest
      · cases heq
        exact absurd (eq_of_beq hk).symm hne
      · exact List.mem_cons_of_mem _ hrest
    · rcases List.mem_cons.mp h with heq | hrest
      · exact heq ▸ List.mem_cons_self
      · exact List.mem_cons_of_mem _ (ih hrest)

/-- A key that is put is there, and a key that was there stays. -/
theorem mem_keys_put : k ∈ (put key value entries).map (·.1) ↔
    k = key ∨ k ∈ entries.map (·.1) := by
  induction entries with
  | nil => simp [put]
  | cons e rest ih =>
    obtain ⟨k', v'⟩ := e
    rw [put]
    by_cases hk : key = k'
    · subst hk
      simp
    · rw [if_neg (by simpa using hk), List.map_cons, List.mem_cons, ih, List.map_cons,
        List.mem_cons, or_left_comm]

theorem nodup_keys_put (h : (entries.map (·.1)).Nodup) :
    ((put key value entries).map (·.1)).Nodup := by
  induction entries with
  | nil => simp [put]
  | cons e rest ih =>
    obtain ⟨k', v'⟩ := e
    rw [List.map_cons, List.nodup_cons] at h
    rw [put]
    by_cases hk : key = k'
    · subst hk
      rw [if_pos (beq_self_eq_true key)]
      exact List.nodup_cons.mpr h
    · rw [if_neg (by simpa using hk), List.map_cons, List.nodup_cons]
      refine ⟨?_, ih h.2⟩
      intro hmem
      rcases mem_keys_put.mp hmem with heq | hrest
      · exact hk heq.symm
      · exact h.1 hrest

/-- When each key is there once, what is there is what is found. -/
theorem lookup_eq_some_iff (h : (entries.map (·.1)).Nodup) :
    entries.lookup k = some v ↔ (k, v) ∈ entries := by
  induction entries with
  | nil => simp
  | cons e rest ih =>
    obtain ⟨k', v'⟩ := e
    rw [List.map_cons, List.nodup_cons] at h
    rw [List.lookup_cons, List.mem_cons]
    by_cases hk : k = k'
    · subst hk
      have hrest : (k, v) ∉ rest := fun hmem => h.1 (List.mem_map.mpr ⟨_, hmem, rfl⟩)
      simp [hrest, eq_comm]
    · rw [beq_false_of_ne hk]
      simp [ih h.2, hk]

/-- Filtering by values is seen under the keys whose values are taken out. -/
theorem lookup_filter (h : (entries.map (·.1)).Nodup) (p : ν → Bool) (k : κ) :
    (entries.filter fun e => p e.2).lookup k = (entries.lookup k).filter p := by
  ext v
  rw [lookup_eq_some_iff (h.sublist (List.filter_sublist.map _)), Option.filter_eq_some_iff,
    lookup_eq_some_iff h, List.mem_filter]

/-! ### Taking a key out -/

theorem lookup_erase [DecidableEq κ] (key k : κ) (entries : List (κ × ν)) :
    (erase key entries).lookup k = if k = key then none else entries.lookup k := by
  induction entries with
  | nil => simp [erase]
  | cons e rest ih =>
    obtain ⟨k', v'⟩ := e
    change (rest.filter fun e => !(key == e.1)).lookup k = _ at ih
    rw [erase, List.filter_cons]
    by_cases hkey : key = k'
    · rw [if_neg (by simp [hkey]), ih]
      by_cases hk : k = key
      · rw [if_pos hk, if_pos hk]
      · rw [if_neg hk, if_neg hk, List.lookup_cons, beq_false_of_ne (hkey ▸ hk)]
    · rw [if_pos (by simp [hkey]), List.lookup_cons, List.lookup_cons, ih]
      by_cases hk : k = k'
      · simp [hk, Ne.symm hkey]
      · rw [beq_false_of_ne hk]

theorem not_mem_keys_erase (key : κ) (entries : List (κ × ν)) :
    key ∉ (erase key entries).map (·.1) := by
  intro h
  obtain ⟨e, he, rfl⟩ := List.mem_map.mp h
  simp [erase] at he

/-! ### Lists made key by key -/

theorem mem_ofList (h : (k, v) ∈ ofList entries) : (k, v) ∈ entries := by
  have hfold : ∀ acc : List (κ × ν), (k, v) ∈ entries.foldl (fun acc e => put e.1 e.2 acc) acc →
      (k, v) ∈ acc ∨ (k, v) ∈ entries := by
    clear h
    induction entries with
    | nil => exact fun acc h => .inl h
    | cons e rest ih =>
      intro acc hmem
      rcases ih (put e.1 e.2 acc) hmem with hput | hrest
      · rcases mem_put hput with ⟨rfl, rfl⟩ | hacc
        · exact .inr List.mem_cons_self
        · exact .inl hacc
      · exact .inr (List.mem_cons_of_mem _ hrest)
  exact (hfold [] h).resolve_left List.not_mem_nil

theorem mem_keys_ofList (h : k ∈ entries.map (·.1)) : k ∈ (ofList entries).map (·.1) := by
  have hfold : ∀ acc : List (κ × ν), k ∈ acc.map (·.1) ∨ k ∈ entries.map (·.1) →
      k ∈ (entries.foldl (fun acc e => put e.1 e.2 acc) acc).map (·.1) := by
    clear h
    induction entries with
    | nil =>
      intro acc hk
      exact hk.resolve_right (by simp)
    | cons e rest ih =>
      intro acc hk
      rw [List.foldl_cons]
      refine ih _ ?_
      rcases hk with hacc | hk
      · exact .inl (mem_keys_put.mpr (.inr hacc))
      · rw [List.map_cons, List.mem_cons] at hk
        exact hk.imp (fun heq => mem_keys_put.mpr (.inl heq)) id
  exact hfold [] (.inr h)

end Floodgate.Assoc
