/-!
# Floodgate.Proofs.Keyed

**Lists whose members are told apart by a key.** Entries, deliveries, renewals, links, streams and
receivers are all kept in lists in which no two members share a key. Such a list is read by
`find?`, and it is changed in three ways: the member of a key is changed in place, the member of a
key is taken out, and a member with a new key is added at the end. For each way there is an equation
for `find?` and one for the list of keys.
-/

namespace Floodgate.Keyed

variable {β κ : Type} {f : β → κ} {l : List β}

/-! ### The list of keys -/

/-- A change that keeps every key keeps the list of keys. -/
theorem map_key_map {g : β → β} (hg : ∀ x, f (g x) = f x) :
    (l.map g).map f = l.map f := by
  rw [List.map_map]
  exact List.map_congr_left fun x _ => hg x

theorem nodup_filter {p : β → Bool} (hl : (l.map f).Nodup) :
    ((l.filter p).map f).Nodup :=
  hl.sublist (List.filter_sublist.map f)

theorem nodup_append_single {y : β} (hl : (l.map f).Nodup) (hy : ∀ x ∈ l, f x ≠ f y) :
    ((l ++ [y]).map f).Nodup := by
  rw [List.map_append, List.map_singleton, List.nodup_append]
  refine ⟨hl, by simp, ?_⟩
  intro a ha b hb
  obtain ⟨x, hx, rfl⟩ := List.mem_map.mp ha
  rw [List.mem_singleton.mp hb]
  exact hy x hx

/-- A change of the member of one key, made by a function that keeps keys, keeps keys. -/
theorem key_ite [DecidableEq κ] {k : κ} {g : β → β} (hg : ∀ x, f (g x) = f x) (x : β) :
    f (if f x = k then g x else x) = f x := by
  by_cases hx : f x = k
  · rw [if_pos hx, hg]
  · rw [if_neg hx]

/-- The members of a key are one. -/
theorem filter_eq_single [DecidableEq κ] (hl : (l.map f).Nodup) {x : β} (hx : x ∈ l) :
    (l.filter fun y => f y = f x) = [x] := by
  induction l with
  | nil => exact absurd hx List.not_mem_nil
  | cons y rest ih =>
    rw [List.map_cons, List.nodup_cons] at hl
    rw [List.filter_cons]
    rcases List.mem_cons.mp hx with rfl | hrest
    · have hnone : (rest.filter fun y => f y = f x) = [] := by
        refine List.filter_eq_nil_iff.mpr fun z hz hkey => hl.1 ?_
        exact of_decide_eq_true hkey ▸ List.mem_map_of_mem hz
      rw [if_pos (decide_eq_true rfl), hnone]
    · have hne : f y ≠ f x := fun h => hl.1 (h ▸ List.mem_map_of_mem hrest)
      rw [if_neg (by simp [hne]), ih hl.2 hrest]

/-! ### Looking -/

section Looking

variable [BEq κ] [LawfulBEq κ]

theorem key_of_find? {k : κ} {x : β} (h : l.find? (f · == k) = some x) : f x = k :=
  eq_of_beq (List.find?_some (p := (f · == k)) h)

/-- When no two members share a key, whoever is in the list is the one that is found. -/
theorem find?_eq_some_iff (hl : (l.map f).Nodup) {k : κ} {x : β} :
    l.find? (f · == k) = some x ↔ x ∈ l ∧ f x = k := by
  constructor
  · intro h
    exact ⟨List.mem_of_find?_eq_some h, key_of_find? h⟩
  · rintro ⟨hx, rfl⟩
    induction l with
    | nil => simp at hx
    | cons y rest ih =>
      rw [List.map_cons, List.nodup_cons] at hl
      rw [List.find?_cons]
      rcases List.mem_cons.mp hx with rfl | hrest
      · rw [beq_self_eq_true]
      · have hne : f y ≠ f x := fun h => hl.1 (h ▸ List.mem_map_of_mem hrest)
        rw [beq_false_of_ne hne]
        exact ih hl.2 hrest

theorem find?_eq_none_iff {k : κ} : l.find? (f · == k) = none ↔ ∀ x ∈ l, f x ≠ k := by
  simp [List.find?_eq_none]

/-- Filtering is seen under the keys of those that are taken out. -/
theorem find?_filter (hl : (l.map f).Nodup) (p : β → Bool) (k : κ) :
    (l.filter p).find? (f · == k) = (l.find? (f · == k)).filter p := by
  ext x
  rw [find?_eq_some_iff (nodup_filter hl), Option.filter_eq_some_iff, find?_eq_some_iff hl,
    List.mem_filter, and_right_comm]

/-- Two members with one key are one member. -/
theorem eq_of_key_eq (hl : (l.map f).Nodup) {x y : β} (hx : x ∈ l) (hy : y ∈ l)
    (h : f x = f y) : x = y := by
  have hfound := (find?_eq_some_iff hl).mpr ⟨hx, h⟩
  rw [(find?_eq_some_iff hl).mpr ⟨hy, rfl⟩] at hfound
  exact (Option.some.inj hfound).symm

theorem find?_append_single [DecidableEq κ] {y : β} (hy : ∀ x ∈ l, f x ≠ f y) (k : κ) :
    (l ++ [y]).find? (f · == k) = if k = f y then some y else l.find? (f · == k) := by
  rw [List.find?_append]
  by_cases hk : k = f y
  · subst hk
    rw [find?_eq_none_iff.mpr hy, if_pos rfl]
    simp
  · rw [if_neg hk]
    simp [beq_false_of_ne (Ne.symm hk)]

variable [DecidableEq κ] {k : κ}

/-- A change of the member of one key is seen under that key only. -/
theorem find?_update {g : β → β} (hg : ∀ x, f (g x) = f x) (k' : κ) :
    (l.map fun x => if f x = k then g x else x).find? (f · == k') =
      if k' = k then (l.find? (f · == k')).map g else l.find? (f · == k') := by
  induction l with
  | nil => simp
  | cons y rest ih =>
    rw [List.map_cons, List.find?_cons, List.find?_cons, key_ite hg]
    by_cases hy : f y = k'
    · subst hy
      by_cases hk : f y = k
      · simp [hk]
      · simp [hk]
    · rw [beq_false_of_ne hy]
      exact ih

/-- Taking out the member of one key is seen under that key only. -/
theorem find?_filter_ne (k' : κ) :
    (l.filter fun x => decide (f x ≠ k)).find? (f · == k') =
      if k' = k then none else l.find? (f · == k') := by
  induction l with
  | nil => simp
  | cons y rest ih =>
    rw [List.filter_cons, List.find?_cons]
    by_cases hy : f y = k
    · rw [if_neg (by simp [hy]), ih]
      by_cases hk : k' = k
      · rw [if_pos hk, if_pos hk]
      · have hne : f y ≠ k' := fun h => hk (h.symm.trans hy)
        rw [if_neg hk, if_neg hk, beq_false_of_ne hne]
    · rw [if_pos (by simp [hy]), List.find?_cons, ih]
      by_cases hy' : f y = k'
      · subst hy'
        simp [hy]
      · rw [beq_false_of_ne hy']

end Looking

end Floodgate.Keyed
