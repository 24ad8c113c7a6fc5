import Mathlib.Logic.Function.Iterate
import Floodgate.Gate.Basic
import Floodgate.Proofs.LockData
/-!
# Floodgate.Proofs.Rejoining

**Split data is in normal form.** Data that instances attach comes back from merged data only under
a condition (`LockData.split_join_iff`), but what has once come out of a text does so always: it is
cut at the first places of the separator, so a piece behind which the text was cut cannot end in the
stem, or the separator would have been found earlier. Only the last piece may, and at the end of
merged data the stem does no harm.

So splitting and joining in turn changes nothing after the first time (`split_rejoined`), and a gate
that is blocked with its own entries, merged again, keeps them.
-/

namespace Floodgate

namespace LockData

open Floodgate.Text

/-- Dropping members of a list brings none before the last one. -/
theorem mem_dropLast_of_filter {β : Type} {p : β → Bool} {l : List β} {x : β}
    (h : x ∈ (l.filter p).dropLast) : x ∈ l.dropLast := by
  rcases List.eq_nil_or_concat l with rfl | ⟨init, last, rfl⟩
  · simp at h
  · rw [List.concat_eq_append] at h ⊢
    rw [List.filter_append] at h
    rw [List.dropLast_concat]
    by_cases hlast : p last = true
    · rw [List.filter_cons_of_pos hlast, List.filter_nil, List.dropLast_concat] at h
      exact (List.mem_filter.mp h).1
    · rw [List.filter_cons_of_neg hlast, List.filter_nil, List.append_nil] at h
      exact (List.mem_filter.mp (List.dropLast_subset _ h)).1

/-- An entry of split data is not empty and does not hold the separator. -/
theorem clean_of_mem_split {data e : String} (he : e ∈ split data) :
    e ≠ "" ∧ contains e separator = false := by
  obtain ⟨piece, hpiece, rfl⟩ := List.mem_map.mp he
  rw [List.mem_filter, decide_eq_true_eq] at hpiece
  constructor
  · intro hempty
    have hnil := congrArg String.toList hempty
    rw [String.toList_ofList] at hnil
    exact hpiece.2 hnil
  · rw [contains_eq_false_iff, String.toList_ofList]
    exact (isCut_pieces separator_ne_nil data.toList).free_of_token hpiece.1

/-- No entry of split data but the last ends in the stem. -/
theorem not_stem_suffix_of_mem_dropLast {data e : String} (he : e ∈ (split data).dropLast) :
    ¬ stem <:+ e.toList := by
  rw [split, ← List.map_dropLast] at he
  obtain ⟨piece, hpiece, rfl⟩ := List.mem_map.mp he
  rw [String.toList_ofList]
  have hcut := isCut_pieces separator_ne_nil data.toList
  exact not_suffix_stem (hcut.not_infix_append (mem_dropLast_of_filter hpiece))

/-- The entries of split data, joined, split into the same entries. -/
theorem split_join_split (data : String) : split (join (split data)) = split data := by
  rw [split_join_iff fun e he => clean_of_mem_split he]
  intro e he
  exact not_stem_suffix_of_mem_dropLast he

/-- Data split and joined again. -/
def rejoin (data : String) : String := join (split data)

theorem split_rejoined (data : String) (n : Nat) : split (rejoin^[n] data) = split data := by
  induction n with
  | zero => rfl
  | succ n ih => rw [Function.iterate_succ_apply', rejoin, split_join_split, ih]

end LockData

namespace Gate

/-- A gate that is blocked with the entries of another one, merged again. -/
def reblocked (g : Gate) : Gate := (fresh.block (Verdict.merge g.entries)).1

@[simp] theorem lockData_reblocked (g : Gate) :
    g.reblocked.lockData = Verdict.merge g.entries := rfl

/-- The entries of a gate are those of some data. -/
theorem exists_entries_eq (g : Gate) : ∃ data, g.entries = LockData.split data := by
  unfold entries
  cases g.lockData with
  | none => exact ⟨"", rfl⟩
  | some data => exact ⟨data, rfl⟩

theorem entries_reblocked (g : Gate) : g.reblocked.entries = g.entries := by
  obtain ⟨data, hdata⟩ := g.exists_entries_eq
  rw [entries, lockData_reblocked, Verdict.merge, hdata]
  cases hsplit : LockData.split data with
  | nil => rfl
  | cons e rest =>
    rw [List.isEmpty_cons, if_neg Bool.false_ne_true, ← hsplit]
    exact LockData.split_join_split data

end Gate

namespace LockData

/-- **The entries of split data are not empty and do not hold the separator, and joining them and
splitting again gives the same entries, however often it is done; so does blocking a gate with its
own entries, merged again.** -/
theorem split_normal_form (data : String) :
    (∀ e ∈ split data, e ≠ "" ∧ ¬ separator.toList <:+: e.toList) ∧
    split (join (split data)) = split data ∧
    (∀ n : Nat, split (rejoin^[n] data) = split data) ∧
    ∀ (g : Gate) (n : Nat), (Gate.reblocked^[n] g).entries = g.entries := by
  refine ⟨fun e he => ?_, split_join_split data, split_rejoined data, fun g n => ?_⟩
  · obtain ⟨hne, hfree⟩ := clean_of_mem_split he
    exact ⟨hne, contains_eq_false_iff.mp hfree⟩
  · induction n with
    | zero => rfl
    | succ n ih => rw [Function.iterate_succ_apply', Gate.entries_reblocked, ih]

/-- What stands before a separator may begin or end like one without holding it. -/
example : split "#REACTIVELOCK#REACTIVELOCK#x#REACTIVELOCK" = ["REACTIVELOCK#x#REACTIVELOCK"] := by
  decide

end LockData

end Floodgate
