import Floodgate.Verdict
import Floodgate.Proofs.Text.Token
/-!
# Floodgate.Proofs.LockData

**Merged lock data comes apart again, but for one ending.** No accepted data holds the separator,
yet the separator can still be found too early in merged data: it starts and ends with the same
character, so data that ends in all but the last character of the separator (`stem`) borrows that
one from the separator behind it. No other overlap is possible (`eq_stem`).

So merged data splits into the entries it was made of exactly if no entry but the last ends in the
stem (`split_join_iff`), and the same holds of the data of a verdict (`split_verdict_iff`).
Accepted data can end in the stem: `split_verdict_of_stem` has two such instances.
-/

namespace Floodgate.LockData

open Floodgate.Text

/-! ### What is accepted -/

/-- Data is accepted exactly if it holds neither the separator nor a reserved token. -/
theorem validate_eq_ok_iff {data : Option String} {reserved : List String} :
    validate data reserved = .ok () ↔
      ∀ text ∈ data, ∀ token ∈ separator :: reserved, contains text token = false := by
  cases data with
  | none => simp [validate]
  | some text =>
    simp only [validate, Option.mem_def, Option.some.injEq, forall_eq']
    cases hfound : (separator :: reserved).find? (contains text) with
    | none =>
      rw [List.find?_eq_none] at hfound
      simpa using hfound
    | some token =>
      have htoken := List.find?_some hfound
      have hmem := List.mem_of_find?_eq_some hfound
      simp only [reduceCtorEq, false_iff]
      intro hall
      rw [hall token hmem] at htoken
      cases htoken

theorem contains_eq_false_iff {data token : String} :
    contains data token = false ↔ ¬ token.toList <:+: data.toList := by
  rw [contains, ← occursIn_iff, Bool.not_eq_true]

/-! ### How the separator overlaps itself -/

/-- The separator without its last character. -/
def stem : List Char := separator.toList.dropLast

theorem separator_ne_nil : separator.toList ≠ [] := by decide

/-- The stem is all that an overlap of two separators leaves before the second one. -/
theorem eq_stem {tail border : List Char} (heq : separator.toList = tail ++ border)
    (htail : tail ≠ []) (hborder : border ≠ []) (hstart : border <+: separator.toList) :
    tail = stem := by
  have hdrops : ∀ k < separator.toList.length, 0 < k →
      separator.toList.drop k <+: separator.toList → separator.toList.take k = stem := by decide
  have hpos := List.length_pos_iff.mpr htail
  have hlt : tail.length < separator.toList.length := by
    have hlength := congrArg List.length heq
    rw [List.length_append] at hlength
    have hmore := List.length_pos_iff.mpr hborder
    omega
  have hdrop : separator.toList.drop tail.length = border := by rw [heq, List.drop_left]
  have htake : separator.toList.take tail.length = tail := by rw [heq, List.take_left]
  rw [← htake]
  exact hdrops tail.length hlt hpos (hdrop.symm ▸ hstart)

/-- Before a separator that comes after text without a separator, none starts, unless the text ends
in the stem. -/
theorem not_prefix_of_not_suffix {before rest : List Char}
    (hbefore : ¬ separator.toList <:+: before) (hstem : ¬ stem <:+ before) (tail : List Char)
    (htail : tail <:+ before) (hne : tail ≠ []) :
    ¬ separator.toList <+: tail ++ (separator.toList ++ rest) := by
  intro hstart
  obtain ⟨border, heq, hborder, hprefix⟩ := exists_border htail hbefore hstart
  exact hstem (eq_stem heq hne hborder hprefix ▸ htail)

/-- The stem twice holds the separator. -/
theorem not_suffix_stem {before : List Char}
    (h : ¬ separator.toList <:+: before ++ stem) : ¬ stem <:+ before := by
  rintro ⟨earlier, rfl⟩
  have hstem : separator.toList <:+: stem ++ stem := by decide
  refine h (hstem.trans ⟨earlier, [], ?_⟩)
  simp

/-! ### Splitting what was joined -/

theorem toList_join_cons (e e' : String) (rest : List String) :
    (join (e :: e' :: rest)).toList =
      e.toList ++ (separator.toList ++ (join (e' :: rest)).toList) := by
  simp [join, String.append_assoc]

theorem split_eq_cons {data e rest : String}
    (h : pieces separator.toList data.toList = e.toList :: pieces separator.toList rest.toList)
    (he : e ≠ "") : split data = e :: split rest := by
  have hne : e.toList ≠ [] := fun hnil => he (String.toList_inj.mp hnil)
  simp [split, h, hne]

/-- One entry without the separator is split into itself. -/
theorem split_single {e : String} (he : e ≠ "") (hfree : contains e separator = false) :
    split (join [e]) = [e] := by
  have hne : e.toList ≠ [] := fun hnil => he (String.toList_inj.mp hnil)
  rw [split, show join [e] = e from String.intercalate_singleton,
    pieces_eq_single (contains_eq_false_iff.mp hfree)]
  simp [hne]

/-- An entry that does not end in the stem is split off. -/
theorem split_join_cons {e e' : String} {rest : List String} (he : e ≠ "")
    (hfree : contains e separator = false) (hstem : ¬ stem <:+ e.toList) :
    split (join (e :: e' :: rest)) = e :: split (join (e' :: rest)) := by
  refine split_eq_cons ?_ he
  rw [toList_join_cons]
  exact pieces_append_token separator_ne_nil
    (not_prefix_of_not_suffix (contains_eq_false_iff.mp hfree) hstem)

/-- An entry that ends in the stem is cut short by it. -/
theorem pieces_join_of_stem {e e' : String} {rest : List String} {before : List Char}
    (hfree : contains e separator = false) (heq : before ++ stem = e.toList) :
    pieces separator.toList (join (e :: e' :: rest)).toList =
      before :: pieces separator.toList
        (separator.toList.tail ++ (join (e' :: rest)).toList) := by
  have hinside : ¬ separator.toList <:+: before ++ stem := heq ▸ contains_eq_false_iff.mp hfree
  have hbefore : ¬ separator.toList <:+: before :=
    fun h => hinside (h.trans (List.prefix_append before stem).isInfix)
  have hshift : stem ++ separator.toList = separator.toList ++ separator.toList.tail := by decide
  have hjoined : (join (e :: e' :: rest)).toList =
      before ++ (separator.toList ++ (separator.toList.tail ++ (join (e' :: rest)).toList)) := by
    rw [toList_join_cons, ← heq, List.append_assoc, ← List.append_assoc stem, hshift,
      List.append_assoc]
  rw [hjoined]
  exact pieces_append_token separator_ne_nil
    (not_prefix_of_not_suffix hbefore (not_suffix_stem hinside))

/-- An entry that ends in the stem does not come out of merged data in its place. -/
theorem split_join_ne_cons {e e' : String} {rest entries : List String}
    (hfree : contains e separator = false) (hstem : stem <:+ e.toList) :
    split (join (e :: e' :: rest)) ≠ e :: entries := by
  obtain ⟨before, heq⟩ := hstem
  rw [split, pieces_join_of_stem hfree heq]
  cases before with
  | cons c before =>
    -- what comes out first is shorter
    rw [List.filter_cons_of_pos (by simp), List.map_cons]
    intro h
    have hlength : (c :: before).length = e.toList.length := by
      rw [← (List.cons.inj h).1, String.toList_ofList]
    rw [← heq, List.length_append] at hlength
    have hstem : 0 < stem.length := by decide
    omega
  | nil =>
    -- what comes out first starts with the second character of the separator
    obtain ⟨text, htext⟩ : ∃ text, separator.toList.tail ++ (join (e' :: rest)).toList =
        'R' :: text := ⟨_, rfl⟩
    have hnone : ¬ separator.toList <+: 'R' :: text := by
      rw [show separator.toList = '#' :: separator.toList.tail by decide, List.cons_prefix_cons]
      simp
    obtain ⟨piece, more, hpieces⟩ := exists_pieces_cons hnone
    rw [htext, hpieces, List.filter_cons_of_neg (by simp), List.filter_cons_of_pos (by simp),
      List.map_cons]
    intro h
    have hhead := congrArg (fun s => s.toList.head?) (List.cons.inj h).1
    simp [← heq, stem, separator] at hhead

/-- Merged data splits into the entries it was made of exactly if none but the last ends in the
stem. -/
theorem split_join_iff {entries : List String}
    (h : ∀ e ∈ entries, e ≠ "" ∧ contains e separator = false) :
    split (join entries) = entries ↔ ∀ e ∈ entries.dropLast, ¬ stem <:+ e.toList := by
  induction entries with
  | nil => simp [join, split]
  | cons e rest ih =>
    obtain ⟨hne, hfree⟩ := h e List.mem_cons_self
    cases rest with
    | nil => simp [split_single hne hfree]
    | cons e' rest =>
      have hrest := ih fun x hx => h x (List.mem_cons_of_mem e hx)
      rw [List.dropLast_cons_cons, List.forall_mem_cons]
      by_cases hstem : stem <:+ e.toList
      · exact iff_of_false (split_join_ne_cons hfree hstem) fun hall => hall.1 hstem
      · rw [split_join_cons hne hfree hstem, List.cons_inj_right, hrest]
        exact (and_iff_right hstem).symm

end Floodgate.LockData

namespace Floodgate.Verdict

open LockData (stem)

/-- The entries of the merged data of a verdict. -/
def entries (v : Verdict) : List String := (v.lockData.map LockData.split).getD []

/-- The data of the instances that are busy at an instant. -/
def busyEntries (statuses : List Status) (now : Int) : List String :=
  dataEntries (statuses.filter (·.isBusyAt now))

theorem entries_ofStatuses (statuses : List Status) (now : Int) :
    (ofStatuses statuses now).entries =
      LockData.split (LockData.join (busyEntries statuses now)) := by
  have hnone : LockData.split (LockData.join []) = [] := rfl
  unfold ofStatuses busyEntries
  cases statuses.filter (·.isBusyAt now) with
  | nil => exact hnone.symm
  | cons x live =>
    simp only [entries, lockData, merge]
    cases hentries : dataEntries (x :: live) with
    | nil => exact hnone.symm
    | cons e rest => rfl

/-- **A verdict gives back the data of the busy instances, in order, exactly if none of it but the
last ends in the stem of the separator.** -/
theorem split_verdict_iff {statuses : List Status} {now : Int}
    (haccepted : ∀ x ∈ statuses, x.isBusyAt now = true →
      ∃ reserved, LockData.validate x.lockData reserved = .ok ()) :
    (ofStatuses statuses now).entries = busyEntries statuses now ↔
      ∀ e ∈ (busyEntries statuses now).dropLast, ¬ stem <:+ e.toList := by
  rw [entries_ofStatuses]
  refine LockData.split_join_iff fun e he => ?_
  simp only [busyEntries, dataEntries, List.mem_filter, List.mem_filterMap, decide_eq_true_eq]
    at he
  obtain ⟨⟨x, ⟨hx, hbusy⟩, hdata⟩, hne⟩ := he
  obtain ⟨reserved, hvalid⟩ := haccepted x hx hbusy
  exact ⟨hne, LockData.validate_eq_ok_iff.mp hvalid e hdata _ List.mem_cons_self⟩

/-- Two instances are busy, and the data of the last one ends in the stem. -/
def stemLast : List Status :=
  [⟨"a", true, some "job", none⟩, ⟨"b", false, some "x#REACTIVELOCK", none⟩,
    ⟨"c", true, some "", none⟩, ⟨"d", true, some "x#REACTIVELOCK", none⟩]

/-- At the end of merged data the stem does no harm. -/
theorem split_verdict_iff_of_last :
    (∀ x ∈ stemLast, x.isBusyAt 0 = true →
      ∃ reserved, LockData.validate x.lockData reserved = .ok ()) ∧
    (ofStatuses stemLast 0).entries = busyEntries stemLast 0 ∧
    busyEntries stemLast 0 = ["job", "x#REACTIVELOCK"] := by
  have haccepted : ∀ x ∈ stemLast, x.isBusyAt 0 = true →
      ∃ reserved, LockData.validate x.lockData reserved = .ok () := by
    intro x hx _
    refine ⟨[";"], LockData.validate_eq_ok_iff.mpr ?_⟩
    revert x
    decide
  exact ⟨haccepted, (split_verdict_iff haccepted).mpr (by decide), by decide⟩

/-- Two busy instances whose data ends in the stem. -/
def stemPair : List Status :=
  [⟨"a", true, some "x#REACTIVELOCK", none⟩, ⟨"b", true, some "x#REACTIVELOCK", none⟩]

/-- Accepted data of two busy instances does not come back. -/
theorem split_verdict_of_stem :
    (∀ x ∈ stemPair, LockData.validate x.lockData [";"] = .ok ()) ∧
      (ofStatuses stemPair 0).entries = ["x", "REACTIVELOCK#x#REACTIVELOCK"] ∧
      busyEntries stemPair 0 = ["x#REACTIVELOCK", "x#REACTIVELOCK"] := by
  refine ⟨?_, by decide, by decide⟩
  intro x hx
  refine LockData.validate_eq_ok_iff.mpr ?_
  revert x
  decide

end Floodgate.Verdict
