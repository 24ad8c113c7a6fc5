import Mathlib.Data.List.TakeWhile
import Floodgate.Proofs.HashStore.Field
import Floodgate.Proofs.Text.Numeral
/-!
# Floodgate.Proofs.HashStore.Reading

**Every text is read as some status.** A hash is shared with others, so a store reads whatever
stands in it: values from before leases existed, values with more delimiters than parts, and values
that nobody meant as a status. Each of them has a flag, which may be followed by data, which may be
followed by a lease end (`IsField`), and is read part by part.

What has been read is canonical: it is written as a value that is read as the same status
(`decode_encode_decode`), since the data that is read ends before a delimiter.
-/

namespace Floodgate.HashStore

open Floodgate.Text

variable {cs flag text : List Char} {data lease : Option (List Char)}

/-! ### The parts of a field -/

/-- A field with its parts. The flag and the data end at the first delimiter behind them; the lease
end is all that is left. -/
inductive IsField : List Char → List Char → Option (List Char) → Option (List Char) → Prop where
  /-- There is nothing behind the flag. -/
  | bare {flag : List Char} (hflag : delimiter ∉ flag) : IsField flag flag none none
  /-- There is nothing behind the data. -/
  | withData {flag data : List Char} (hflag : delimiter ∉ flag) (hdata : delimiter ∉ data) :
      IsField (flag ++ delimiter :: data) flag (some data) none
  | withLease {flag data : List Char} (lease : List Char) (hflag : delimiter ∉ flag)
      (hdata : delimiter ∉ data) :
      IsField (flag ++ delimiter :: (data ++ delimiter :: lease)) flag (some data) (some lease)

theorem cut_eq_self (h : delimiter ∉ cs) : cut cs = (cs, none) := by
  have hpass : ∀ c ∈ cs, decide (c ≠ delimiter) = true := fun c hc =>
    decide_eq_true (ne_of_mem_of_not_mem hc h)
  have hdrop : cs.dropWhile (· ≠ delimiter) = [] := List.dropWhile_eq_nil_iff.mpr hpass
  rw [cut, hdrop, List.takeWhile_eq_self_iff.mpr hpass]
  rfl

/-- Every text is a field. -/
theorem exists_isField (cs : List Char) : ∃ flag data lease, IsField cs flag data lease := by
  by_cases hflag : delimiter ∈ cs
  · obtain ⟨flag, rest, hsplit, hfree⟩ := List.eq_append_cons_of_mem hflag
    by_cases hdata : delimiter ∈ rest
    · obtain ⟨data, lease, hsplit', hfree'⟩ := List.eq_append_cons_of_mem hdata
      exact ⟨flag, some data, some lease, hsplit ▸ hsplit' ▸ .withLease lease hfree hfree'⟩
    · exact ⟨flag, some rest, none, hsplit ▸ .withData hfree hdata⟩
  · exact ⟨cs, none, none, .bare hflag⟩

/-- The parts of a field, cut off one by one. -/
def parts (cs : List Char) : List Char × Option (List Char) × Option (List Char) :=
  match cut cs with
  | (flag, none) => (flag, none, none)
  | (flag, some rest) => (flag, some (cut rest).1, (cut rest).2)

/-- A field has its parts only. -/
theorem IsField.parts_eq (h : IsField cs flag data lease) : parts cs = (flag, data, lease) := by
  cases h with
  | bare hflag => simp [parts, cut_eq_self hflag]
  | withData hflag hdata => simp [parts, cut_append hflag, cut_eq_self hdata]
  | withLease lease hflag hdata => simp [parts, cut_append hflag, cut_append hdata]

theorem IsField.not_mem_data (h : IsField cs flag data lease) :
    ∀ text ∈ data, delimiter ∉ text := by
  intro text htext
  cases h with
  | bare => cases htext
  | withData _ hdata => cases htext; exact hdata
  | withLease _ _ hdata => cases htext; exact hdata

/-- A field is read part by part. -/
theorem decodeParts_eq (cs : List Char) : decodeParts cs =
    (trim (parts cs).1 == ['1'], (parts cs).2.1.bind readData, (parts cs).2.2.bind readLease) := by
  simp only [decodeParts, parts]
  cases cut cs with
  | mk flag rest => cases rest <;> rfl

/-! ### Reading a part -/

theorem readData_eq_some_iff {read : String} :
    readData text = some read ↔ read ≠ "" ∧ text = read.toList := by
  unfold readData
  cases text with
  | nil =>
    have hempty : ([] : List Char) = read.toList ↔ read = "" := by
      rw [eq_comm, String.toList_eq_nil_iff]
    simp [hempty]
  | cons c rest =>
    rw [List.isEmpty_cons, if_neg Bool.false_ne_true, Option.some.injEq]
    constructor
    · intro h
      subst h
      refine ⟨fun hempty => ?_, by rw [String.toList_ofList]⟩
      have hnil := congrArg String.toList hempty
      simp at hnil
    · intro ⟨_, heq⟩
      rw [heq, String.ofList_toList]

theorem ofMillis?_map_eq_some_iff {m m' : Int} : (Timestamp.ofMillis? m).map (·.millis) = some m' ↔
    m = m' ∧ -8334601228800000 ≤ m' ∧ m' ≤ 8210266876799999 := by
  constructor
  · intro h
    obtain ⟨t, ht, rfl⟩ := Option.map_eq_some_iff.mp h
    exact ⟨(Timestamp.ofMillis?_eq_some_iff.mp ht).symm, t.min_le, t.le_max⟩
  · intro ⟨heq, hmin, hmax⟩
    subst heq
    simp [Timestamp.ofMillis?, hmin, hmax]

/-- What is read as a lease end is a numeral between blanks, of a moment in the calendar. -/
theorem readLease_eq_some_iff {m : Int} : (readLease text).map (·.millis) = some m ↔
    ∃ numeral, TrimsTo text numeral ∧ IsNumeral numeral m ∧ (-2 ^ 63 ≤ m ∧ m < 2 ^ 63) ∧
      -8334601228800000 ≤ m ∧ m ≤ 8210266876799999 := by
  constructor
  · intro h
    obtain ⟨t, hread, hmillis⟩ := Option.map_eq_some_iff.mp h
    obtain ⟨m', hparse, ht⟩ := Option.bind_eq_some_iff.mp hread
    have hmoment := Option.map_eq_some_iff.mpr ⟨t, ht, hmillis⟩
    obtain ⟨rfl, hrange⟩ := ofMillis?_map_eq_some_iff.mp hmoment
    obtain ⟨hnumeral, hfits⟩ := parseInt64?_eq_some_iff.mp hparse
    exact ⟨trim text, trim_eq_iff.mp rfl, hnumeral, hfits, hrange⟩
  · intro ⟨numeral, htrim, hnumeral, hfits, hrange⟩
    rw [readLease, trim_eq_iff.mpr htrim, parseInt64?_eq_some_iff.mpr ⟨hnumeral, hfits⟩,
      Option.bind_some]
    exact ofMillis?_map_eq_some_iff.mpr ⟨rfl, hrange⟩

/-! ### Reading a field -/

theorem decode_of_isField {value : String} (instanceId : String)
    (h : IsField value.toList flag data lease) : decode instanceId value =
      ⟨instanceId, trim flag == ['1'], data.bind readData, lease.bind readLease⟩ := by
  rw [decode, decodeParts_eq, h.parts_eq]

/-- A status that has been read is written as a value that is read as the same status. -/
theorem decode_encode_decode (instanceId value : String) :
    let s := decode instanceId value
    decode instanceId (encode s.isBusy s.lockData s.validUntil) = s := by
  intro s
  obtain ⟨flag, data, lease, hfield⟩ := exists_isField value.toList
  have hs : s = _ := decode_of_isField instanceId hfield
  have hdata : ∀ read ∈ s.lockData, read ≠ "" ∧ delimiter ∉ read.toList := by
    intro read hread
    rw [hs] at hread
    obtain ⟨text, htext, hread⟩ := Option.bind_eq_some_iff.mp hread
    obtain ⟨hne, rfl⟩ := readData_eq_some_iff.mp hread
    exact ⟨hne, hfield.not_mem_data _ htext⟩
  have hkept : s.lockData.filter (· ≠ "") = s.lockData := by
    cases hread : s.lockData with
    | none => rfl
    | some read => rw [Option.filter_some, if_pos (decide_eq_true (hdata read hread).1)]
  rw [decode_encode instanceId s.isBusy s.validUntil fun read hread => (hdata read hread).2, hkept,
    hs]

/-- **Whatever stands in a field, it is one flag, with or without data, with or without a lease end
behind that. It is read as busy exactly if the flag is a `1` between blanks; its lock data is the
data, unless that is empty; its lease ends at the moment that the lease end names, if this is a
numeral of 64 signed bits between blanks and the calendar has the moment. And what has been read is
written as a value that is read as the same status.** -/
theorem decode_reads_parts (instanceId value : String) :
    let s := decode instanceId value
    s.instanceId = instanceId ∧
    (∃ flag data lease, IsField value.toList flag data lease ∧
      (∀ flag' data' lease', IsField value.toList flag' data' lease' →
        flag' = flag ∧ data' = data ∧ lease' = lease) ∧
      (s.isBusy = true ↔ TrimsTo flag ['1']) ∧
      (∀ read, s.lockData = some read ↔ read ≠ "" ∧ data = some read.toList) ∧
      ∀ m : Int, s.validUntil.map (·.millis) = some m ↔
        ∃ text numeral, lease = some text ∧ TrimsTo text numeral ∧ IsNumeral numeral m ∧
          (-2 ^ 63 ≤ m ∧ m < 2 ^ 63) ∧ -8334601228800000 ≤ m ∧ m ≤ 8210266876799999) ∧
    decode instanceId (encode s.isBusy s.lockData s.validUntil) = s := by
  intro s
  obtain ⟨flag, data, lease, hfield⟩ := exists_isField value.toList
  have hs : s = _ := decode_of_isField instanceId hfield
  refine ⟨rfl, ⟨flag, data, lease, hfield, ?_, ?_, ?_, ?_⟩, decode_encode_decode instanceId value⟩
  · intro flag' data' lease' hfield'
    have heq := hfield'.parts_eq.symm.trans hfield.parts_eq
    simpa using heq
  · rw [hs, beq_iff_eq, trim_eq_iff]
  · intro read
    rw [hs, Option.bind_eq_some_iff]
    simp only [readData_eq_some_iff]
    constructor
    · intro ⟨text, htext, hne, heq⟩
      exact ⟨hne, heq ▸ htext⟩
    · intro ⟨hne, hdata⟩
      exact ⟨_, hdata, hne, rfl⟩
  · intro m
    rw [hs, Option.map_bind, Option.bind_eq_some_iff]
    simp only [Function.comp_apply, readLease_eq_some_iff, ← exists_and_left]

end Floodgate.HashStore
