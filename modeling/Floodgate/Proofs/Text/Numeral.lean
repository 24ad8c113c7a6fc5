import Mathlib.Data.List.TakeWhile
import Mathlib.Data.Nat.Digits.Defs
import Mathlib.Tactic.Ring
import Floodgate.Text.Blank
import Floodgate.Text.Decimal
/-!
# Floodgate.Proofs.Text.Numeral

**Which texts are read as a number, and as which.** A numeral is one or more ASCII digits, behind
one sign at most, and it stands for the number whose decimal digits they are (`IsNumeral`); leading
zeros and a `+` make no difference to the number. This is exactly what is read
(`parseInt?_eq_some_iff`).

Before a text is read, the blanks around it are taken off. What is left is told by what has been
taken off, and by its own two ends, which are not blank (`trim_eq_iff`).
-/

namespace Floodgate.Text

/-! ### Blanks -/

/-- Taking the blanks off the two ends of a text leaves the core. -/
structure TrimsTo (cs core : List Char) : Prop where
  /-- There are only blanks around the core. -/
  around : ∃ before after : List Char, (∀ c ∈ before, isBlank c = true) ∧
    (∀ c ∈ after, isBlank c = true) ∧ cs = before ++ core ++ after
  head_not_blank : ∀ c ∈ core.head?, isBlank c = false
  last_not_blank : ∀ c ∈ core.getLast?, isBlank c = false

theorem dropWhile_isBlank_append {before rest : List Char}
    (hbefore : ∀ c ∈ before, isBlank c = true) (hrest : ∀ c ∈ rest.head?, isBlank c = false) :
    (before ++ rest).dropWhile isBlank = rest := by
  rw [List.dropWhile_append_of_pos hbefore]
  cases rest with
  | nil => rfl
  | cons c rest => exact List.dropWhile_cons_of_neg (by simp [hrest c rfl])

theorem trim_last_not_blank (cs : List Char) : ∀ c ∈ (trim cs).getLast?, isBlank c = false := by
  intro c hc
  rw [trim, trimEnd, List.getLast?_reverse] at hc
  have hhead := List.head?_dropWhile_not isBlank (trimStart cs).reverse
  rw [Option.mem_def.mp hc] at hhead
  simpa using hhead

/-- What `trim` leaves is the one text between the blanks that has no blank at its ends. -/
theorem trim_eq_iff {cs core : List Char} : trim cs = core ↔ TrimsTo cs core := by
  constructor
  · intro h
    subst h
    refine ⟨exists_append_trim_append cs, ?_, trim_last_not_blank cs⟩
    intro c hc
    obtain ⟨rest, hrest⟩ := List.head?_eq_some_iff.mp hc
    exact trim_head_not_blank hrest
  · intro ⟨⟨before, after, hbefore, hafter, heq⟩, hhead, hlast⟩
    subst heq
    cases core with
    | nil =>
      -- all of it is blank
      have hblank : ∀ c ∈ before ++ after, isBlank c = true := by
        intro c hc
        exact (List.mem_append.mp hc).elim (hbefore c) (hafter c)
      have hall : (before ++ after).dropWhile isBlank = [] :=
        List.dropWhile_eq_nil_iff.mpr hblank
      simp [trim, trimStart, trimEnd, hall]
    | cons c rest =>
      have hstart : ∀ d ∈ (c :: rest ++ after).head?, isBlank d = false := hhead
      have hends : ∀ d ∈ (c :: rest).reverse.head?, isBlank d = false := by
        simpa only [List.head?_reverse] using hlast
      have hreverse : ∀ d ∈ after.reverse, isBlank d = true := by simpa using hafter
      rw [trim, trimStart, List.append_assoc, dropWhile_isBlank_append hbefore hstart, trimEnd,
        List.reverse_append, dropWhile_isBlank_append hreverse hends, List.reverse_reverse]

/-! ### Digits -/

/-- The number whose decimal digits, most significant first, are the characters. -/
def numeralValue (digits : List Char) : Nat :=
  Nat.ofDigits 10 (digits.reverse.map fun c => c.toNat - '0'.toNat)

theorem numeralValue_cons (c : Char) (rest : List Char) : numeralValue (c :: rest) =
    (c.toNat - '0'.toNat) * 10 ^ rest.length + numeralValue rest := by
  simp only [numeralValue, List.reverse_cons, List.map_append, Nat.ofDigits_append, List.length_map,
    List.length_reverse, List.map_cons, List.map_nil, Nat.ofDigits_singleton]
  ring

theorem digitValue?_eq (c : Char) :
    digitValue? c = if c.isDigit then some (c.toNat - '0'.toNat) else none := by
  simp only [digitValue?, Char.isDigit_iff_toNat]

/-- Digits behind a value already read go on with it. -/
theorem readDigits_eq_some_iff {acc n : Nat} {cs : List Char} : readDigits acc cs = some n ↔
    (∀ c ∈ cs, c.isDigit = true) ∧ n = acc * 10 ^ cs.length + numeralValue cs := by
  induction cs generalizing acc with
  | nil => simpa [readDigits, numeralValue] using @eq_comm Nat acc n
  | cons c rest ih =>
    rw [readDigits, digitValue?_eq, List.forall_mem_cons, numeralValue_cons]
    by_cases hc : c.isDigit = true
    · rw [if_pos hc]
      simp only [ih, hc, true_and, List.length_cons]
      have hshift : acc * 10 ^ (rest.length + 1) +
          ((c.toNat - '0'.toNat) * 10 ^ rest.length + numeralValue rest) =
          (acc * 10 + (c.toNat - '0'.toNat)) * 10 ^ rest.length + numeralValue rest := by ring
      rw [hshift]
    · simp [hc]

theorem parseNat?_eq_some_iff {n : Nat} {cs : List Char} : parseNat? cs = some n ↔
    cs ≠ [] ∧ (∀ c ∈ cs, c.isDigit = true) ∧ n = numeralValue cs := by
  cases cs with
  | nil => simp [parseNat?]
  | cons c rest =>
    rw [parseNat?, readDigits_eq_some_iff]
    · simp
    · simp

/-! ### Signs -/

/-- A numeral, with the number that it stands for. -/
inductive IsNumeral : List Char → Int → Prop where
  | unsigned {digits : List Char} (hne : digits ≠ []) (hdigits : ∀ c ∈ digits, c.isDigit = true) :
      IsNumeral digits (numeralValue digits)
  | positive {digits : List Char} (hne : digits ≠ []) (hdigits : ∀ c ∈ digits, c.isDigit = true) :
      IsNumeral ('+' :: digits) (numeralValue digits)
  | negative {digits : List Char} (hne : digits ≠ []) (hdigits : ∀ c ∈ digits, c.isDigit = true) :
      IsNumeral ('-' :: digits) (-(numeralValue digits : Int))

theorem parseInt?_of_digits {cs : List Char} (hdigits : ∀ c ∈ cs, c.isDigit = true) :
    parseInt? cs = (parseNat? cs).map Int.ofNat := by
  unfold parseInt?
  split
  · exact absurd (hdigits '+' List.mem_cons_self) (by decide)
  · exact absurd (hdigits '-' List.mem_cons_self) (by decide)
  · rfl

/-- What is read as a whole number is a numeral, and it is read as the number it stands for. -/
theorem parseInt?_eq_some_iff {cs : List Char} {m : Int} :
    parseInt? cs = some m ↔ IsNumeral cs m := by
  constructor
  · intro h
    unfold parseInt? at h
    split at h
    · obtain ⟨n, hread, rfl⟩ := Option.map_eq_some_iff.mp h
      obtain ⟨hne, hdigits, rfl⟩ := parseNat?_eq_some_iff.mp hread
      exact .positive hne hdigits
    · obtain ⟨n, hread, rfl⟩ := Option.map_eq_some_iff.mp h
      obtain ⟨hne, hdigits, rfl⟩ := parseNat?_eq_some_iff.mp hread
      exact .negative hne hdigits
    · obtain ⟨n, hread, rfl⟩ := Option.map_eq_some_iff.mp h
      obtain ⟨hne, hdigits, rfl⟩ := parseNat?_eq_some_iff.mp hread
      exact .unsigned hne hdigits
  · intro h
    cases h with
    | unsigned hne hdigits =>
      rw [parseInt?_of_digits hdigits, parseNat?_eq_some_iff.mpr ⟨hne, hdigits, rfl⟩]
      rfl
    | positive hne hdigits =>
      rw [parseInt?, parseNat?_eq_some_iff.mpr ⟨hne, hdigits, rfl⟩]
      rfl
    | negative hne hdigits =>
      rw [parseInt?, parseNat?_eq_some_iff.mpr ⟨hne, hdigits, rfl⟩]
      rfl

theorem fitsInt64_iff {m : Int} : fitsInt64 m = true ↔ -2 ^ 63 ≤ m ∧ m < 2 ^ 63 := by
  simp only [fitsInt64, Bool.and_eq_true, decide_eq_true_eq]
  omega

theorem parseInt64?_eq_some_iff {cs : List Char} {m : Int} :
    parseInt64? cs = some m ↔ IsNumeral cs m ∧ -2 ^ 63 ≤ m ∧ m < 2 ^ 63 := by
  rw [parseInt64?, Option.filter_eq_some_iff, parseInt?_eq_some_iff, fitsInt64_iff]

end Floodgate.Text
