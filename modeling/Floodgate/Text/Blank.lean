/-!
# Floodgate.Text.Blank

**Blank text names nothing.** Instance names, lock keys and numeric fields are read with the
blanks around them taken off. A blank is a character of Unicode's `White_Space` property: the
five controls of ASCII, the space, and nineteen characters beyond them.

The main statements are that `trim` removes blanks and nothing else
(`exists_append_trim_append`), and that what it leaves does not start with one
(`trim_head_not_blank`).
-/

namespace Floodgate.Text

/-- The characters of Unicode's `White_Space` property. -/
def isBlank (c : Char) : Bool :=
  let n := c.toNat
  (0x09 ≤ n && n ≤ 0x0d) || n == 0x20 || n == 0x85 || n == 0xa0 || n == 0x1680 ||
    (0x2000 ≤ n && n ≤ 0x200a) || n == 0x2028 || n == 0x2029 || n == 0x202f ||
    n == 0x205f || n == 0x3000

/-- The text without the blanks at its start. -/
def trimStart (cs : List Char) : List Char := cs.dropWhile isBlank

/-- The text without the blanks at its end. -/
def trimEnd (cs : List Char) : List Char := (cs.reverse.dropWhile isBlank).reverse

/-- The text without the blanks at either end. -/
def trim (cs : List Char) : List Char := trimEnd (trimStart cs)

/-- Whether a name consists of blanks only, so that it names nothing. -/
def isBlankName (name : String) : Bool := name.toList.all isBlank

@[simp] theorem trim_nil : trim [] = [] := rfl

/-- Taking blanks off the start removes blanks and nothing else. -/
theorem exists_append_trimStart (cs : List Char) :
    ∃ before : List Char, (∀ c ∈ before, isBlank c = true) ∧ cs = before ++ trimStart cs := by
  refine ⟨cs.takeWhile isBlank, ?_, (List.takeWhile_append_dropWhile).symm⟩
  induction cs with
  | nil => simp
  | cons c rest ih =>
    intro d hd
    by_cases hc : isBlank c = true
    · rw [List.takeWhile_cons_of_pos hc] at hd
      rcases List.mem_cons.mp hd with rfl | hd
      · exact hc
      · exact ih d hd
    · simp [hc] at hd

/-- Taking blanks off the end removes blanks and nothing else. -/
theorem exists_append_trimEnd (cs : List Char) :
    ∃ after : List Char, (∀ c ∈ after, isBlank c = true) ∧ cs = trimEnd cs ++ after := by
  obtain ⟨before, hblank, heq⟩ := exists_append_trimStart cs.reverse
  refine ⟨before.reverse, by simpa using hblank, ?_⟩
  have h := congrArg List.reverse heq
  simpa [trimEnd, trimStart] using h

/-- Trimming removes blanks at the two ends and nothing else. -/
theorem exists_append_trim_append (cs : List Char) :
    ∃ before after : List Char, (∀ c ∈ before, isBlank c = true) ∧
      (∀ c ∈ after, isBlank c = true) ∧ cs = before ++ trim cs ++ after := by
  obtain ⟨before, hbefore, h₁⟩ := exists_append_trimStart cs
  obtain ⟨after, hafter, h₂⟩ := exists_append_trimEnd (trimStart cs)
  refine ⟨before, after, hbefore, hafter, ?_⟩
  rw [trim, List.append_assoc, ← h₂, ← h₁]

/-- Text without blanks at its start keeps none there after its end is trimmed. -/
theorem trim_head_not_blank {c : Char} {rest cs : List Char} (h : trim cs = c :: rest) :
    isBlank c = false := by
  obtain ⟨after, -, hsplit⟩ := exists_append_trimEnd (trimStart cs)
  rw [show trimEnd (trimStart cs) = c :: rest from h, List.cons_append] at hsplit
  have hne : cs.dropWhile isBlank ≠ [] := by
    show trimStart cs ≠ []
    rw [hsplit]; simp
  have hhead := List.head_dropWhile_not isBlank hne
  simp only [show cs.dropWhile isBlank = c :: (rest ++ after) from hsplit, List.head_cons] at hhead
  simpa using hhead

/-- Text without blanks is left as it is. -/
theorem trim_eq_self {cs : List Char} (h : ∀ c ∈ cs, isBlank c = false) : trim cs = cs := by
  have hnone {ds : List Char} (hd : ∀ c ∈ ds, isBlank c = false) : ds.dropWhile isBlank = ds := by
    cases ds with
    | nil => rfl
    | cons c rest => exact List.dropWhile_cons_of_neg (by simp [hd c List.mem_cons_self])
  rw [trim, trimEnd, trimStart, hnone h, hnone (by simpa using h), List.reverse_reverse]

end Floodgate.Text
