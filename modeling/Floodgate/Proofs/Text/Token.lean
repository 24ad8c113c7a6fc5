import Floodgate.Text.Token
/-!
# Floodgate.Proofs.Text.Token

**Where a text is cut.** `pieces` is described by three equations: an empty text is one empty
piece, a token at the start begins a new piece behind it, and any other character belongs to the
first piece. A text is therefore cut at a token exactly where no earlier place overlaps it
(`pieces_append_token`), and an earlier place that overlaps a token leaves behind an end of the
token that is also a start of it (`exists_border`).

All of it in one relation: `pieces` cuts a text at the first place of the token, and then what is
behind it (`isCut_pieces`).
-/

namespace Floodgate.Text

variable {token : List Char}

/-! ### Three equations -/

/-- Passing over the rest of a token is dropping it. -/
theorem piecesFrom_drop (token : List Char) (skip : Nat) (cur text : List Char) :
    piecesFrom token skip cur text = piecesFrom token 0 cur (text.drop skip) := by
  induction skip generalizing text with
  | zero => rfl
  | succ skip ih =>
    cases text with
    | nil => simp [piecesFrom]
    | cons c rest => exact ih rest

/-- What has been read of the first piece stands before the rest of it. -/
theorem piecesFrom_cur (token cur text : List Char) :
    piecesFrom token 0 cur text = (pieces token text).modifyHead (cur.reverse ++ ·) := by
  unfold pieces
  induction text generalizing cur with
  | nil => simp [piecesFrom]
  | cons c rest ih =>
    rw [piecesFrom, piecesFrom]
    split
    · simp
    · rw [ih (c :: cur), ih [c], List.modifyHead_modifyHead]
      congr 1
      funext piece
      simp

@[simp] theorem pieces_nil (token : List Char) : pieces token [] = [[]] := rfl

/-- A token at the start of a text ends an empty piece. -/
theorem pieces_token_append (htoken : token ≠ []) (rest : List Char) :
    pieces token (token ++ rest) = [] :: pieces token rest := by
  cases token with
  | nil => exact absurd rfl htoken
  | cons c token =>
    have hstart : (c :: token).isPrefixOf (c :: (token ++ rest)) = true :=
      List.isPrefixOf_iff_prefix.mpr (List.prefix_append (c :: token) rest)
    rw [List.cons_append, pieces, piecesFrom, if_pos hstart, piecesFrom_drop]
    simp [pieces]

/-- A character where no token starts belongs to the first piece. -/
theorem pieces_cons {c : Char} {rest : List Char} (h : ¬ token <+: c :: rest) :
    pieces token (c :: rest) = (pieces token rest).modifyHead (c :: ·) := by
  have hstart : ¬ token.isPrefixOf (c :: rest) = true :=
    fun hprefix => h (List.isPrefixOf_iff_prefix.mp hprefix)
  rw [pieces, piecesFrom, if_neg hstart, piecesFrom_cur]
  rfl

theorem piecesFrom_ne_nil (token : List Char) (skip : Nat) (cur text : List Char) :
    piecesFrom token skip cur text ≠ [] := by
  fun_induction piecesFrom token skip cur text with
  | case1 => simp
  | case2 _ _ _ _ ih => exact ih
  | case3 => simp
  | case4 _ _ _ _ ih => exact ih

/-- A text that does not start with a token does not start with an empty piece. -/
theorem exists_pieces_cons {c : Char} {rest : List Char} (h : ¬ token <+: c :: rest) :
    ∃ piece more, pieces token (c :: rest) = (c :: piece) :: more := by
  rw [pieces_cons h]
  cases hpieces : pieces token rest with
  | nil => exact absurd hpieces (piecesFrom_ne_nil token 0 [] rest)
  | cons piece more => exact ⟨piece, more, rfl⟩

/-! ### Pieces in a row -/

/-- Text in which no token starts belongs to the first piece. -/
theorem pieces_append {before rest : List Char}
    (h : ∀ tail, tail <:+ before → tail ≠ [] → ¬ token <+: tail ++ rest) :
    pieces token (before ++ rest) = (pieces token rest).modifyHead (before ++ ·) := by
  induction before with
  | nil => exact (congrFun List.modifyHead_id _).symm
  | cons c before ih =>
    have hrest := ih fun tail htail => h tail (htail.trans (List.suffix_cons c before))
    have hhere : ¬ token <+: c :: (before ++ rest) :=
      h (c :: before) List.suffix_rfl (List.cons_ne_nil _ _)
    rw [List.cons_append, pieces_cons hhere, hrest, List.modifyHead_modifyHead]
    rfl

/-- A text is cut at a token before which none starts. -/
theorem pieces_append_token (htoken : token ≠ []) {before rest : List Char}
    (h : ∀ tail, tail <:+ before → tail ≠ [] → ¬ token <+: tail ++ (token ++ rest)) :
    pieces token (before ++ (token ++ rest)) = before :: pieces token rest := by
  rw [pieces_append h, pieces_token_append htoken]
  simp

/-- A text without the token is one piece. -/
theorem pieces_eq_single {text : List Char} (h : ¬ token <:+: text) :
    pieces token text = [text] := by
  have hnone : ∀ tail, tail <:+ text → tail ≠ [] → ¬ token <+: tail ++ [] := by
    intro tail htail _ hstart
    rw [List.append_nil] at hstart
    exact h (hstart.isInfix.trans htail.isInfix)
  have hpieces := pieces_append hnone
  simpa using hpieces

/-! ### Overlaps -/

/-- A token that starts before another place of it, and is not over by then, is an end of the text
before that place and a border of the token: an end of the token that is also a start of it. -/
theorem exists_border {before tail rest : List Char} (htail : tail <:+ before)
    (hbefore : ¬ token <:+: before) (hstart : token <+: tail ++ (token ++ rest)) :
    ∃ border, token = tail ++ border ∧ border ≠ [] ∧ border <+: token := by
  have hshort : tail.length < token.length := by
    refine Nat.lt_of_not_le fun hle => hbefore ?_
    have hinside := List.prefix_of_prefix_length_le hstart (List.prefix_append tail _) hle
    exact hinside.isInfix.trans htail.isInfix
  obtain ⟨border, rfl⟩ :=
    List.prefix_of_prefix_length_le (List.prefix_append tail _) hstart (Nat.le_of_lt hshort)
  have hborder := (List.prefix_append_right_inj tail).mp hstart
  refine ⟨border, rfl, ?_, ?_⟩
  · rintro rfl
    simp at hshort
  · exact List.prefix_of_prefix_length_le hborder (List.prefix_append _ rest) (by simp)

/-! ### Cuts -/

/-- A text cut at the places of a token, from left to right. -/
inductive IsCut (token : List Char) : List Char → List (List Char) → Prop where
  /-- The token does not occur. -/
  | whole {text : List Char} (hfree : ¬ token <:+: text) : IsCut token text [text]
  /-- The text is cut at a token, and no other place of it ends earlier. -/
  | cut {before rest : List Char} {ps : List (List Char)}
      (hfirst : ¬ token <:+: before ++ token.dropLast) (hrest : IsCut token rest ps) :
      IsCut token (before ++ (token ++ rest)) (before :: ps)

/-- A token that starts nowhere in a text when something follows it has no place that needs only a
short part of what follows. -/
theorem not_infix_append {before more rest : List Char} (hshort : more.length < token.length)
    (hmore : more <+: rest)
    (h : ∀ tail, tail <:+ before → tail ≠ [] → ¬ token <+: tail ++ rest) :
    ¬ token <:+: before ++ more := by
  intro hinside
  obtain ⟨start, stop, heq⟩ := hinside
  have hle : start.length ≤ before.length := by
    have hlength := congrArg List.length heq
    simp at hlength
    omega
  obtain ⟨tail, rfl⟩ : start <+: before := by
    refine List.prefix_of_prefix_length_le ?_ (List.prefix_append before more) hle
    exact ⟨token ++ stop, by simpa using heq⟩
  have htail : token ++ stop = tail ++ more := by simpa using heq
  refine h tail (List.suffix_append start tail) ?_ ?_
  · intro hnil
    have hlength := congrArg List.length htail
    simp [hnil] at hlength
    omega
  · have hstart : token <+: tail ++ more := ⟨stop, htail⟩
    exact hstart.trans ((List.prefix_append_right_inj tail).mpr hmore)

/-- What is still to be read is cut behind the piece read so far, if no token starts in that. -/
theorem isCut_piecesFrom (htoken : token ≠ []) (skip : Nat) (cur text : List Char)
    (h : ∀ tail, tail <:+ cur.reverse → tail ≠ [] → ¬ token <+: tail ++ text.drop skip) :
    IsCut token (cur.reverse ++ text.drop skip) (piecesFrom token skip cur text) := by
  have hpos := List.length_pos_iff.mpr htoken
  fun_induction piecesFrom token skip cur text with
  | case1 skip cur =>
    have hfree : ¬ token <:+: cur.reverse ++ [] := not_infix_append hpos List.nil_prefix h
    simp only [List.append_nil, List.drop_nil] at hfree ⊢
    exact .whole hfree
  | case2 skip cur c rest ih => exact ih h
  | case3 cur c rest hstart ih =>
    rw [List.isPrefixOf_iff_prefix] at hstart
    obtain ⟨more, hmore⟩ := hstart
    have hdrop : rest.drop (token.length - 1) = more := by
      have hcons : (c :: rest).drop token.length = more := by rw [← hmore, List.drop_left]
      rwa [← Nat.sub_add_cancel hpos, List.drop_succ_cons] at hcons
    have hrest := ih (by simp)
    rw [hdrop] at hrest
    rw [List.drop_zero, ← hmore]
    have hprefix : token.dropLast <+: c :: rest :=
      (List.dropLast_prefix token).trans ⟨more, hmore⟩
    exact .cut (not_infix_append (by simp; omega) hprefix h) hrest
  | case4 cur c rest hstart ih =>
    rw [List.isPrefixOf_iff_prefix] at hstart
    simp only [List.reverse_cons, List.append_assoc, List.singleton_append, List.drop_zero] at ih ⊢
    refine ih ?_
    intro tail htail hne
    rw [List.suffix_concat_iff] at htail
    rcases htail with rfl | ⟨shorter, rfl, hshorter⟩
    · exact absurd rfl hne
    · by_cases hnil : shorter = []
      · simpa [hnil] using hstart
      · simpa using h shorter hshorter hnil

/-- The pieces of a text are cut out of it at the first places of the token. -/
theorem isCut_pieces (htoken : token ≠ []) (text : List Char) :
    IsCut token text (pieces token text) := by
  have hcut := isCut_piecesFrom htoken 0 [] text (by simp)
  simpa [pieces] using hcut

/-- A piece does not hold the token. -/
theorem IsCut.free_of_token {text piece : List Char} {ps : List (List Char)}
    (h : IsCut token text ps) (hpiece : piece ∈ ps) : ¬ token <:+: piece := by
  induction h with
  | whole hfree => simpa [List.mem_singleton.mp hpiece] using hfree
  | @cut before rest ps hfirst hrest ih =>
    rcases List.mem_cons.mp hpiece with rfl | hlater
    · intro hinside
      exact hfirst (hinside.trans (List.prefix_append piece token.dropLast).isInfix)
    · exact ih hlater

/-- A piece behind which the text was cut does not even hold the token with a part of the cut. -/
theorem IsCut.not_infix_append {text piece : List Char} {ps : List (List Char)}
    (h : IsCut token text ps) (hpiece : piece ∈ ps.dropLast) :
    ¬ token <:+: piece ++ token.dropLast := by
  induction h with
  | whole hfree => simp at hpiece
  | @cut before rest ps hfirst hrest ih =>
    cases ps with
    | nil => simp at hpiece
    | cons next more =>
      rw [List.dropLast_cons_cons] at hpiece
      rcases List.mem_cons.mp hpiece with rfl | hlater
      · exact hfirst
      · exact ih hlater

end Floodgate.Text
