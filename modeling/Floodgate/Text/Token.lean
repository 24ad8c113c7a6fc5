/-!
# Floodgate.Text.Token

**Looking for a token in a text, and cutting the text at it.** Both work left to right: a token
is found at its leftmost place, and the search for the next one goes on behind its end, so tokens
that overlap count once. The empty token occurs in every text.

`pieces` walks the text once. While `skip` is positive it passes over the rest of a token just
found; `cur` holds the current piece, last character first.
-/

namespace Floodgate.Text

/-- Whether the token occurs somewhere in the text. -/
def occursIn (token : List Char) : List Char → Bool
  | [] => token.isEmpty
  | c :: rest => token.isPrefixOf (c :: rest) || occursIn token rest

/-- The pieces of a text between the places of a token, of which `skip` characters have still to
be passed over, behind the piece `cur` read so far. -/
def piecesFrom (token : List Char) : (skip : Nat) → (cur : List Char) → List Char →
    List (List Char)
  | _, cur, [] => [cur.reverse]
  | skip + 1, cur, _ :: rest => piecesFrom token skip cur rest
  | 0, cur, c :: rest =>
    if token.isPrefixOf (c :: rest) then
      cur.reverse :: piecesFrom token (token.length - 1) [] rest
    else
      piecesFrom token 0 (c :: cur) rest

/-- The pieces of a text between the places of a token. -/
def pieces (token text : List Char) : List (List Char) := piecesFrom token 0 [] text

/-- A token occurs in a text exactly if the text is something before it, the token, and something
behind it. -/
theorem occursIn_iff {token text : List Char} : occursIn token text = true ↔ token <:+: text := by
  induction text with
  | nil =>
    simp only [occursIn, List.isEmpty_iff]
    exact List.infix_nil.symm
  | cons c rest ih =>
    rw [occursIn, Bool.or_eq_true, ih, List.isPrefixOf_iff_prefix, List.infix_cons_iff]

end Floodgate.Text
