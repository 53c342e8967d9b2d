import ChapelSource.Grouping.Symbol
import ChapelSource.Piece

/-!
# Tokens of operator expressions

A text of words, parentheses and operator symbols is split from left to right, and every token is
taken as long as it can be.

* `Token`: the tokens.
* `longestSymbol?`, `length_le_of_longestSymbol?`: the longest symbol at the front of a text.
* `tokenize`: the tokens of a text. Spaces only separate; any other character is refused.
* `Piece.token?`: the token as which a piece of an expression is written.
-/

namespace ChapelSource

/-- A part of the text of an operator expression. -/
inductive Token where
  | word (w : Word)
  | symbol (s : String)
  | openParen
  | closeParen
  deriving DecidableEq

namespace Word

/-- The word that starts with the character `c` before `rest`. -/
def run (c : Char) (rest : List Char) (h : isWordChar c = true) : Word where
  chars := c :: rest.takeWhile isWordChar
  chars_ne_nil := List.cons_ne_nil _ _
  isWordChar_of_mem := by
    intro d hd
    rcases List.mem_cons.1 hd with rfl | hd
    · exact h
    · exact List.all_eq_true.1 (List.all_takeWhile) d hd

end Word

/-- The longest operator symbol that a text starts with. -/
def longestSymbol? (cs : List Char) : Option String :=
  operatorSymbols.find? fun s => s.toList.isPrefixOf cs

/-- No symbol at the front of a text is longer than the one that is found there. -/
theorem length_le_of_longestSymbol? {cs : List Char} {r s : String}
    (h : longestSymbol? cs = some s) (hr : r ∈ operatorSymbols) (hfront : r.toList.isPrefixOf cs) :
    r.length ≤ s.length := by
  have hsorted : operatorSymbols.Pairwise fun r s => s.length ≤ r.length := by decide
  obtain ⟨-, before, after, hsplit, hbefore⟩ := List.find?_eq_some_iff_append.1 h
  rw [hsplit, List.pairwise_append, List.pairwise_cons] at hsorted
  rw [hsplit, List.mem_append, List.mem_cons] at hr
  rcases hr with hr | rfl | hr
  · have hnone := hbefore r hr
    rw [hfront] at hnone
    contradiction
  · exact Nat.le_refl _
  · exact hsorted.2.1.1 r hr

/-- The tokens of a text, if it has no character that is in none. -/
def tokenize (cs : List Char) : Option (List Token) :=
  match cs with
  | [] => some []
  | c :: rest =>
    if c = ' ' then tokenize rest
    else if c = '(' then (tokenize rest).map (.openParen :: ·)
    else if c = ')' then (tokenize rest).map (.closeParen :: ·)
    else if h : isWordChar c = true then
      (tokenize (rest.dropWhile isWordChar)).map (.word (Word.run c rest h) :: ·)
    else
      match longestSymbol? (c :: rest) with
      | none => none
      | some s => (tokenize (rest.drop (s.length - 1))).map (.symbol s :: ·)
termination_by cs.length
decreasing_by
  all_goals simp only [List.length_cons, List.length_drop]
  any_goals omega
  exact Nat.lt_succ_of_le (List.dropWhile_sublist _).length_le

/-! ## Tokens as they are written -/

/-- The word that a text is. -/
def Word.ofText? (s : String) : Option Word :=
  if h : s.toList ≠ [] ∧ s.toList.all isWordChar = true then
    some ⟨s.toList, h.1, List.all_eq_true.1 h.2⟩
  else none

/-- The token as which a piece of an operator expression is written. -/
def Piece.token? : Piece → Option Token
  | .operator symbol _ => some (.symbol symbol)
  | .atom (.text s) =>
    if s = "(" then some .openParen
    else if s = ")" then some .closeParen
    else if s ∈ operatorSymbols then some (.symbol s)
    else (Word.ofText? s).map .word
  | .atom _ => none

end ChapelSource
