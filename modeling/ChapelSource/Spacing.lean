import ChapelSource.Print

/-!
# Spaces around operators

* `Piece.unspaced`, `Piece.spacedSymbol?`: a piece as it is inside a type, and the symbol of an
  operator that has spaces around it.
* `SymbolText`: a text cut at some symbols.
* `SymbolText.spelled`: such a text with a gap on each side of the symbols.
-/

namespace ChapelSource

/-- A piece as it is inside a type. -/
def Piece.unspaced : Piece → Piece
  | .operator symbol _ => .operator symbol false
  | .atom a => .atom a

/-- The symbol of an operator that has a space on each side. -/
def Piece.spacedSymbol? : Piece → Option String
  | .operator symbol true => some symbol
  | _ => none

/-- A text cut at some symbols. -/
structure SymbolText where
  /-- The text before the first symbol. -/
  first : String
  /-- The symbols in order, each with the text up to the next one. -/
  rest : List (String × String)

namespace SymbolText

/-- The symbols at which the text is cut. -/
def symbols (t : SymbolText) : List String := t.rest.map Prod.fst

/-- The whole text, with a gap on each side of every symbol. -/
def spelled (gap : String) (t : SymbolText) : String :=
  t.first ++ String.join (t.rest.map fun p => gap ++ p.1 ++ gap ++ p.2)

end SymbolText

end ChapelSource
