/-!
# Operators

How operators rank, when an operand needs parentheses, and when a symbol is set off by spaces.

* `Operator`: an operator as it stands at its operands.
* `Operator.ofCall`: the operator that a call by name stands for.
* `Operator.precedence`: its rank; a larger number binds tighter.
* `Operator.needsParens`: whether an operand must be parenthesized to keep its grouping.
* `Operator.spaced`: whether a binary symbol has a space on each side.
-/

namespace ChapelSource

/-- An operator as it stands at its operands. -/
structure Operator where
  /-- The symbol as it is written. -/
  symbol : String
  /-- It has one operand. -/
  unary : Bool
  /-- It is written after its operand. -/
  trailing : Bool
  deriving DecidableEq

namespace Operator

/-- The operator that a call of `name` on `arity` operands stands for. A call names the trailing `!`
by a word of its own, and a unary `?` always trails. -/
def ofCall (name : String) (arity : Nat) : Operator :=
  if arity = 1 then
    if name = "postfix!" then ⟨"!", true, true⟩
    else if name = "?" then ⟨"?", true, true⟩
    else ⟨name, true, false⟩
  else ⟨name, false, false⟩

/-- The rank of an operator, if it has one. -/
def precedence (o : Operator) : Option Nat :=
  match o.symbol with
  | "?" => if o.trailing then some 18 else none
  | "!" => if o.trailing then some 18 else some 14
  | ":" => some 17
  | "**" => some 16
  | "~" => some 14
  | "*" | "/" | "%" => some 13
  | "+" | "-" => if o.unary then some 12 else some 7
  | "<<" | ">>" => some 11
  | "&" => some 10
  | "^" => some 9
  | "|" => some 8
  | "<" | "<=" | ">" | ">=" => some 5
  | "==" | "!=" => some 4
  | "&&" => some 3
  | "||" => some 2
  | "#" => some 1
  | _ => none

/-- The symbols that group to the left and whose value depends on it: an operand of the same rank on
their right keeps its parentheses. -/
def leftGrouping : List String := ["-", "/", "%", "<<", ">>", "==", "!="]

/-- Whether the operator call `inner` needs parentheses as an operand of `outer`; `onRight` tells
that it follows the symbol of `outer`.

An operator without a rank always separates. A unary operand on the right never needs them, as in
`1 ** -2`. Otherwise the looser operand is parenthesized, and of two equal ranks the one that
would regroup. -/
def needsParens (outer inner : Operator) (onRight : Bool) : Bool :=
  match outer.precedence, inner.precedence with
  | some p, some q =>
    if inner.unary && onRight then false
    else if q < p then true
    else if p < q then false
    else if onRight then leftGrouping.contains outer.symbol
    else outer.symbol == "**"
  | _, _ => true

/-- A binary symbol has a space on each side, save `**` and any symbol inside a type. -/
def spaced (symbol : String) (inType : Bool) : Bool := symbol != "**" && !inType

end Operator

end ChapelSource
