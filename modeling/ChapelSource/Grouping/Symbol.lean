import ChapelSource.Operator

/-!
# Ranked operators

The operators that have a rank, by where they stand, and the words that they stand between.

* `BinaryOp`, `LeadingOp`, `TrailingOp`: the operators between, before and after their operands.
* `BinaryOp.rank`, `LeadingOp.rank`, `TrailingOp.rank`: their ranks, as `Operator.precedence` has
  them.
* `BinaryOp.rightLevel`: how tight the right operand of a binary operator binds when it is read.
* `BinaryOp.regroups`: the operators whose right operand may change sides.
* `operatorSymbols`: the symbols of all operators that have a rank.
* `Word`: a name that stands alone.
* `PlainName`: a word that is none of some keywords.
-/

namespace ChapelSource

/-! ## Operators -/

/-- An operator between two operands. -/
inductive BinaryOp where
  | colon | power | times | divide | modulo | shiftLeft | shiftRight | bitAnd | bitXor | bitOr
  | plus | minus | less | lessEq | greater | greaterEq | equal | notEqual | and | or | hash
  deriving DecidableEq

/-- An operator before its operand. -/
inductive LeadingOp where
  | plus | minus | not | complement
  deriving DecidableEq

/-- An operator after its operand. -/
inductive TrailingOp where
  | bang | query
  deriving DecidableEq

namespace BinaryOp

/-- The symbol of a binary operator, which is also the name by which it is called. -/
def symbol : BinaryOp → String
  | .colon => ":"
  | .power => "**"
  | .times => "*"
  | .divide => "/"
  | .modulo => "%"
  | .shiftLeft => "<<"
  | .shiftRight => ">>"
  | .bitAnd => "&"
  | .bitXor => "^"
  | .bitOr => "|"
  | .plus => "+"
  | .minus => "-"
  | .less => "<"
  | .lessEq => "<="
  | .greater => ">"
  | .greaterEq => ">="
  | .equal => "=="
  | .notEqual => "!="
  | .and => "&&"
  | .or => "||"
  | .hash => "#"

/-- The binary operators. -/
def all : List BinaryOp :=
  [.colon, .power, .times, .divide, .modulo, .shiftLeft, .shiftRight, .bitAnd, .bitXor, .bitOr,
    .plus, .minus, .less, .lessEq, .greater, .greaterEq, .equal, .notEqual, .and, .or, .hash]

/-- The binary operator of a symbol. -/
def ofSymbol? (s : String) : Option BinaryOp := all.find? (·.symbol == s)

/-- A binary operator as it stands between its operands. -/
def operator (o : BinaryOp) : Operator := ⟨o.symbol, false, false⟩

/-- The rank of a binary operator. -/
def rank (o : BinaryOp) : Nat := o.operator.precedence.getD 0

/-- The least rank that an operator may have to belong to the right operand of `o`. Only `**` groups
to the right. -/
def rightLevel (o : BinaryOp) : Nat := if o = .power then o.rank else o.rank + 1

/-- Whether `a o (b p c)` may be written like `(a o b) p c` when `o` and `p` have the same rank. -/
def regroups : BinaryOp → Bool
  | .minus | .divide | .modulo | .shiftLeft | .shiftRight | .equal | .notEqual | .power => false
  | _ => true

@[simp] theorem ofSymbol?_symbol (o : BinaryOp) : ofSymbol? o.symbol = some o := by
  cases o <;> rfl

@[simp] theorem precedence_operator (o : BinaryOp) : o.operator.precedence = some o.rank := by
  cases o <;> rfl

end BinaryOp

namespace LeadingOp

/-- The symbol of a leading operator, which is also the name by which it is called. -/
def symbol : LeadingOp → String
  | .plus => "+"
  | .minus => "-"
  | .not => "!"
  | .complement => "~"

/-- The leading operators. -/
def all : List LeadingOp := [.plus, .minus, .not, .complement]

/-- The leading operator of a symbol. -/
def ofSymbol? (s : String) : Option LeadingOp := all.find? (·.symbol == s)

/-- A leading operator as it stands before its operand. -/
def operator (o : LeadingOp) : Operator := ⟨o.symbol, true, false⟩

/-- The rank of a leading operator. -/
def rank (o : LeadingOp) : Nat := o.operator.precedence.getD 0

@[simp] theorem ofSymbol?_symbol (o : LeadingOp) : ofSymbol? o.symbol = some o := by
  cases o <;> rfl

@[simp] theorem precedence_operator (o : LeadingOp) : o.operator.precedence = some o.rank := by
  cases o <;> rfl

end LeadingOp

namespace TrailingOp

/-- The symbol of a trailing operator. -/
def symbol : TrailingOp → String
  | .bang => "!"
  | .query => "?"

/-- The name by which a trailing operator is called. -/
def callName : TrailingOp → String
  | .bang => "postfix!"
  | .query => "?"

/-- The trailing operators. -/
def all : List TrailingOp := [.bang, .query]

/-- The trailing operator of a symbol. -/
def ofSymbol? (s : String) : Option TrailingOp := all.find? (·.symbol == s)

/-- A trailing operator as it stands after its operand. -/
def operator (o : TrailingOp) : Operator := ⟨o.symbol, true, true⟩

/-- The rank of a trailing operator. -/
def rank (o : TrailingOp) : Nat := o.operator.precedence.getD 0

@[simp] theorem ofSymbol?_symbol (o : TrailingOp) : ofSymbol? o.symbol = some o := by
  cases o <;> rfl

@[simp] theorem precedence_operator (o : TrailingOp) : o.operator.precedence = some o.rank := by
  cases o <;> rfl

end TrailingOp

/-! ## Symbols -/

/-- The symbols of the operators that have a rank, the longer ones first. -/
def operatorSymbols : List String :=
  ["**", "<<", ">>", "<=", ">=", "==", "!=", "&&", "||", ":", "*", "/", "%", "&", "^", "|", "+", "-",
    "<", ">", "#", "!", "~", "?"]

/-- The symbols are those to which the table of ranks gives a rank at some place. -/
theorem mem_operatorSymbols_iff {s : String} :
    s ∈ operatorSymbols ↔ ∃ unary trailing, (Operator.mk s unary trailing).precedence.isSome := by
  constructor
  · have ranked : ∀ s ∈ operatorSymbols, (Operator.mk s true true).precedence.isSome := by decide
    exact fun h => ⟨true, true, ranked s h⟩
  · rintro ⟨unary, trailing, h⟩
    simp only [Operator.precedence] at h
    split at h <;> simp_all [operatorSymbols]

/-! ## Words -/

/-- The characters of names: letters, digits and `_`. Every character beyond ASCII counts as a
letter. -/
def isWordChar (c : Char) : Bool := c.isAlphanum || c == '_' || 128 ≤ c.toNat

/-- A name that stands alone. -/
@[ext]
structure Word where
  /-- The characters of the name. -/
  chars : List Char
  /-- A name has a character. -/
  chars_ne_nil : chars ≠ []
  /-- A name has no space, bracket or symbol. -/
  isWordChar_of_mem : ∀ c ∈ chars, isWordChar c = true
  deriving DecidableEq

/-- A word of one character. -/
def Word.single (c : Char) (h : isWordChar c = true) : Word where
  chars := [c]
  chars_ne_nil := List.cons_ne_nil _ _
  isWordChar_of_mem := by
    intro d hd
    rw [List.mem_singleton.1 hd]
    exact h

/-- A word as a string. -/
def Word.text (w : Word) : String := String.ofList w.chars

/-- A word that is none of some keywords. -/
@[ext]
structure PlainName (keywords : List String) extends Word where
  not_keyword : toWord.text ∉ keywords
  deriving DecidableEq

end ChapelSource
