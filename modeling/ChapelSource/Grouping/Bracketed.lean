import ChapelSource.Grouping.Tree
import ChapelSource.Grouping.Token

/-!
# Operator trees with their parentheses

* `Bracketed`: operator trees that show their parentheses.
* `Bracketed.tokens`, `Bracketed.chars`: such a tree in writing.
* `OpTree.bracketed`: a tree with the parentheses that it is written with.
* `OpTree.text`: the text of a tree.
* `Bracketed.Closes`, `Bracketed.Unexposed`: whether an operator may follow a tree without being read
  into it, and whether that holds at every left operand.
* `Bracketed.EndsInBang`, `Bracketed.Apart`: whether a trailing `!` stands at the end of a tree, and
  whether none stands right before an `==`.
* `Paired`: a text in which every parenthesis has its partner.
-/

namespace ChapelSource

/-- An operator tree that shows its parentheses. -/
inductive Bracketed where
  | name (w : Word)
  | parens (inside : Bracketed)
  | leading (o : LeadingOp) (operand : Bracketed)
  | trailing (operand : Bracketed) (o : TrailingOp)
  | binary (o : BinaryOp) (left right : Bracketed)

namespace Bracketed

/-- The tree without its parentheses. -/
def erase : Bracketed → OpTree
  | name w => .name w
  | parens c => c.erase
  | leading o e => .leading o e.erase
  | trailing e o => .trailing e.erase o
  | binary o l r => .binary o l.erase r.erase

/-- A tree in parentheses if it needs them. -/
def group (needed : Bool) (c : Bracketed) : Bracketed := if needed then parens c else c

/-- The tokens of a tree in order. -/
def tokens : Bracketed → List Token
  | name w => [.word w]
  | parens c => .openParen :: (c.tokens ++ [.closeParen])
  | leading o e => .symbol o.symbol :: e.tokens
  | trailing e o => e.tokens ++ [.symbol o.symbol]
  | binary o l r => l.tokens ++ .symbol o.symbol :: r.tokens

/-- A binary symbol in writing. -/
def symbolChars (inType : Bool) (o : BinaryOp) : List Char :=
  if Operator.spaced o.symbol inType then ' ' :: (o.symbol.toList ++ [' ']) else o.symbol.toList

/-- The characters of a tree, inside a type or elsewhere. -/
def chars (inType : Bool) : Bracketed → List Char
  | name w => w.chars
  | parens c => '(' :: (c.chars inType ++ [')'])
  | leading o e => o.symbol.toList ++ e.chars inType
  | trailing e o => e.chars inType ++ o.symbol.toList
  | binary o l r => l.chars inType ++ (symbolChars inType o ++ r.chars inType)

/-! ## What may follow a tree -/

/-- The symbol `o` after a tree is not read into it: no operator at its right edge takes an operand
that binds like `o`. -/
def Closes (o : BinaryOp) : Bracketed → Prop
  | name _ | parens _ | trailing _ _ => True
  | leading p e => o.rank ≤ p.rank ∧ e.Closes o
  | binary p _ r => o.rank < p.rightLevel ∧ r.Closes o

instance decidableCloses (o : BinaryOp) : (c : Bracketed) → Decidable (c.Closes o)
  | name _ | parens _ | trailing _ _ => .isTrue trivial
  | leading p e =>
    have := decidableCloses o e
    inferInstanceAs (Decidable (o.rank ≤ p.rank ∧ e.Closes o))
  | binary p _ r =>
    have := decidableCloses o r
    inferInstanceAs (Decidable (o.rank < p.rightLevel ∧ r.Closes o))

/-- No left operand takes the symbol after it. -/
def Unexposed : Bracketed → Prop
  | name _ => True
  | parens c => c.Unexposed
  | leading _ e => e.Unexposed
  | trailing e _ => e.Unexposed
  | binary o l r => l.Closes o ∧ l.Unexposed ∧ r.Unexposed

/-- A trailing `!` stands at the end of a tree. -/
def EndsInBang : Bracketed → Prop
  | name _ | parens _ => False
  | leading _ e => e.EndsInBang
  | trailing _ o => o = .bang
  | binary _ _ r => r.EndsInBang

/-- No `==` comes right after a trailing `!`. -/
def Apart : Bracketed → Prop
  | name _ => True
  | parens c => c.Apart
  | leading _ e => e.Apart
  | trailing e _ => e.Apart
  | binary o l r => ¬ (o = .equal ∧ l.EndsInBang) ∧ l.Apart ∧ r.Apart

end Bracketed

/-! ## Pairs of parentheses -/

/-- Every parenthesis of a text has its partner there: none closes before it is opened, and in the
end all are closed. A pair of parentheses in a longer text belongs together if the text between them
is such a text. -/
structure Paired (cs : List Char) : Prop where
  count_eq : cs.count '(' = cs.count ')'
  count_le : ∀ ds, ds <+: cs → ds.count ')' ≤ ds.count '('

instance (cs : List Char) : Decidable (Paired cs) :=
  decidable_of_iff (cs.count '(' = cs.count ')' ∧
      ∀ k < cs.length + 1, (cs.take k).count ')' ≤ (cs.take k).count '(') <| by
    constructor
    · intro h
      refine ⟨h.1, fun ds hd => ?_⟩
      rw [List.prefix_iff_eq_take.1 hd]
      exact h.2 _ (Nat.lt_succ_of_le hd.length_le)
    · exact fun h => ⟨h.count_eq, fun k _ => h.count_le _ (List.take_prefix k cs)⟩

/-! ## Trees in writing -/

namespace OpTree

/-- Whether a tree needs parentheses as an operand. -/
def needsParens (outer : Operator) (onRight : Bool) (t : OpTree) : Bool :=
  t.operator?.any (outer.needsParens · onRight)

/-- A tree with the parentheses that it is written with. -/
def bracketed : OpTree → Bracketed
  | name w => .name w
  | leading o e => .leading o (.group (e.needsParens o.operator true) e.bracketed)
  | trailing e o => .trailing (.group (e.needsParens o.operator false) e.bracketed) o
  | binary o l r => .binary o (.group (l.needsParens o.operator false) l.bracketed)
      (.group (r.needsParens o.operator true) r.bracketed)

/-- The text of a tree, inside a type or elsewhere. -/
def text (inType : Bool) (t : OpTree) : String := String.ofList (t.bracketed.chars inType)

end OpTree

end ChapelSource
