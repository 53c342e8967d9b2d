import ChapelSource.Statement

/-!
# Choices and their branches

Statements of names and of choices between branches. A branch is one statement that nothing sets off,
or statements in braces.

* `Choice`, `Branch`: the statements, as trees.
* `Choice.statement`: a choice as a statement.
* `Choice.unstyled`: a choice without what sets off its branches.
* `Choice.isOpen`: the choices that end with an `if` without an `else`.
* `Choice.Attached`: the choices in which no `else` comes right after an open branch.
* `Choice.addElse`: an open choice with an `else` after it.
-/

namespace ChapelSource

/-- The words that are no names in a choice. -/
def choiceWords : List String := ["if", "then", "else"]

/-- A name in a choice. -/
abbrev ChoiceName := PlainName choiceWords

mutual

/-- A name, or a choice on a condition. -/
inductive Choice where
  | name (w : ChoiceName)
  | ifThen (condition : ChoiceName) (branch : Branch)
  | ifElse (condition : ChoiceName) (branch elseBranch : Branch)

/-- A branch of a choice. -/
inductive Branch where
  /-- One statement that nothing sets off. -/
  | bare (c : Choice)
  /-- Statements in braces, after a keyword or not. -/
  | braced (keyword : Bool) (cs : List Choice)

end

mutual

/-- A choice as a statement. -/
def Choice.statement : Choice → Statement
  | .name w => .name w.toWord
  | .ifThen condition branch => .ifThen condition.toWord branch.body
  | .ifElse condition branch elseBranch => .ifElse condition.toWord branch.body elseBranch.body

/-- A branch as the body of a statement. -/
def Branch.body : Branch → Body Statement
  | .bare c => ⟨.implicit, [c.statement]⟩
  | .braced true cs => ⟨.keywordAndBraces, Choice.statements cs⟩
  | .braced false cs => ⟨.explicit, Choice.statements cs⟩

/-- Choices as statements. -/
def Choice.statements : List Choice → List Statement
  | [] => []
  | c :: cs => c.statement :: Choice.statements cs

end

mutual

/-- A choice without what sets off its branches. -/
def Choice.unstyled : Choice → Choice
  | .name w => .name w
  | .ifThen condition branch => .ifThen condition branch.unstyled
  | .ifElse condition branch elseBranch => .ifElse condition branch.unstyled elseBranch.unstyled

/-- A branch without what sets it off. -/
def Branch.unstyled : Branch → Branch
  | .bare c => .braced false [c.unstyled]
  | .braced _ cs => .braced false (Choice.allUnstyled cs)

/-- Choices without what sets off their branches. -/
def Choice.allUnstyled : List Choice → List Choice
  | [] => []
  | c :: cs => c.unstyled :: Choice.allUnstyled cs

end

mutual

/-- The choices and names inside a choice, itself among them. -/
def Choice.subtrees : Choice → List Choice
  | .name w => [.name w]
  | .ifThen condition branch => .ifThen condition branch :: branch.subtrees
  | .ifElse condition branch elseBranch =>
    .ifElse condition branch elseBranch :: (branch.subtrees ++ elseBranch.subtrees)

/-- The choices and names inside a branch. -/
def Branch.subtrees : Branch → List Choice
  | .bare c => c.subtrees
  | .braced _ cs => Choice.allSubtrees cs

/-- The choices and names inside some choices. -/
def Choice.allSubtrees : List Choice → List Choice
  | [] => []
  | c :: cs => c.subtrees ++ Choice.allSubtrees cs

end

/-! ## Open choices -/

mutual

/-- A choice is open when it ends with an `if` without an `else`. -/
def Choice.isOpen : Choice → Bool
  | .name _ => false
  | .ifThen _ _ => true
  | .ifElse _ _ elseBranch => elseBranch.isOpen

/-- A branch is open when no brace ends it and its statement is open. -/
def Branch.isOpen : Branch → Bool
  | .bare c => c.isOpen
  | .braced _ _ => false

end

mutual

/-- No `else` comes right after an open branch. -/
def Choice.Attached : Choice → Prop
  | .name _ => True
  | .ifThen _ branch => branch.Attached
  | .ifElse _ branch elseBranch =>
    branch.isOpen = false ∧ branch.Attached ∧ elseBranch.Attached

/-- The same of a branch. -/
def Branch.Attached : Branch → Prop
  | .bare c => c.Attached
  | .braced _ cs => Choice.AllAttached cs

/-- The same of some choices. -/
def Choice.AllAttached : List Choice → Prop
  | [] => True
  | c :: cs => c.Attached ∧ Choice.AllAttached cs

end

mutual

/-- An open choice with an `else` after it: the last `if` that has none takes it. -/
def Choice.addElse : Choice → Branch → Choice
  | .name w, _ => .name w
  | .ifThen condition branch, added =>
    if branch.isOpen then .ifThen condition (branch.addElse added)
    else .ifElse condition branch added
  | .ifElse condition branch elseBranch, added =>
    .ifElse condition branch (elseBranch.addElse added)

/-- An open branch with an `else` after it. -/
def Branch.addElse : Branch → Branch → Branch
  | .bare c, added => .bare (c.addElse added)
  | .braced keyword cs, _ => .braced keyword cs

end

/-! ## Writing -/

variable (newLine : String) (comments : Bool)

/-- A choice in writing. -/
def Choice.chars (c : Choice) : List Char := c.statement.chars newLine comments

/-- A branch in writing, after its keyword where it has one. -/
def Branch.chars (keyword : String) (b : Branch) : List Char :=
  Statement.bodyChars newLine comments keyword b.body

/-- Choices in writing. -/
def Choice.lineChars (cs : List Choice) : List Char :=
  Statement.lineChars newLine comments (Choice.statements cs)

/-- The choices after the first one in writing. -/
def Choice.moreChars (cs : List Choice) : List Char :=
  Statement.moreChars newLine comments (Choice.statements cs)

/-- What stands between statements goes on with no word, no `else` and no closing brace. -/
def SeparatesLines : Prop :=
  ∃ c cs, newLine.toList = c :: cs ∧ isWordChar c = false ∧ c ≠ ' ' ∧ c ≠ '\x7d'

end ChapelSource
