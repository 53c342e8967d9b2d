import ChapelSource.Statement

/-!
# What stands on the line of a comment

A line comment goes on to the next line break, so what is written right after it is not read.

* `stripComments`, `visible`: a text without its line comments, and without its whitespace.
* `Statement.endsInComment`: the statements that end with a comment.
* `Statement.covered`: how many closing braces and `else`s of a statement come right after a comment.
-/

namespace ChapelSource

mutual

/-- A text without its line comments. -/
def stripComments : List Char → List Char
  | [] => []
  | '/' :: '/' :: cs => skipLine cs
  | c :: cs => c :: stripComments cs

/-- A text without the rest of its first line, which is a comment, and without its line comments. -/
def skipLine : List Char → List Char
  | [] => []
  | '\n' :: cs => '\n' :: stripComments cs
  | _ :: cs => skipLine cs

end

/-- The characters of a text that are no whitespace. -/
def visible (cs : List Char) : List Char := cs.filter fun c => !c.isWhitespace

namespace Statement

mutual

/-- Whether a statement ends with a comment. -/
def endsInComment : Statement → Bool
  | name _ => false
  | comment _ => true
  | block body | whileDo _ body | ifThen _ body | ifElse _ _ body => bodyEndsInComment body

/-- Whether a body ends with a comment, no brace after it. -/
def bodyEndsInComment : Body Statement → Bool
  | ⟨style, ss⟩ => style == .implicit && linesEndInComment ss

/-- Whether the last of some statements ends with a comment. -/
def linesEndInComment : List Statement → Bool
  | [] => false
  | [s] => s.endsInComment
  | _ :: s :: ss => linesEndInComment (s :: ss)

end

mutual

/-- How many closing braces and `else`s of a statement come right after a comment. -/
def covered : Statement → Nat
  | name _ | comment _ => 0
  | block body | whileDo _ body | ifThen _ body => bodyCovered body
  | ifElse _ body elseBody =>
    bodyCovered body + bodyCovered elseBody + (bodyEndsInComment body).toNat

/-- The same of a body: its closing brace is one. -/
def bodyCovered : Body Statement → Nat
  | ⟨style, ss⟩ => linesCovered ss + (style != .implicit && linesEndInComment ss).toNat

/-- The same of some statements together. -/
def linesCovered : List Statement → Nat
  | [] => 0
  | s :: ss => s.covered + linesCovered ss

end

end Statement

end ChapelSource
