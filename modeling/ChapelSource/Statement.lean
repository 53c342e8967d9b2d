import ChapelSource.Grouping.Symbol
import ChapelSource.Node.Basic

/-!
# Statements in writing

Statements of names, line comments, blocks, loops and choices, whose conditions are names.

* `LineComment`: a comment that goes on to the end of its line.
* `Statement`: the statements, as trees.
* `Node.IsStatement`, `Statement.toNode`: the nodes that are such a tree, and one of them.
* `Statement.chars`: a statement in writing, with or without its comments.
-/

namespace ChapelSource

/-- A comment that goes on to the end of its line. -/
structure LineComment where
  /-- What follows the two slashes. -/
  rest : List Char
  rest_inline : '\n' ∉ rest
  deriving DecidableEq

namespace LineComment

/-- A comment in writing. -/
def chars (c : LineComment) : List Char := '/' :: '/' :: c.rest

/-- A comment as a string. -/
def text (c : LineComment) : String := String.ofList c.chars

end LineComment

/-- A statement of names, comments, blocks, loops and choices. -/
inductive Statement where
  | name (w : Word)
  | comment (c : LineComment)
  | block (body : Body Statement)
  | whileDo (condition : Word) (body : Body Statement)
  | ifThen (condition : Word) (body : Body Statement)
  | ifElse (condition : Word) (thenBody elseBody : Body Statement)

/-! ## Nodes -/

mutual

/-- A node is a statement, whatever its ids and spans are. -/
inductive Node.IsStatement : Node → Statement → Prop where
  | name (info : NodeInfo) (w : Word) : IsStatement (.mk info (.identifier w.text)) (.name w)
  | comment (info : NodeInfo) (c : LineComment) :
      IsStatement (.mk info (.comment c.text)) (.comment c)
  | block (info : NodeInfo) (style : BlockStyle) {ns : List Node} {ss : List Statement} :
      AreStatements ns ss → IsStatement (.mk info (.block ⟨style, ns⟩)) (.block ⟨style, ss⟩)
  | whileDo (info nameInfo : NodeInfo) (w : Word) (style : BlockStyle) {ns : List Node}
      {ss : List Statement} : AreStatements ns ss →
      IsStatement (.mk info (.whileLoop (.mk nameInfo (.identifier w.text)) ⟨style, ns⟩))
        (.whileDo w ⟨style, ss⟩)
  | ifThen (info nameInfo : NodeInfo) (w : Word) (style : BlockStyle) {ns : List Node}
      {ss : List Statement} : AreStatements ns ss →
      IsStatement (.mk info (.conditional (.mk nameInfo (.identifier w.text)) ⟨style, ns⟩ none))
        (.ifThen w ⟨style, ss⟩)
  | ifElse (info nameInfo : NodeInfo) (w : Word) (style elseStyle : BlockStyle) {ns ms : List Node}
      {ss ts : List Statement} : AreStatements ns ss → AreStatements ms ts →
      IsStatement
        (.mk info (.conditional (.mk nameInfo (.identifier w.text)) ⟨style, ns⟩
          (some ⟨elseStyle, ms⟩)))
        (.ifElse w ⟨style, ss⟩ ⟨elseStyle, ts⟩)

/-- Nodes are statements. -/
inductive Node.AreStatements : List Node → List Statement → Prop where
  | nil : AreStatements [] []
  | cons {n : Node} {s : Statement} {ns : List Node} {ss : List Statement} :
      IsStatement n s → AreStatements ns ss → AreStatements (n :: ns) (s :: ss)

end

namespace Statement

mutual

/-- A node that is a statement, with the given id and span throughout. -/
def toNode (info : NodeInfo) : Statement → Node
  | name w => .mk info (.identifier w.text)
  | comment c => .mk info (.comment c.text)
  | block body => .mk info (.block (toBody info body))
  | whileDo w body =>
    .mk info (.whileLoop (.mk info (.identifier w.text)) (toBody info body))
  | ifThen w body =>
    .mk info (.conditional (.mk info (.identifier w.text)) (toBody info body) none)
  | ifElse w body elseBody =>
    .mk info (.conditional (.mk info (.identifier w.text)) (toBody info body)
      (some (toBody info elseBody)))

/-- A body whose nodes are statements. -/
def toBody (info : NodeInfo) : Body Statement → Body Node
  | ⟨style, ss⟩ => ⟨style, toNodes info ss⟩

/-- Nodes that are statements. -/
def toNodes (info : NodeInfo) : List Statement → List Node
  | [] => []
  | s :: ss => s.toNode info :: toNodes info ss

end

mutual

theorem isStatement_toNode (info : NodeInfo) : ∀ s : Statement, (s.toNode info).IsStatement s
  | name w => .name info w
  | comment c => .comment info c
  | block ⟨style, ss⟩ => .block info style (areStatements_toNodes info ss)
  | whileDo w ⟨style, ss⟩ => .whileDo info info w style (areStatements_toNodes info ss)
  | ifThen w ⟨style, ss⟩ => .ifThen info info w style (areStatements_toNodes info ss)
  | ifElse w ⟨style, ss⟩ ⟨elseStyle, ts⟩ =>
    .ifElse info info w style elseStyle (areStatements_toNodes info ss)
      (areStatements_toNodes info ts)

theorem areStatements_toNodes (info : NodeInfo) : ∀ ss : List Statement,
    Node.AreStatements (toNodes info ss) ss
  | [] => .nil
  | s :: ss => .cons (isStatement_toNode info s) (areStatements_toNodes info ss)

end

/-! ## Writing -/

/-- Whether a statement is a comment. -/
def isComment : Statement → Bool
  | comment _ => true
  | _ => false

/-- Whether a statement is written. -/
def isWritten (comments : Bool) (s : Statement) : Bool := comments || !s.isComment

end Statement

/-- A statement list in writing, set off in a style. -/
def BlockStyle.setOff (keyword : String) (inner : List Char) : BlockStyle → List Char
  | explicit => '\x7b' :: (inner ++ ['\x7d'])
  | implicit => keyword.toList ++ inner
  | keywordAndBraces => keyword.toList ++ '\x7b' :: (inner ++ ['\x7d'])

/-- A keyword and a condition in writing, before what they apply to. -/
def Word.headed (keyword : String) (condition : Word) (rest : List Char) : List Char :=
  keyword.toList ++ (condition.chars ++ ' ' :: rest)

namespace Statement

variable (newLine : String) (comments : Bool)

mutual

/-- A statement in writing. -/
def chars : Statement → List Char
  | name w => w.chars
  | comment c => if comments then c.chars else []
  | block body => bodyChars "" body
  | whileDo w body => w.headed "while " (bodyChars "do " body)
  | ifThen w body => w.headed "if " (bodyChars "then " body)
  | ifElse w body elseBody =>
    w.headed "if " (bodyChars "then " body ++ (" else ".toList ++ bodyChars "" elseBody))

/-- A body in writing, after its keyword where it has one. -/
def bodyChars (keyword : String) : Body Statement → List Char
  | ⟨style, ss⟩ => style.setOff keyword (lineChars ss)

/-- A statement list in writing. -/
def lineChars : List Statement → List Char
  | [] => []
  | s :: ss => if s.isWritten comments then s.chars ++ moreChars ss else lineChars ss

/-- The statements after the first one in writing. -/
def moreChars : List Statement → List Char
  | [] => []
  | s :: ss =>
    if s.isWritten comments then newLine.toList ++ (s.chars ++ moreChars ss) else moreChars ss

end

variable {newLine comments} {s : Statement} (h : s.isWritten comments = true) (ss : List Statement)

include h

theorem lineChars_cons : lineChars newLine comments (s :: ss) =
    s.chars newLine comments ++ moreChars newLine comments ss := by
  rw [lineChars, if_pos h]

theorem moreChars_cons : moreChars newLine comments (s :: ss) =
    newLine.toList ++ lineChars newLine comments (s :: ss) := by
  rw [moreChars, if_pos h, lineChars_cons h]

end Statement

end ChapelSource
