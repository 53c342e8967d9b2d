import ChapelSource.Node.Basic
import ChapelSource.PrintError

/-!
# Layouts

The layout of a construct is its text with the children left out: a list of items, each a piece of
text, the symbol of a binary operator, or a child in a role. A construct that the grammar does not
allow has a fault in its layout at the place where that shows, so the faults of a tree stand in the
order of its text.

* `Atom`, `Role`, `Item`, `Layout`: the parts of a layout.
* `Layout.whole`, `Layout.asType`, `Layout.component`: a child in each of its roles.
* `Layout.join`, `Layout.ifSome`, `Layout.ifTrue`: how layouts are put together.
* `Layout.kept`, `Layout.listing`, `Layout.commaList`, `Layout.lines`, `Layout.braced`: lists of
  children, without the comments that are not to be written.
* `Body.layout`: a statement list in its style.
-/

namespace ChapelSource

/-- A piece of text that does not depend on where it stands. -/
inductive Atom where
  /-- Plain text. -/
  | text (s : String)
  /-- A quoted literal: a marker and what stands between the quotes. -/
  | literal (marker body : String)
  /-- The separator between statements. -/
  | lineBreak
  /-- A place where the grammar is broken. -/
  | fault (error : PrintError)

/-- How a child is written. -/
inductive Role where
  /-- As a construct of its own. -/
  | whole
  /-- As a type: binary operators inside lose their spaces. -/
  | typeExpr
  /-- As a component of a declaration of several names: without modifiers of its own. -/
  | component
  deriving DecidableEq

/-- A part of a layout. -/
inductive Item where
  | atom (a : Atom)
  /-- The symbol of a binary operator. -/
  | operator (symbol : String)
  | child (role : Role) (node : Node)

/-- The text of a construct with its children left out. -/
abbrev Layout := List Item

instance : Coe String Layout := ⟨fun s => [.atom (.text s)]⟩

namespace Layout

/-! ## Small layouts -/

/-- A child as a construct of its own. -/
def whole (n : Node) : Layout := [.child .whole n]

/-- A child as a type. -/
def asType (n : Node) : Layout := [.child .typeExpr n]

/-- A child as a component. -/
def component (n : Node) : Layout := [.child .component n]

/-- The separator between statements. -/
def lineBreak : Layout := [.atom .lineBreak]

/-- A place where the grammar is broken. -/
def fault (e : PrintError) : Layout := [.atom (.fault e)]

/-- A quoted literal. -/
def literal (marker body : String) : Layout := [.atom (.literal marker body)]

/-- The symbol of a binary operator. -/
def operator (symbol : String) : Layout := [.operator symbol]

/-- A keyword, or a fault in its place. -/
def wordOrFault : Except PrintError String → Layout
  | .ok s => s
  | .error e => fault e

/-! ## Composition -/

/-- Layouts with a separator between each two. -/
def join (separator : Layout) (parts : List Layout) : Layout := separator.intercalate parts

theorem join_cons_cons (separator p q : Layout) (parts : List Layout) :
    join separator (p :: q :: parts) = p ++ separator ++ join separator (q :: parts) := by
  simp [join, List.intercalate, List.intersperse]

theorem join_singleton (separator p : Layout) : join separator [p] = p := by
  simp [join, List.intercalate, List.intersperse]

/-- The separator stands before every part but the first. -/
theorem join_cons (separator p : Layout) (parts : List Layout) :
    join separator (p :: parts) = p ++ parts.flatMap (separator ++ ·) := by
  induction parts generalizing p with
  | nil => rw [join_singleton, List.flatMap_nil, List.append_nil]
  | cons q parts ih => rw [join_cons_cons, ih, List.flatMap_cons, List.append_assoc,
      List.append_assoc]

/-- The layout of what is there, nothing for what is not. -/
def ifSome {β : Type} (o : Option β) (f : β → Layout) : Layout := o.elim [] f

/-- A layout on a condition. -/
def ifTrue (b : Bool) (l : Layout) : Layout := if b then l else []

/-- A layout in parentheses. -/
def parenthesized (l : Layout) : Layout := "(" ++ l ++ ")"

/-- A child in parentheses if it needs them. -/
def grouped (parens : Bool) (n : Node) : Layout :=
  if parens then parenthesized (whole n) else whole n

/-! ## Lists of children -/

/-- The nodes that are written: all if comments are, else those that are no comments. -/
def kept (comments : Bool) (nodes : List Node) : List Node :=
  nodes.filter fun n => comments || !n.isComment

theorem kept_true (nodes : List Node) : kept true nodes = nodes := by
  unfold kept
  exact List.filter_eq_self.2 fun _ _ => rfl

/-- The written nodes with a separator between each two. -/
def listing (comments : Bool) (separator : Layout) (nodes : List Node) : Layout :=
  join separator ((kept comments nodes).map whole)

/-- The written nodes with commas between them. -/
def commaList (comments : Bool) (nodes : List Node) : Layout := listing comments ", " nodes

/-- The written nodes as a statement list. -/
def lines (comments : Bool) (nodes : List Node) : Layout := listing comments lineBreak nodes

/-- A statement list in braces. -/
def braced (comments : Bool) (nodes : List Node) : Layout :=
  "\x7b" ++ lines comments nodes ++ "\x7d"

end Layout

/-! ## Statement lists in their styles -/

/-- A statement list in its style. The keyword is written unless braces alone set the list off, and
the braces unless the keyword alone does. -/
def Body.layout (comments : Bool) (keyword : String) (b : Body Node) : Layout :=
  match b.style with
  | .explicit => Layout.braced comments b.stmts
  | .implicit => keyword ++ Layout.lines comments b.stmts
  | .keywordAndBraces => keyword ++ Layout.braced comments b.stmts

/-- A statement list in a style that has no keyword. -/
def Body.plainLayout (comments : Bool) (b : Body Node) : Layout := b.layout comments ""

end ChapelSource
