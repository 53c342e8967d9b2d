import ChapelSource.Node.Form

/-!
# Syntax trees

* `Node`: a construct whose children are nodes, with its id and span.
* `Node.kind`, `Node.id`, `Node.span`: what every node has.
* `Node.identifier?`, `Node.typeQuery?`, `Node.opCall?`, `Node.function?`, `Node.whenArm?`: what a
  node holds if it is of that kind.
-/

namespace ChapelSource

/-- A syntax tree. -/
inductive Node where
  | mk (info : NodeInfo) (form : Form Node)

namespace Node

/-- The id and the span of a node. -/
def info : Node → NodeInfo
  | mk info _ => info

/-- The construct at the root of a tree. -/
def form : Node → Form Node
  | mk _ form => form

/-- The kind of a node. -/
def kind (n : Node) : Kind := n.form.kind

/-- The number of a node. -/
def id (n : Node) : NodeId := n.info.id

/-- The place of a node in its source. -/
def span (n : Node) : Span := n.info.span

@[simp] theorem info_mk (info : NodeInfo) (form : Form Node) : (mk info form).info = info := rfl

@[simp] theorem form_mk (info : NodeInfo) (form : Form Node) : (mk info form).form = form := rfl

/-- The name of an identifier. -/
def identifier? (n : Node) : Option String :=
  match n.form with
  | .identifier name => some name
  | _ => none

/-- The name of a type query. -/
def typeQuery? (n : Node) : Option String :=
  match n.form with
  | .typeQuery name => some name
  | _ => none

/-- The name and the operands of an operator call. -/
def opCall? (n : Node) : Option (String × List Node) :=
  match n.form with
  | .opCall op actuals => some (op, actuals)
  | _ => none

/-- An operator call is unary when it has one operand. -/
def isUnaryCall (call : String × List Node) : Bool := call.2.length == 1

/-- An operator call is binary when it has two operands. -/
def isBinaryCall (call : String × List Node) : Bool := call.2.length == 2

/-- The declaration of a function. -/
def function? (n : Node) : Option (FunctionDecl Node) :=
  match n.form with
  | .function decl => some decl
  | _ => none

/-- The arm that a node is. -/
def whenArm? (n : Node) : Option (WhenArm Node) :=
  match n.form with
  | .whenArm arm => some arm
  | _ => none

/-- Whether a node is a comment. -/
def isComment (n : Node) : Bool :=
  match n.form with
  | .comment _ => true
  | _ => false

theorem isComment_iff {n : Node} : n.isComment ↔ ∃ text, n.form = .comment text := by
  unfold isComment
  cases n.form <;> simp

/-- The expressions that, when read, extend as far to the right as they can. They have no rank among
the operators and are parenthesized wherever they are operands. -/
def bindsLoosely (n : Node) : Bool :=
  match n.form with
  | .conditional _ _ _ | .letIn _ _ | .reduction _ _ _ | .range _ _ _ => true
  | _ => false

end Node

end ChapelSource
