import Mathlib.Algebra.GroupWithZero.Nat
import ChapelSource.Layout.Basic
import ChapelSource.Reached

/-!
# Line breaks

What separates the statements of a list is the same everywhere in a text, and the tree says how often
it is written.

* `Form.statementLists`: the statement, task and member lists of a construct.
* `Form.lineBreaks`, `Visit.lineBreaks`: the line breaks that a construct writes itself.
* `Node.lineBreaks`: those of all that is reached from a node.
-/

namespace ChapelSource

/-- The lists of a construct whose nodes stand on lines of their own. -/
def Form.statementLists : Form Node → List (List Node)
  | .beginTask _ body => [body.stmts]
  | .block body => [body.stmts]
  | .indexedLoop _ loop => [loop.body.stmts]
  | .catchClause handler => [handler.stmts]
  | .cobegin _ tasks => [tasks]
  | .conditional _ thenBody elseBody => thenBody.stmts :: (elseBody.map Body.stmts).toList
  | .deferred body => [body.stmts]
  | .doWhile body _ => [body.stmts]
  | .forLoop _ _ _ body => [body.stmts]
  | .guardedBlock _ _ body => [body.stmts]
  | .manage _ body => [body.stmts]
  | .onLocale _ body => [body.stmts]
  | .sync body => [body.stmts]
  | .tryStmt attempt => [attempt.stmts]
  | .whenArm arm => [arm.body.stmts]
  | .whileLoop _ body => [body.stmts]
  | .classDecl _ _ _ members => [members]
  | .aggregateDecl _ _ _ members => [members]
  | .function decl => decl.body.toList
  | .moduleDecl _ _ _ stmts => [stmts]
  | _ => []

/-- The line breaks that a construct writes itself: between the written nodes of each of its lists,
between the arms of a choice, and before foreign code. -/
def Form.lineBreaks (comments : Bool) (f : Form Node) : Nat :=
  (f.statementLists.map fun nodes => (Layout.kept comments nodes).length - 1).sum +
    match f with
    | .select _ arms => arms.length - 1
    | .foreignBlock _ => 1
    | _ => 0

/-- A component writes no line break of its own. -/
def Visit.lineBreaks (comments : Bool) (v : Visit) : Nat :=
  match v.role with
  | .component => 0
  | .whole | .typeExpr => v.node.form.lineBreaks comments

/-- The line breaks that all written constructs of a tree write. -/
def Node.lineBreaks (comments : Bool) (n : Node) : Nat :=
  (n.reached.map (Visit.lineBreaks comments)).sum

end ChapelSource
