import ChapelSource.Layout.Construct
import ChapelSource.Node.Children

/-!
# Visits

Printing goes through a tree in the order of its text. This file says which children of a node have
text, in which role, and what the grammar does not allow in the node itself.

* `Visit`: a node as it is reached, in its role.
* `Form.visits`, `componentVisits`: the children of a construct in the order of its text. Some have
  no text: they are not reached.
* `Form.leadingVisits`: the children whose text stands before the place where the construct itself
  is checked.
* `Form.fault?`, `componentFault?`: what is wrong with a construct, its children aside.
* `Visit.before`, `Visit.fault?`, `Visit.after`: a node that is reached.
-/

namespace ChapelSource

/-- A node as it is reached. -/
structure Visit where
  role : Role
  node : Node

namespace Visit

/-- Nodes that are reached as constructs of their own. -/
def wholes (nodes : List Node) : List Visit := nodes.map (⟨.whole, ·⟩)

/-- Nodes that are reached as types. -/
def types (nodes : List Node) : List Visit := nodes.map (⟨.typeExpr, ·⟩)

/-- Nodes that are reached as components. -/
def components (nodes : List Node) : List Visit := nodes.map (⟨.component, ·⟩)

end Visit

open Visit

/-! ## The parts of a construct -/

/-- A name without a linkage is not reached. -/
def LinkageClause.visits (c : LinkageClause Node) : List Visit :=
  if c.linkage.isSome then wholes c.name.toList else []

/-- A name with its type and initializer. -/
def Binding.visits (b : Binding Node) : List Visit :=
  types b.typeExpr.toList ++ wholes b.initExpr.toList

/-- The linkage of a configuration variable is not reached. -/
def VarDecl.linkageVisits (v : VarDecl Node) : List Visit :=
  if v.isConfig then [] else v.linkage.visits

/-- The components of a tuple of names, its type and its initializer. -/
def TupleDecl.visits (t : TupleDecl Node) : List Visit :=
  components t.decls ++ types t.typeExpr.toList ++ wholes t.initExpr.toList

/-- An optional `with` clause. -/
def withVisits (withClause : Option (Located (WithClause Node))) : List Visit :=
  wholes (withClause.toList.map (Located.node .withClause))

/-- The actuals of a call that are reached: after a reserved callee only the first. -/
def reachedActuals (callee : Node) (actuals : List (Actual Node)) : List Node :=
  (if callee.isReserved then actuals.take 1 else actuals).map Actual.value

/-- Of the error of a handler only the type is reached. -/
def CatchClause.visits (c : CatchClause Node) : List Visit :=
  types (c.error.bind fun e => e.part.binding.typeExpr).toList ++ wholes c.stmts

/-- A guarded expression has no handlers. -/
def TryStmt.visits (t : TryStmt Node) : List Visit :=
  wholes t.stmts ++
    if t.isExpression then [] else wholes (t.handlers.map (Located.node .catchClause))

namespace FunctionDecl

/-- The type of the receiver, which a primary method does not name. -/
def receiverType? (f : FunctionDecl Node) : Option Node :=
  if f.isPrimaryMethod then none else f.receiver.bind fun r => r.part.binding.typeExpr

/-- Of the receiver only the type is reached: a plain name, or a type in parentheses. -/
def receiverVisits (f : FunctionDecl Node) : List Visit :=
  f.receiverType?.toList.map fun t => ⟨if t.identifier?.isSome then .whole else .typeExpr, t⟩

/-- All that is reached after the linkage of a function. -/
def visits (f : FunctionDecl Node) : List Visit :=
  f.receiverVisits ++ wholes f.formals ++ types f.returnType.toList ++
    wholes f.whereClause.toList ++ wholes (f.body.getD [])

end FunctionDecl

/-! ## Children -/

/-- The children of a construct in the order of its text, save those that lead. -/
def Form.visits : Form Node → List Visit
  | .array exprs => wholes exprs
  | .rename symbol newName => wholes [symbol, newName]
  | .boolLiteral _ => []
  | .quotedLiteral _ _ => []
  | .domain exprs => wholes exprs
  | .dot receiver _ => wholes [receiver]
  | .erroneous => []
  | .fnCall callee actuals _ => wholes (callee :: reachedActuals callee actuals)
  | .identifier _ => []
  | .numericLiteral _ _ => []
  | .letIn decls body => components (decls.map (Located.node .varDecl)) ++ wholes [body]
  | .newObject _ typeExpr => wholes [typeExpr]
  | .opCall _ actuals => wholes actuals
  | .primCall _ actuals => wholes actuals
  | .range _ lower upper => wholes (lower.toList ++ upper.toList)
  | .reduction _ op iterand => wholes [op, iterand]
  | .tuple exprs => wholes exprs
  | .typeQuery _ => []
  | .zip actuals => wholes actuals
  | .beginTask clause body => withVisits clause ++ wholes body.stmts
  | .block body => wholes body.stmts
  | .indexedLoop _ loop =>
    wholes (loop.index.toList ++ [loop.iterand]) ++ withVisits loop.withClause ++
      wholes loop.body.stmts
  | .jump _ _ => []
  | .catchClause handler => handler.visits
  | .cobegin clause tasks => withVisits clause ++ wholes tasks
  | .comment _ => []
  | .conditional condition thenBody elseBody =>
    wholes (condition :: thenBody.stmts ++ elseBody.elim [] Body.stmts)
  | .deferred body => wholes body.stmts
  | .delete exprs => wholes exprs
  | .doWhile body condition => wholes (body.stmts ++ [condition])
  | .emptyStmt => []
  | .foreignBlock _ => []
  | .forLoop index iterand _ body => wholes (index.toList ++ iterand :: body.stmts)
  | .moduleAccess _ _ clauses => wholes (clauses.map (Located.node .visibilityClause))
  | .includeModule _ _ _ => []
  | .label _ loop => wholes [loop]
  | .guardedBlock _ condition body => wholes (condition.toList ++ body.stmts)
  | .manage managers body => wholes (managers ++ body.stmts)
  | .onLocale destination body => wholes (destination :: body.stmts)
  | .require exprs => wholes exprs
  | .returnStmt value => wholes value.toList
  | .select scrutinee arms => wholes (scrutinee :: arms.map (Located.node .whenArm))
  | .sync body => wholes body.stmts
  | .throw error => wholes [error]
  | .tryStmt attempt => attempt.visits
  | .whenArm arm => wholes (arm.cases ++ arm.body.stmts)
  | .whileLoop condition body => wholes (condition :: body.stmts)
  | .yield value => wholes [value]
  | .classDecl linkage _ parent members =>
    linkage.visits ++ types parent.toList ++ wholes members
  | .aggregateDecl _ linkage _ members => linkage.visits ++ wholes members
  | .enumDecl _ elements => wholes (elements.map (Located.node .enumElement))
  | .enumElement element => wholes element.initExpr.toList
  | .formal decl => decl.binding.visits
  | .forwarding expr => wholes [expr]
  | .function decl => decl.visits
  | .moduleDecl _ _ _ stmts => wholes stmts
  | .multiDecl decls => components decls
  | .taskVar decl => decl.binding.visits
  | .tupleDecl decl => decl.visits
  | .typeDecl linkage _ => linkage.visits
  | .varArgFormal decl => decl.binding.visits ++ wholes decl.count.toList
  | .varDecl decl => decl.linkageVisits ++ decl.binding.visits
  | .visibilityClause clause => wholes clause.limitations
  | .withClause clause => wholes clause.exprs

/-- The children that are reached before the construct itself is checked: the symbol of a visibility
clause, and the linkage name of a function or of the first of several variables. -/
def Form.leadingVisits : Form Node → List Visit
  | .visibilityClause clause => wholes [clause.symbol]
  | .function decl => decl.linkage.visits
  | .multiDecl (.mk _ (.varDecl first) :: _) => first.linkageVisits
  | _ => []

/-- The children of a construct that is written as a component. -/
def componentVisits : Form Node → List Visit
  | .tupleDecl decl => decl.visits
  | .varDecl decl => decl.binding.visits
  | .formal decl => decl.binding.visits
  | .varArgFormal decl => decl.binding.visits
  | .taskVar decl => decl.binding.visits
  | _ => []

/-! ## Malformed constructs -/

/-- One name after a dot must be an identifier, and several need a keyword. -/
def VisibilityClause.fault? (c : VisibilityClause Node) : Option PrintError :=
  match c.limitationKind, c.limitations with
  | .bare, [] => none
  | .bare, [limitation] =>
    if limitation.identifier?.isSome then none
    else some (.unexpectedNode .identifier limitation.kind)
  | .bare, _ :: _ :: _ => some (.missingKeyword .limitation)
  | _, _ => none

/-- A method that is declared outside its type must name it. -/
def FunctionDecl.fault? (f : FunctionDecl Node) : Option PrintError :=
  if f.isMethod ∧ ¬ f.isPrimaryMethod ∧ f.receiverType? = none then
    some (.unexpectedNode .receiverType .formal)
  else none

/-- An intent that must be written. -/
def intentFault? (intent : Option Intent) : Option PrintError :=
  if intent.isSome then none else some (.missingKeyword .intent)

/-- The first of several declarations must be a variable or a tuple, with an intent for all. -/
def multiDeclFault? : List Node → Option PrintError
  | [] => some (.unexpectedNode .someDeclaration .multiDecl)
  | first :: _ =>
    match first.form with
    | .varDecl v => intentFault? v.kind
    | .tupleDecl t => intentFault? t.intent
    | _ => some (.unexpectedNode .variableOrTuple first.kind)

/-- What is wrong with a construct of its own. -/
def Form.fault? : Form Node → Option PrintError
  | .opCall _ actuals =>
    if actuals.length = 1 ∨ actuals.length = 2 then none
    else some (.unexpectedNode .operatorCall .opCall)
  | .fnCall callee actuals _ =>
    if callee.isReserved ∧ actuals.isEmpty then some (.unexpectedNode .typeOperand .fnCall) else none
  | .label _ loop =>
    if loop.kind.isLoop then none else some (.unexpectedNode .loop loop.kind)
  | .taskVar decl => intentFault? decl.intent
  | .multiDecl decls => multiDeclFault? decls
  | .visibilityClause clause => clause.fault?
  | .function decl => decl.fault?
  | _ => none

/-- What is wrong with a construct that is written as a component: it declares no name. -/
def componentFault? (f : Form Node) : Option PrintError :=
  match f with
  | .varDecl _ | .formal _ | .varArgFormal _ | .taskVar _ | .tupleDecl _ => none
  | _ => some (.unexpectedNode .variableLike f.kind)

namespace Visit

/-- What is wrong with a node where it is reached, its children aside. -/
def fault? (v : Visit) : Option PrintError :=
  match v.role with
  | .component => componentFault? v.node.form
  | .whole | .typeExpr => v.node.form.fault?

/-- The children that are reached before the node is checked. -/
def before (v : Visit) : List Visit :=
  match v.role with
  | .component => []
  | .whole | .typeExpr => v.node.form.leadingVisits

/-- The children that are reached after the node is checked. -/
def after (v : Visit) : List Visit :=
  match v.role with
  | .component => componentVisits v.node.form
  | .whole | .typeExpr => v.node.form.visits

end Visit

end ChapelSource
