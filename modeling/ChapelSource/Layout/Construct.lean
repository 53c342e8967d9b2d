import ChapelSource.Layout.Expression
import ChapelSource.Layout.Statement

/-!
# The layout of any construct

* `Form.layout`: the layout of a construct as one of its own.
* `Node.layout`: the layout of a node in a role.
-/

namespace ChapelSource

open Layout

/-- The layout of a construct, with or without its comments. -/
def Form.layout (comments : Bool) : Form Node → Layout
  | .array exprs => "[" ++ commaList comments exprs ++ "]"
  | .rename symbol newName => whole symbol ++ " as " ++ whole newName
  | .boolLiteral value => boolText value
  | .quotedLiteral kind bytes => quotedLayout kind bytes
  | .domain exprs => domainLayout comments exprs
  | .dot receiver field => tight receiver ++ "." ++ field
  | .erroneous => "<ERROR: Erroneous Expression>"
  | .fnCall callee actuals inBrackets => fnCallLayout callee actuals inBrackets
  | .identifier name => name
  | .numericLiteral _ text => text
  | .letIn decls body =>
    "let " ++ join ", " (decls.map fun d => d.part.binding.layout) ++ " in " ++ whole body
  | .newObject management typeExpr => newLayout management typeExpr
  | .opCall op actuals => opCallLayout op actuals
  | .primCall prim actuals => primCallLayout prim actuals
  | .range bound lower upper => rangeLayout bound lower upper
  | .reduction kind op iterand => reductionLayout kind op iterand
  | .tuple exprs => tupleLayout comments exprs
  | .typeQuery name => "?" ++ name
  | .zip actuals => "zip" ++ parenthesized (commaList comments actuals)
  | .beginTask clause body => beginLayout comments clause body
  | .block body => body.plainLayout comments
  | .indexedLoop kind loop => loop.layout comments kind
  | .jump kind target => jumpLayout kind target
  | .catchClause handler => handler.layout comments
  | .cobegin clause tasks => cobeginLayout comments clause tasks
  | .comment text => ifTrue comments text
  | .conditional condition thenBody elseBody =>
    conditionalLayout comments condition thenBody elseBody
  | .deferred body => "defer " ++ body.plainLayout comments
  | .delete exprs => "delete " ++ commaList comments exprs
  | .doWhile body condition => doWhileLayout comments body condition
  | .emptyStmt => ";"
  | .foreignBlock code => foreignLayout code
  | .forLoop index iterand isParam body => forLayout comments index iterand isParam body
  | .moduleAccess kind visibility clauses => accessLayout comments kind visibility clauses
  | .includeModule visibility isPrototype name => includeLayout visibility isPrototype name
  | .label name loop => labelLayout name loop
  | .guardedBlock kind condition body => guardedLayout comments kind condition body
  | .manage managers body => manageLayout comments managers body
  | .onLocale destination body => onLayout comments destination body
  | .require exprs => "require " ++ commaList comments exprs
  | .returnStmt value => "return" ++ ifSome value (" " ++ whole ·)
  | .select scrutinee arms => selectLayout comments scrutinee arms
  | .sync body => "sync " ++ body.plainLayout comments
  | .throw error => "throw " ++ whole error
  | .tryStmt attempt => attempt.layout comments
  | .whenArm arm => arm.layout comments
  | .whileLoop condition body => whileLayout comments condition body
  | .yield value => "yield " ++ whole value
  | .classDecl linkage name parent members => classLayout comments linkage name parent members
  | .aggregateDecl kind linkage name members => aggregateLayout comments kind linkage name members
  | .enumDecl name elements => enumLayout name elements
  | .enumElement element => element.layout
  | .formal decl => decl.layout
  | .forwarding expr => "forwarding " ++ whole expr
  | .function decl => decl.layout comments
  | .moduleDecl visibility kind name stmts => moduleLayout comments visibility kind name stmts
  | .multiDecl decls => multiDeclLayout decls
  | .taskVar decl => decl.layout
  | .tupleDecl decl => decl.layout
  | .typeDecl linkage name => linkage.layout ++ "type " ++ name
  | .varArgFormal decl => decl.layout
  | .varDecl decl => decl.layout
  | .visibilityClause clause => clause.layout comments
  | .withClause clause => clause.layout comments

/-- The layout of a node in a role. A type is laid out like any construct; what differs is how its
operators are written. -/
def Node.layout (comments : Bool) (role : Role) (n : Node) : Layout :=
  match role with
  | .component => componentLayout n
  | .whole | .typeExpr => n.form.layout comments

end ChapelSource
