import ChapelSource.Uncomment

/-!
# The shape of a construct

Some constructs are written by what their lists hold: a tuple of one element has a comma after it, an
arm without cases is `otherwise`. Such a choice is made on the whole list, the comments in it
included, even where the comments are not written.

* `NoComments`: a list of nodes without a comment.
* `Form.singles`: the children of a construct that stand outside all lists.
* `Node.Holds`: what is written of a tree whose comments are not.
* `Node.CommentsInLists`: a tree whose comments are all in lists.
* `Form.KeepsOperands`: no comment stands as an operand.
* `Form.ShowsOperands`: no comment stands as an operand that need not show.
* `Form.KeepsShape`: what a construct is written as does not change with the comments in its lists.
-/

namespace ChapelSource

/-- A list of nodes without a comment. -/
def NoComments (nodes : List Node) : Prop := ∀ n ∈ nodes, n.isComment = false

/-! ## Children outside all lists -/

def Binding.singles (b : Binding Node) : List Node := b.typeExpr.toList ++ b.initExpr.toList

def VarDecl.singles (v : VarDecl Node) : List Node :=
  v.linkage.name.toList ++ v.binding.singles

def CatchClause.singles (c : CatchClause Node) : List Node :=
  c.error.elim [] fun e => e.part.singles

def FunctionDecl.singles (f : FunctionDecl Node) : List Node :=
  f.linkage.name.toList ++ f.receiver.elim [] (fun r => r.part.binding.singles) ++
    f.returnType.toList ++ f.whereClause.toList

/-- The children of a construct that stand outside all lists. -/
def Form.singles : Form Node → List Node
  | .rename symbol newName => [symbol, newName]
  | .dot receiver _ => [receiver]
  | .fnCall callee _ _ => [callee]
  | .letIn decls body => decls.flatMap (fun d => d.part.singles) ++ [body]
  | .newObject _ typeExpr => [typeExpr]
  | .range _ lower upper => lower.toList ++ upper.toList
  | .reduction _ op iterand => [op, iterand]
  | .indexedLoop _ loop => loop.index.toList ++ [loop.iterand]
  | .catchClause handler => handler.singles
  | .conditional condition _ _ => [condition]
  | .doWhile _ condition => [condition]
  | .forLoop index iterand _ _ => index.toList ++ [iterand]
  | .moduleAccess _ _ clauses => clauses.map fun c => c.part.symbol
  | .label _ loop => [loop]
  | .guardedBlock _ condition _ => condition.toList
  | .onLocale destination _ => [destination]
  | .returnStmt value => value.toList
  | .select scrutinee _ => [scrutinee]
  | .throw error => [error]
  | .tryStmt attempt => attempt.handlers.flatMap fun h => h.part.singles
  | .whileLoop condition _ => [condition]
  | .yield value => [value]
  | .classDecl linkage _ parent _ => linkage.name.toList ++ parent.toList
  | .aggregateDecl _ linkage _ _ => linkage.name.toList
  | .enumDecl _ elements => elements.flatMap fun e => e.part.initExpr.toList
  | .enumElement element => element.initExpr.toList
  | .formal decl => decl.binding.singles
  | .forwarding expr => [expr]
  | .function decl => decl.singles
  | .taskVar decl => decl.binding.singles
  | .tupleDecl decl => decl.typeExpr.toList ++ decl.initExpr.toList
  | .typeDecl linkage _ => linkage.name.toList
  | .varArgFormal decl => decl.binding.singles ++ decl.count.toList
  | .varDecl decl => decl.singles
  | .visibilityClause clause => [clause.symbol]
  | _ => []

/-! ## What is written -/

/-- What is written of a node in a role when comments are not: the node, and what is written of the
children in its layout. -/
inductive Node.Holds : Role → Node → Role → Node → Prop where
  | self (role : Role) (n : Node) : Holds role n role n
  | child {role : Role} {n : Node} {r : Role} {m : Node} {s : Role} {k : Node} :
    Item.child r m ∈ n.layout false role → Holds r m s k → Holds role n s k

/-- A tree whose comments are all in lists. Only what is written of it counts. -/
def Node.CommentsInLists (n : Node) : Prop :=
  n.isComment = false ∧ ∀ r m, Node.Holds .whole n r m → NoComments m.form.singles

/-! ## Choices made on whole lists -/

/-- A domain is written by whether it has members and whether a type query is its only one. -/
def KeepsDomain (exprs : List Node) : Prop :=
  (Layout.kept false exprs = [] → exprs = []) ∧
    ∀ query, Layout.kept false exprs = [query] → query.typeQuery?.isSome → exprs = [query]

/-- An arm is written by whether it has cases. -/
def WhenArm.KeepsShape (arm : WhenArm Node) : Prop :=
  Layout.kept false arm.cases = [] → arm.cases = []

/-- The keyword of a limitation is followed by a space if there are names. A limitation without a
keyword is at most one name. -/
def VisibilityClause.KeepsShape (c : VisibilityClause Node) : Prop :=
  match c.limitationKind with
  | .braces => True
  | .bare => NoComments c.limitations
  | _ => Layout.kept false c.limitations = [] → c.limitations = []

/-- The operands of an operator and of a reserved callee stand in their places: none is a comment. -/
def Form.KeepsOperands : Form Node → Prop
  | .opCall _ actuals => NoComments actuals
  | .fnCall callee actuals _ =>
    callee.isReserved → ∀ a ∈ actuals.head?, a.value.isComment = false
  | _ => True

/-- The symbol `**` is set close to its operands, and a reserved callee is followed by whatever its first
operand is, so a comment there need not show. None of these operands is a comment. -/
def Form.ShowsOperands : Form Node → Prop
  | .opCall op actuals => op = "**" → NoComments actuals
  | .fnCall callee actuals _ =>
    callee.isReserved → ∀ a ∈ actuals.head?, a.value.isComment = false
  | _ => True

/-- What a construct is written as does not change with the comments in its lists. -/
def Form.KeepsShape : Form Node → Prop
  | .tuple exprs => exprs.length = 1 ↔ (Layout.kept false exprs).length = 1
  | .domain exprs => KeepsDomain exprs
  | .opCall op actuals => (Form.opCall op actuals).KeepsOperands
  | .fnCall callee actuals inBrackets =>
    (Form.fnCall callee actuals inBrackets).KeepsOperands ∧
      (callee.isReserved = false →
        NoComments (actuals.map Actual.value) ∨ ∃ c, c.isComment ∧ actuals = [⟨none, c⟩])
  | .primCall _ actuals => NoComments actuals
  | .indexedLoop .bracketLoop loop =>
    loop.body.style = .implicit → Layout.kept false loop.body.stmts = [] → loop.body.stmts = []
  | .whenArm arm => arm.KeepsShape
  | .select _ arms => ∀ a ∈ arms, a.part.KeepsShape
  | .visibilityClause clause => clause.KeepsShape
  | .moduleAccess _ _ clauses => ∀ c ∈ clauses, c.part.KeepsShape
  | .function decl =>
    decl.isParenless → Layout.kept false decl.formals = [] → decl.formals = []
  | .multiDecl decls => NoComments decls
  | .tupleDecl decl => NoComments decl.decls
  | _ => True

end ChapelSource
