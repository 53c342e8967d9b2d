import ChapelSource.Layout.Declaration

/-!
# Layouts of statements

* `IndexedLoop.layout`, `forLayout`: loops.
* `conditionalLayout`, `WhenArm.layout`, `selectLayout`: choices.
* `TryStmt.layout`, `CatchClause.layout`: errors.
* `WithClause.layout`, `beginLayout`, `cobeginLayout`: tasks.
-/

namespace ChapelSource

open Layout

/-! ## Tasks -/

/-- A `with` clause. -/
def WithClause.layout (comments : Bool) (w : WithClause Node) : Layout :=
  "with " ++ parenthesized (commaList comments w.exprs)

/-- A task started by `begin`. -/
def beginLayout (comments : Bool) (withClause : Option (Located (WithClause Node)))
    (body : Body Node) : Layout :=
  "begin " ++ ifSome withClause (fun w => w.part.layout comments ++ " ") ++
    body.plainLayout comments

/-- A task for each statement. -/
def cobeginLayout (comments : Bool) (withClause : Option (Located (WithClause Node)))
    (tasks : List Node) : Layout :=
  "cobegin " ++ ifSome withClause (fun w => w.part.layout comments ++ " ") ++ braced comments tasks

/-! ## Loops -/

/-- The index of a loop, if it has one. -/
def loopIndexLayout (index : Option Node) : Layout := ifSome index (whole · ++ " in ")

namespace IndexedLoop

/-- What a loop says before its body. -/
def headLayout (comments : Bool) (l : IndexedLoop Node) : Layout :=
  loopIndexLayout l.index ++ whole l.iterand ++
    ifSome l.withClause fun w => " " ++ w.part.layout comments

/-- A loop that starts with a keyword. -/
def keywordLayout (comments : Bool) (keyword : String) (l : IndexedLoop Node) : Layout :=
  keyword ++ " " ++ l.headLayout comments ++ " " ++ l.body.layout comments "do "

/-- A loop whose head stands in brackets. A body of no statements that nothing sets off is not
written. -/
def bracketLayout (comments : Bool) (l : IndexedLoop Node) : Layout :=
  "[" ++ l.headLayout comments ++ "]" ++
    ifTrue (l.body.style != .implicit || !l.body.stmts.isEmpty)
      (" " ++ l.body.plainLayout comments)

/-- A loop over an iterand. -/
def layout (comments : Bool) (kind : LoopKind) (l : IndexedLoop Node) : Layout :=
  match kind with
  | .coforallLoop => l.keywordLayout comments "coforall"
  | .forallLoop => l.keywordLayout comments "forall"
  | .foreachLoop => l.keywordLayout comments "foreach"
  | .bracketLoop => l.bracketLayout comments

end IndexedLoop

/-- A serial loop over an iterand. -/
def forLayout (comments : Bool) (index : Option Node) (iterand : Node) (isParam : Bool)
    (body : Body Node) : Layout :=
  "for " ++ ifTrue isParam "param " ++ loopIndexLayout index ++ whole iterand ++ " " ++
    body.layout comments "do "

/-- A loop that tests its condition first. -/
def whileLayout (comments : Bool) (condition : Node) (body : Body Node) : Layout :=
  "while " ++ whole condition ++ " " ++ body.layout comments "do "

/-- A loop that tests its condition last. -/
def doWhileLayout (comments : Bool) (body : Body Node) (condition : Node) : Layout :=
  "do " ++ body.plainLayout comments ++ " while " ++ whole condition

/-- The keyword of a jump. -/
def JumpKind.keyword : JumpKind → String
  | .breakOut => "break"
  | .continueNext => "continue"

/-- A jump out of a loop body, with the label of the loop if it is given. -/
def jumpLayout (kind : JumpKind) (target : Option (Located String)) : Layout :=
  kind.keyword ++ ifSome target fun t => " " ++ t.part

/-- A labelled loop. -/
def labelLayout (name : String) (loop : Node) : Layout :=
  if loop.kind.isLoop then "label " ++ name ++ " " ++ whole loop
  else fault (.unexpectedNode .loop loop.kind)

/-! ## Choices -/

/-- A choice between two statement lists, the second of them optional. -/
def conditionalLayout (comments : Bool) (condition : Node) (thenBody : Body Node)
    (elseBody : Option (Body Node)) : Layout :=
  "if " ++ whole condition ++ " " ++ thenBody.layout comments "then " ++
    ifSome elseBody fun b => " else " ++ b.plainLayout comments

/-- What an arm of a `select` says before its body. -/
def WhenArm.headLayout (comments : Bool) (arm : WhenArm Node) : Layout :=
  if arm.isOtherwise then "otherwise " else "when " ++ commaList comments arm.cases ++ " "

/-- An arm of a `select`. -/
def WhenArm.layout (comments : Bool) (arm : WhenArm Node) : Layout :=
  arm.headLayout comments ++ arm.body.layout comments "do "

/-- A choice between arms. -/
def selectLayout (comments : Bool) (scrutinee : Node) (arms : List (Located (WhenArm Node))) :
    Layout :=
  "select " ++ whole scrutinee ++ " \x7b" ++
    join lineBreak (arms.map fun a => a.part.layout comments) ++ "\x7d"

/-! ## Errors -/

/-- The error that a handler takes, with its type if it is given. -/
def caughtLayout (error : VarDecl Node) : Layout :=
  error.binding.name ++ ifSome error.binding.typeExpr (" : " ++ asType ·)

/-- The error in parentheses if it is written so. -/
def caughtGroup (inParens : Bool) (error : VarDecl Node) : Layout :=
  if inParens then parenthesized (caughtLayout error) else caughtLayout error

/-- A handler of errors. -/
def CatchClause.layout (comments : Bool) (c : CatchClause Node) : Layout :=
  "catch " ++ ifSome c.error (fun e => caughtGroup c.inParens e.part ++ " ") ++
    braced comments c.stmts

/-- The handlers after a guarded block, each after a space. -/
def handlersLayout (comments : Bool) (handlers : List (Located (CatchClause Node))) : Layout :=
  handlers.flatMap fun h => " " ++ h.part.layout comments

/-- What a `try` guards: an expression, or a block with its handlers. -/
def TryStmt.guardedLayout (comments : Bool) (t : TryStmt Node) : Layout :=
  if t.isExpression then lines comments t.stmts
  else braced comments t.stmts ++ handlersLayout comments t.handlers

/-- A guarded expression or block. -/
def TryStmt.layout (comments : Bool) (t : TryStmt Node) : Layout :=
  (if t.isBang then "try! " else "try ") ++ t.guardedLayout comments

/-! ## Other statements -/

/-- The keyword of a block with an optional condition. -/
def GuardKind.keyword : GuardKind → String
  | .localBlock => "local"
  | .serialBlock => "serial"

/-- A block with an optional condition. -/
def guardedLayout (comments : Bool) (kind : GuardKind) (condition : Option Node)
    (body : Body Node) : Layout :=
  kind.keyword ++ " " ++ ifSome condition (whole · ++ " ") ++ body.layout comments "do "

/-- A block that uses managers. -/
def manageLayout (comments : Bool) (managers : List Node) (body : Body Node) : Layout :=
  "manage " ++ commaList comments managers ++ " " ++ body.layout comments "do "

/-- A block that runs somewhere else. -/
def onLayout (comments : Bool) (destination : Node) (body : Body Node) : Layout :=
  "on " ++ whole destination ++ " " ++ body.layout comments "do "

/-- A block of foreign code. -/
def foreignLayout (code : String) : Layout := "extern \x7b" ++ lineBreak ++ code ++ "\x7d"

end ChapelSource
