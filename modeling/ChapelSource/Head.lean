import ChapelSource.Grouping.Symbol
import ChapelSource.Node.Basic

/-!
# Expressions that end with their body

A loop over a single expression and a `try` before one end with that expression, and nothing sets it
off on its right.

* `Head`: what stands before the body of such an expression.
* `Head.withBody`: the expression with a given body.
* `Node.binary`, `Node.member`: an operator between two operands, and a member of a receiver.
-/

namespace ChapelSource

/-- What stands before the body of a loop or of a `try`. -/
inductive Head where
  /-- A parallel or a bracketed loop, `forall i in a do` or `[i in a]`. -/
  | indexedLoop (kind : LoopKind) (index : Option Node) (iterand : Node)
      (withClause : Option (Located (WithClause Node)))
  /-- A serial loop, `for i in a do`. -/
  | forLoop (index : Option Node) (iterand : Node) (isParam : Bool)
  /-- Errors of the body are handled, `try` or `try!`. -/
  | attempt (isBang : Bool) (handlers : List (Located (CatchClause Node)))

namespace Head

/-- The construct of a head whose body is one expression that is not set off. -/
def form (body : Node) : Head → Form Node
  | indexedLoop kind index iterand withClause =>
    .indexedLoop kind ⟨index, iterand, withClause, ⟨.implicit, [body]⟩⟩
  | forLoop index iterand isParam => .forLoop index iterand isParam ⟨.implicit, [body]⟩
  | attempt isBang handlers => .tryStmt ⟨isBang, true, [body], handlers⟩

/-- A head and its body. -/
def withBody (info : NodeInfo) (h : Head) (body : Node) : Node := .mk info (h.form body)

end Head

/-- An operator between two operands. -/
def Node.binary (info : NodeInfo) (op : BinaryOp) (left right : Node) : Node :=
  .mk info (.opCall op.symbol [left, right])

/-- A member of a receiver. -/
def Node.member (info : NodeInfo) (receiver : Node) (field : String) : Node :=
  .mk info (.dot receiver field)

end ChapelSource
