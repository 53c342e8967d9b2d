/-!
# Kinds of nodes

Every node of a syntax tree is of one of 77 kinds: expressions, statements, or declarations and
their parts.

* `Kind`: the kinds.
* `Kind.name`: the name by which messages call a kind.
* `Kind.isLoop`: the kinds that a label may stand before.
-/

namespace ChapelSource

/-- The kind of a node. -/
inductive Kind where
  -- expressions
  | array | rename | boolLiteral | bytesLiteral | cStringLiteral | domain | dot | erroneous
  | fnCall | identifier | imagLiteral | intLiteral | letIn | newObject | opCall | primCall | range
  | realLiteral | reduce | scan | stringLiteral | tuple | typeQuery | uintLiteral | zip
  -- statements
  | beginTask | block | bracketLoop | breakOut | catchClause | cobegin | coforallLoop | comment
  | conditional | continueNext | deferred | delete | doWhile | emptyStmt | foreignBlock | forLoop
  | forallLoop | foreachLoop | importModule | includeModule | label | localBlock | manage
  | onLocale | require | returnStmt | select | serialBlock | sync | throw | tryStmt | useModule
  | whenArm | whileLoop | yield
  -- declarations and their parts
  | classDecl | enumDecl | enumElement | formal | forwarding | function | moduleDecl | multiDecl
  | recordDecl | taskVar | tupleDecl | typeDecl | unionDecl | varArgFormal | varDecl
  | visibilityClause | withClause
  deriving DecidableEq

namespace Kind

/-- The name by which messages call a kind. -/
def name : Kind → String
  | .array => "Array"
  | .rename => "As"
  | .boolLiteral => "BoolLiteral"
  | .bytesLiteral => "BytesLiteral"
  | .cStringLiteral => "CStringLiteral"
  | .domain => "Domain"
  | .dot => "Dot"
  | .erroneous => "ErroneousExpression"
  | .fnCall => "FnCall"
  | .identifier => "Identifier"
  | .imagLiteral => "ImagLiteral"
  | .intLiteral => "IntLiteral"
  | .letIn => "Let"
  | .newObject => "New"
  | .opCall => "OpCall"
  | .primCall => "PrimCall"
  | .range => "Range"
  | .realLiteral => "RealLiteral"
  | .reduce => "Reduce"
  | .scan => "Scan"
  | .stringLiteral => "StringLiteral"
  | .tuple => "Tuple"
  | .typeQuery => "TypeQuery"
  | .uintLiteral => "UintLiteral"
  | .zip => "Zip"
  | .beginTask => "Begin"
  | .block => "Block"
  | .bracketLoop => "BracketLoop"
  | .breakOut => "Break"
  | .catchClause => "Catch"
  | .cobegin => "Cobegin"
  | .coforallLoop => "Coforall"
  | .comment => "Comment"
  | .conditional => "Conditional"
  | .continueNext => "Continue"
  | .deferred => "Defer"
  | .delete => "Delete"
  | .doWhile => "DoWhile"
  | .emptyStmt => "EmptyStmt"
  | .foreignBlock => "ExternBlock"
  | .forLoop => "For"
  | .forallLoop => "Forall"
  | .foreachLoop => "Foreach"
  | .importModule => "Import"
  | .includeModule => "Include"
  | .label => "Label"
  | .localBlock => "Local"
  | .manage => "Manage"
  | .onLocale => "On"
  | .require => "Require"
  | .returnStmt => "Return"
  | .select => "Select"
  | .serialBlock => "Serial"
  | .sync => "Sync"
  | .throw => "Throw"
  | .tryStmt => "Try"
  | .useModule => "Use"
  | .whenArm => "When"
  | .whileLoop => "While"
  | .yield => "Yield"
  | .classDecl => "Class"
  | .enumDecl => "Enum"
  | .enumElement => "EnumElement"
  | .formal => "Formal"
  | .forwarding => "ForwardingDecl"
  | .function => "Function"
  | .moduleDecl => "Module"
  | .multiDecl => "MultiDecl"
  | .recordDecl => "Record"
  | .taskVar => "TaskVar"
  | .tupleDecl => "TupleDecl"
  | .typeDecl => "TypeDecl"
  | .unionDecl => "Union"
  | .varArgFormal => "VarArgFormal"
  | .varDecl => "Variable"
  | .visibilityClause => "VisibilityClause"
  | .withClause => "WithClause"

/-- The loops are the kinds that may carry a label. -/
def isLoop : Kind → Bool
  | .forLoop | .forallLoop | .foreachLoop | .coforallLoop | .bracketLoop | .whileLoop
  | .doWhile => true
  | _ => false

end Kind

end ChapelSource
