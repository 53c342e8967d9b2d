import ChapelSource.Span
import ChapelSource.Kind
import ChapelSource.Modifier
import ChapelSource.FunctionFlags
import ChapelSource.Primitive
import ChapelSource.Pragma

/-!
# One layer of syntax

A `Form α` is one construct of the language whose children are of type `α`. A child whose kind the
grammar fixes is held as its own part, `Located` with its id and span; any other child is an `α`.

* `NodeInfo`, `Located`: the id and the span of a node.
* `Body`, `Binding`, `LinkageClause`: what several constructs have in common.
* `Form`: the constructs.
* `Form.kind`: the kind of a construct.
-/

namespace ChapelSource

/-! ## Identity and place -/

/-- The number of a node, unique within a tree. -/
structure NodeId where
  /-- The number, below `2 ^ 32`. -/
  index : Nat
  deriving DecidableEq

/-- The number that stands for no node. -/
def NodeId.invalid : NodeId := ⟨0xffffffff⟩

/-- Every number but the invalid one may belong to a node. -/
def NodeId.isValid (id : NodeId) : Bool := id != NodeId.invalid

/-- What every node has, whatever its kind. -/
structure NodeInfo where
  id : NodeId
  span : Span
  deriving DecidableEq

/-- The information on a node that has no source. -/
def NodeInfo.sourceless (id : NodeId) : NodeInfo := ⟨id, Span.origin⟩

/-- A part of a tree with its own id and span. -/
structure Located (β : Type) where
  info : NodeInfo
  part : β

/-! ## Common parts -/

/-- A statement list and how it is set off. -/
structure Body (α : Type) where
  style : BlockStyle
  stmts : List α

/-- A declared name with its optional type and initializer. -/
structure Binding (α : Type) where
  name : String
  typeExpr : Option α
  initExpr : Option α

/-- The linkage of a declaration and its name outside the program. -/
structure LinkageClause (α : Type) where
  linkage : Option Linkage
  name : Option α

/-! ## Parts of expressions -/

/-- The type of a numeric literal. -/
inductive NumericKind where
  | int | uint | real | imag
  deriving DecidableEq

/-- The type of a quoted literal. -/
inductive QuotedKind where
  | string | bytes | cString
  deriving DecidableEq

/-- Whether a reduction keeps its intermediate results. -/
inductive ReductionKind where
  | reduce | scan
  deriving DecidableEq

/-- An actual argument of a call, with the name of its formal if it is given. -/
structure Actual (α : Type) where
  name : Option String
  value : α

/-- A variable, a loop index or the error of a catch clause. -/
structure VarDecl (α : Type) where
  pragmas : List Pragma
  linkage : LinkageClause α
  isConfig : Bool
  /-- Absent for a variable that is written without a keyword. -/
  kind : Option Intent
  binding : Binding α

/-! ## Parts of statements -/

/-- The variables that a task handles in a way of its own. -/
structure WithClause (α : Type) where
  exprs : List α

/-- The loops of one shape: an optional index, an iterand and an optional `with` clause. -/
inductive LoopKind where
  | coforallLoop | forallLoop | foreachLoop | bracketLoop
  deriving DecidableEq

/-- A loop over an iterand. -/
structure IndexedLoop (α : Type) where
  index : Option α
  iterand : α
  withClause : Option (Located (WithClause α))
  body : Body α

/-- Where a jump out of a loop body goes. -/
inductive JumpKind where
  | breakOut | continueNext
  deriving DecidableEq

/-- A handler of errors. -/
structure CatchClause (α : Type) where
  error : Option (Located (VarDecl α))
  /-- The error is written in parentheses. -/
  inParens : Bool
  stmts : List α

/-- A guarded block with its handlers, or a guarded expression. -/
structure TryStmt (α : Type) where
  /-- Written `try!`. -/
  isBang : Bool
  /-- The statement list holds the guarded expression alone. -/
  isExpression : Bool
  stmts : List α
  handlers : List (Located (CatchClause α))

/-- An arm of a `select`. -/
structure WhenArm (α : Type) where
  cases : List α
  body : Body α

/-- An arm without cases is the `otherwise` arm. -/
def WhenArm.isOtherwise {α : Type} (arm : WhenArm α) : Bool := arm.cases.isEmpty

/-- The blocks of one shape: an optional condition and a body. -/
inductive GuardKind where
  | localBlock | serialBlock
  deriving DecidableEq

/-- The statements that make names of other modules visible. -/
inductive AccessKind where
  | useModule | importModule
  deriving DecidableEq

/-- One clause of a `use` or an `import`. -/
structure VisibilityClause (α : Type) where
  symbol : α
  limitationKind : LimitationKind
  limitations : List α

/-! ## Parts of declarations -/

/-- The type declarations of one shape: a name and members. -/
inductive AggregateKind where
  | record | union
  deriving DecidableEq

/-- A constant of an enumeration with its optional value. -/
structure EnumElement (α : Type) where
  name : String
  initExpr : Option α

/-- A formal of a function. -/
structure Formal (α : Type) where
  pragmas : List Pragma
  intent : Option Intent
  binding : Binding α

/-- A formal that takes any number of actuals. -/
structure VarArgFormal (α : Type) where
  intent : Option Intent
  binding : Binding α
  count : Option α

/-- A task intent or a variable private to a task. -/
structure TaskVar (α : Type) where
  intent : Option Intent
  binding : Binding α

/-- A declaration that takes a tuple apart. -/
structure TupleDecl (α : Type) where
  intent : Option Intent
  decls : List α
  typeExpr : Option α
  initExpr : Option α

/-- A function, method, iterator, operator or lambda. -/
structure FunctionDecl (α : Type) where
  pragmas : List Pragma
  linkage : LinkageClause α
  visibility : Option Visibility
  kind : FunctionKind
  flags : FunctionFlags
  name : String
  /-- The receiver of a method; its type names the type of the receiver. -/
  receiver : Option (Located (Formal α))
  /-- The formals save the receiver. -/
  formals : List α
  returnIntent : Option Intent
  returnType : Option α
  whereClause : Option α
  /-- Absent for a declaration that has no body, which differs from an empty body. -/
  body : Option (List α)

namespace FunctionDecl

variable {α : Type}

/-- A method is a function with a receiver. -/
def isMethod (f : FunctionDecl α) : Bool := f.receiver.isSome

/-- A primary method is declared inside its receiver's type. -/
def isPrimaryMethod (f : FunctionDecl α) : Bool := f.isMethod && f.flags.has .primaryMethod

/-- The function overrides an inherited one. -/
def isOverride (f : FunctionDecl α) : Bool := f.flags.has .override

/-- The function is inlined. -/
def isInline (f : FunctionDecl α) : Bool := f.flags.has .inline

/-- The function may throw errors. -/
def isThrowing (f : FunctionDecl α) : Bool := f.flags.has .throws

/-- The function is declared without a list of formals. -/
def isParenless (f : FunctionDecl α) : Bool := f.flags.has .parenless

end FunctionDecl

/-! ## The constructs -/

/-- One construct of the language over children of type `α`. -/
inductive Form (α : Type) where
  -- expressions
  /-- An array, `[a, b]`. -/
  | array (exprs : List α)
  /-- A symbol under another name, `a as b`. -/
  | rename (symbol newName : α)
  /-- A truth value. -/
  | boolLiteral (value : Bool)
  /-- A string, `"..."`, bytes, `b"..."`, or a C string, `c"..."`. The bytes are unescaped. -/
  | quotedLiteral (kind : QuotedKind) (bytes : List UInt8)
  /-- A domain, `{a, b}`, or a bare query, `?D`. -/
  | domain (exprs : List α)
  /-- A member of a receiver, `a.f`. -/
  | dot (receiver : α) (field : String)
  /-- An expression that could not be read. -/
  | erroneous
  /-- A call, `f(a, x = b)`, or an access, `f[a]`. -/
  | fnCall (callee : α) (actuals : List (Actual α)) (inBrackets : Bool)
  /-- A name. -/
  | identifier (name : String)
  /-- A number, as it was written. -/
  | numericLiteral (kind : NumericKind) (text : String)
  /-- An expression under local names, `let x = a in b`. -/
  | letIn (decls : List (Located (VarDecl α))) (body : α)
  /-- A new object, `new owned C(a)`. -/
  | newObject (management : Option Management) (typeExpr : α)
  /-- An operator on its operands. One makes it unary, two make it binary. -/
  | opCall (op : String) (actuals : List α)
  /-- A call of a primitive, `__primitive("move", a)`. -/
  | primCall (prim : Primitive) (actuals : List α)
  /-- A range, `a..b` or `a..<b`. -/
  | range (bound : RangeBound) (lower upper : Option α)
  /-- A reduction of an iterand, `+ reduce a` or `+ scan a`. -/
  | reduction (kind : ReductionKind) (op iterand : α)
  /-- A tuple, `(a, b)`. -/
  | tuple (exprs : List α)
  /-- A query for a type, `?t`. -/
  | typeQuery (name : String)
  /-- Iterands in lockstep, `zip(a, b)`. -/
  | zip (actuals : List α)
  -- statements
  /-- A task, `begin ...`. -/
  | beginTask (withClause : Option (Located (WithClause α))) (body : Body α)
  /-- A statement list on its own. -/
  | block (body : Body α)
  /-- A parallel or a bracketed loop, `forall i in a do ...` or `[i in a] ...`. -/
  | indexedLoop (kind : LoopKind) (loop : IndexedLoop α)
  /-- A `break` or a `continue`, with the label of its loop if it is given. -/
  | jump (kind : JumpKind) (target : Option (Located String))
  /-- A handler of errors, `catch e : T { ... }`. -/
  | catchClause (handler : CatchClause α)
  /-- A task for each statement, `cobegin { ... }`. -/
  | cobegin (withClause : Option (Located (WithClause α))) (tasks : List α)
  /-- A comment with its delimiters. -/
  | comment (text : String)
  /-- A choice, `if a then ... else ...`. -/
  | conditional (condition : α) (thenBody : Body α) (elseBody : Option (Body α))
  /-- Statements put off to the end of the block, `defer ...`. -/
  | deferred (body : Body α)
  /-- The end of some objects, `delete a, b`. -/
  | delete (exprs : List α)
  /-- A loop that tests its condition last, `do ... while a`. -/
  | doWhile (body : Body α) (condition : α)
  /-- A statement that does nothing. -/
  | emptyStmt
  /-- A block of foreign code, kept as it was written. -/
  | foreignBlock (code : String)
  /-- A serial loop, `for i in a do ...`. -/
  | forLoop (index : Option α) (iterand : α) (isParam : Bool) (body : Body α)
  /-- A `use` or an `import` of other modules. -/
  | moduleAccess (kind : AccessKind) (visibility : Option Visibility)
      (clauses : List (Located (VisibilityClause α)))
  /-- A module from another file, `include module M`. -/
  | includeModule (visibility : Option Visibility) (isPrototype : Bool) (name : String)
  /-- A loop with a label. -/
  | label (name : String) (loop : α)
  /-- A `local` or a `serial` block, with its condition if it is given. -/
  | guardedBlock (kind : GuardKind) (condition : Option α) (body : Body α)
  /-- Statements under managers, `manage a do ...`. -/
  | manage (managers : List α) (body : Body α)
  /-- Statements that run somewhere else, `on a do ...`. -/
  | onLocale (destination : α) (body : Body α)
  /-- Files that the program needs, `require a`. -/
  | require (exprs : List α)
  /-- The end of a function, with its result if there is one. -/
  | returnStmt (value : Option α)
  /-- A choice between arms, `select a { ... }`. -/
  | select (scrutinee : α) (arms : List (Located (WhenArm α)))
  /-- Statements whose tasks are waited for, `sync ...`. -/
  | sync (body : Body α)
  /-- An error thrown. -/
  | throw (error : α)
  /-- Statements or an expression whose errors are handled, `try ...` or `try! ...`. -/
  | tryStmt (attempt : TryStmt α)
  /-- An arm of a choice, `when a do ...`. -/
  | whenArm (arm : WhenArm α)
  /-- A loop that tests its condition first, `while a do ...`. -/
  | whileLoop (condition : α) (body : Body α)
  /-- A value handed out by an iterator. -/
  | yield (value : α)
  -- declarations and their parts
  /-- A class with its parent and members. -/
  | classDecl (linkage : LinkageClause α) (name : String) (parent : Option α) (members : List α)
  /-- A record or a union with its members. -/
  | aggregateDecl (kind : AggregateKind) (linkage : LinkageClause α) (name : String)
      (members : List α)
  /-- An enumeration with its constants. -/
  | enumDecl (name : String) (elements : List (Located (EnumElement α)))
  /-- A constant of an enumeration. -/
  | enumElement (element : EnumElement α)
  /-- A formal of a function. -/
  | formal (decl : Formal α)
  /-- Methods passed on to a member, `forwarding a`. -/
  | forwarding (expr : α)
  /-- A function. -/
  | function (decl : FunctionDecl α)
  /-- A module with its statements. -/
  | moduleDecl (visibility : Option Visibility) (kind : Option ModuleKind) (name : String)
      (stmts : List α)
  /-- Several names declared at once, `var a, b: int`. -/
  | multiDecl (decls : List α)
  /-- A variable of a task, inside a `with` clause. -/
  | taskVar (decl : TaskVar α)
  /-- A tuple of names declared at once, `var (a, b) = c`. -/
  | tupleDecl (decl : TupleDecl α)
  /-- A type declared without a definition. -/
  | typeDecl (linkage : LinkageClause α) (name : String)
  /-- A formal that takes any number of actuals. -/
  | varArgFormal (decl : VarArgFormal α)
  /-- A variable. -/
  | varDecl (decl : VarDecl α)
  /-- A clause of a `use` or an `import`. -/
  | visibilityClause (clause : VisibilityClause α)
  /-- A `with` clause. -/
  | withClause (clause : WithClause α)

/-- The kind of a construct. -/
def Form.kind {α : Type} : Form α → Kind
  | .array _ => .array
  | .rename _ _ => .rename
  | .boolLiteral _ => .boolLiteral
  | .quotedLiteral .string _ => .stringLiteral
  | .quotedLiteral .bytes _ => .bytesLiteral
  | .quotedLiteral .cString _ => .cStringLiteral
  | .domain _ => .domain
  | .dot _ _ => .dot
  | .erroneous => .erroneous
  | .fnCall _ _ _ => .fnCall
  | .identifier _ => .identifier
  | .numericLiteral .int _ => .intLiteral
  | .numericLiteral .uint _ => .uintLiteral
  | .numericLiteral .real _ => .realLiteral
  | .numericLiteral .imag _ => .imagLiteral
  | .letIn _ _ => .letIn
  | .newObject _ _ => .newObject
  | .opCall _ _ => .opCall
  | .primCall _ _ => .primCall
  | .range _ _ _ => .range
  | .reduction .reduce _ _ => .reduce
  | .reduction .scan _ _ => .scan
  | .tuple _ => .tuple
  | .typeQuery _ => .typeQuery
  | .zip _ => .zip
  | .beginTask _ _ => .beginTask
  | .block _ => .block
  | .indexedLoop .coforallLoop _ => .coforallLoop
  | .indexedLoop .forallLoop _ => .forallLoop
  | .indexedLoop .foreachLoop _ => .foreachLoop
  | .indexedLoop .bracketLoop _ => .bracketLoop
  | .jump .breakOut _ => .breakOut
  | .jump .continueNext _ => .continueNext
  | .catchClause _ => .catchClause
  | .cobegin _ _ => .cobegin
  | .comment _ => .comment
  | .conditional _ _ _ => .conditional
  | .deferred _ => .deferred
  | .delete _ => .delete
  | .doWhile _ _ => .doWhile
  | .emptyStmt => .emptyStmt
  | .foreignBlock _ => .foreignBlock
  | .forLoop _ _ _ _ => .forLoop
  | .moduleAccess .useModule _ _ => .useModule
  | .moduleAccess .importModule _ _ => .importModule
  | .includeModule _ _ _ => .includeModule
  | .label _ _ => .label
  | .guardedBlock .localBlock _ _ => .localBlock
  | .guardedBlock .serialBlock _ _ => .serialBlock
  | .manage _ _ => .manage
  | .onLocale _ _ => .onLocale
  | .require _ => .require
  | .returnStmt _ => .returnStmt
  | .select _ _ => .select
  | .sync _ => .sync
  | .throw _ => .throw
  | .tryStmt _ => .tryStmt
  | .whenArm _ => .whenArm
  | .whileLoop _ _ => .whileLoop
  | .yield _ => .yield
  | .classDecl _ _ _ _ => .classDecl
  | .aggregateDecl .record _ _ _ => .recordDecl
  | .aggregateDecl .union _ _ _ => .unionDecl
  | .enumDecl _ _ => .enumDecl
  | .enumElement _ => .enumElement
  | .formal _ => .formal
  | .forwarding _ => .forwarding
  | .function _ => .function
  | .moduleDecl _ _ _ _ => .moduleDecl
  | .multiDecl _ => .multiDecl
  | .taskVar _ => .taskVar
  | .tupleDecl _ => .tupleDecl
  | .typeDecl _ _ => .typeDecl
  | .varArgFormal _ => .varArgFormal
  | .varDecl _ => .varDecl
  | .visibilityClause _ => .visibilityClause
  | .withClause _ => .withClause

end ChapelSource
