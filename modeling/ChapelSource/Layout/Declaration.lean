import ChapelSource.Layout.Basic

/-!
# Layouts of declarations

* `Binding.layout`: a name with its type and initializer.
* `VarDecl.layout`, `Formal.layout`, `TaskVar.layout`, `VarArgFormal.layout`, `TupleDecl.layout`: the
  declarations of variables.
* `multiDeclLayout`, `componentLayout`: declarations of several names, which share the modifiers of
  the first.
* `VisibilityClause.layout`: what a `use` or an `import` brings in.
* `FunctionDecl.headLayout`, `FunctionDecl.signatureLayout`: the signature of a function.
* `leadLayout`, `endLayout`, `FunctionDecl.layout`: what stands around it, and the whole function.
-/

namespace ChapelSource

open Layout

/-! ## Modifiers -/

/-- Pragmas before a declaration. -/
def pragmasLayout (pragmas : List Pragma) : Layout :=
  pragmas.flatMap fun p => "pragma " ++ literal "" p.name ++ " "

/-- The linkage of a declaration. A name without a linkage is not written. -/
def LinkageClause.layout (c : LinkageClause Node) : Layout :=
  ifSome c.linkage fun l => l.keyword ++ " " ++ ifSome c.name (whole · ++ " ")

/-- A visibility and a space, if it was written. -/
def visibilityLayout (visibility : Option Visibility) : Layout :=
  ifSome visibility fun v => v.keyword ++ " "

/-- An intent and a space, if it was written. -/
def intentLayout (intent : Option Intent) : Layout := ifSome intent fun i => i.keyword ++ " "

/-- The keyword of an intent that must have been written. -/
def requiredIntent (intent : Option Intent) : Layout :=
  wordOrFault (PrintError.required .intent (intent.map Intent.keyword))

/-! ## Variables -/

/-- A type after a colon, if there is one. -/
def typeLayout (typeExpr : Option Node) : Layout := ifSome typeExpr (": " ++ asType ·)

/-- An initializer after an equals sign, if there is one. -/
def initLayout (initExpr : Option Node) : Layout := ifSome initExpr (" = " ++ whole ·)

/-- A name with its type and initializer. -/
def Binding.layout (b : Binding Node) : Layout :=
  b.name ++ typeLayout b.typeExpr ++ initLayout b.initExpr

/-- What ties a variable to the outside. A configuration variable has no linkage. -/
def VarDecl.linkageLayout (v : VarDecl Node) : Layout :=
  if v.isConfig then "config " else v.linkage.layout

/-- What stands before the kind of a variable. -/
def VarDecl.decorationLayout (v : VarDecl Node) : Layout :=
  pragmasLayout v.pragmas ++ v.linkageLayout

/-- A variable. -/
def VarDecl.layout (v : VarDecl Node) : Layout :=
  v.decorationLayout ++ intentLayout v.kind ++ v.binding.layout

/-- A formal. -/
def Formal.layout (f : Formal Node) : Layout :=
  pragmasLayout f.pragmas ++ intentLayout f.intent ++ f.binding.layout

/-- A formal that takes any number of actuals, with their count if it is given. -/
def VarArgFormal.layout (f : VarArgFormal Node) : Layout :=
  intentLayout f.intent ++ f.binding.layout ++ " ..." ++ ifSome f.count whole

/-- A task variable, whose intent is never left out. -/
def TaskVar.layout (t : TaskVar Node) : Layout :=
  requiredIntent t.intent ++ " " ++ t.binding.layout

/-- A constant of an enumeration. -/
def EnumElement.layout (e : EnumElement Node) : Layout := e.name ++ initLayout e.initExpr

/-! ## Several names at once -/

/-- The components of a tuple of names with its type and initializer, without its intent. -/
def TupleDecl.contentsLayout (t : TupleDecl Node) : Layout :=
  parenthesized (join ", " (t.decls.map component) ++ ifTrue (t.decls.length == 1) ",") ++
    typeLayout t.typeExpr ++ initLayout t.initExpr

/-- A declaration that takes a tuple apart. -/
def TupleDecl.layout (t : TupleDecl Node) : Layout := intentLayout t.intent ++ t.contentsLayout

/-- A declaration as a component of another: its names, types and initializers alone. -/
def componentLayout (n : Node) : Layout :=
  match n.form with
  | .tupleDecl t => t.contentsLayout
  | .varDecl v => v.binding.layout
  | .formal f => f.binding.layout
  | .varArgFormal f => f.binding.layout
  | .taskVar t => t.binding.layout
  | _ => fault (.unexpectedNode .variableLike n.kind)

/-- A declaration of several names. All share the modifiers of the first, which is a variable or a
tuple. -/
def multiDeclLayout (decls : List Node) : Layout :=
  match decls with
  | [] => fault (.unexpectedNode .someDeclaration .multiDecl)
  | first :: _ =>
    let components := " " ++ join ", " (decls.map component)
    match first.form with
    | .varDecl v => v.decorationLayout ++ requiredIntent v.kind ++ components
    | .tupleDecl t => requiredIntent t.intent ++ components
    | _ => fault (.unexpectedNode .variableOrTuple first.kind)

/-! ## Names from other modules -/

/-- The limitation of a visibility clause. One name after a dot must be an identifier, and a list of
names needs the keyword that says what it means. -/
def limitationLayout (comments : Bool) (kind : LimitationKind) (limitations : List Node) : Layout :=
  let listed := ifTrue (!limitations.isEmpty) (" " ++ commaList comments limitations)
  match kind, limitations with
  | .braces, _ => ".\x7b" ++ commaList comments limitations ++ "\x7d"
  | .bare, [] => []
  | .bare, [limitation] =>
    if limitation.identifier?.isSome then "." ++ whole limitation
    else fault (.unexpectedNode .identifier limitation.kind)
  | _, _ => " " ++ wordOrFault (PrintError.required .limitation kind.keyword?) ++ listed

/-- One clause of a `use` or an `import`. -/
def VisibilityClause.layout (comments : Bool) (c : VisibilityClause Node) : Layout :=
  whole c.symbol ++ limitationLayout comments c.limitationKind c.limitations

/-- The keyword of a statement that makes names of other modules visible. -/
def AccessKind.keyword : AccessKind → String
  | .useModule => "use"
  | .importModule => "import"

/-- A `use` or an `import`. -/
def accessLayout (comments : Bool) (kind : AccessKind) (visibility : Option Visibility)
    (clauses : List (Located (VisibilityClause Node))) : Layout :=
  visibilityLayout visibility ++ kind.keyword ++ " " ++
    join ", " (clauses.map fun c => c.part.layout comments)

/-! ## Types and modules -/

/-- The keyword of a type with members. -/
def AggregateKind.keyword : AggregateKind → String
  | .record => "record"
  | .union => "union"

/-- A class. -/
def classLayout (comments : Bool) (linkage : LinkageClause Node) (name : String)
    (parent : Option Node) (members : List Node) : Layout :=
  linkage.layout ++ "class " ++ name ++ " " ++ ifSome parent (": " ++ asType · ++ " ") ++
    braced comments members

/-- A record or a union. -/
def aggregateLayout (comments : Bool) (kind : AggregateKind) (linkage : LinkageClause Node)
    (name : String) (members : List Node) : Layout :=
  linkage.layout ++ kind.keyword ++ " " ++ name ++ " " ++ braced comments members

/-- An enumeration. -/
def enumLayout (name : String) (elements : List (Located (EnumElement Node))) : Layout :=
  "enum " ++ name ++ " \x7b " ++ join ", " (elements.map fun e => e.part.layout) ++ " \x7d"

/-- A module. -/
def moduleLayout (comments : Bool) (visibility : Option Visibility) (kind : Option ModuleKind)
    (name : String) (stmts : List Node) : Layout :=
  visibilityLayout visibility ++ ifSome (kind.bind ModuleKind.keyword?) (fun k => k ++ " ") ++
    "module " ++ name ++ " " ++ braced comments stmts

/-- A module that is included from another file. -/
def includeLayout (visibility : Option Visibility) (isPrototype : Bool) (name : String) : Layout :=
  "include " ++ visibilityLayout visibility ++ ifTrue isPrototype "prototype " ++ "module " ++ name

/-! ## Functions -/

/-- A type in the place of a receiver. A plain name stands as it is, any other type in
parentheses. -/
def receiverType (typeExpr : Node) : Layout :=
  if typeExpr.identifier?.isSome then whole typeExpr else parenthesized (asType typeExpr)

/-- The type of a receiver before the name of the method, which must be given. -/
def receiverTypeLayout : Option Node → Layout
  | some typeExpr => receiverType typeExpr ++ "."
  | none => fault (.unexpectedNode .receiverType .formal)

/-- The receiver of a method. A primary method stands inside its receiver's type and does not name
it; any other method must. -/
def receiverLayout (isPrimary : Bool) (receiver : Formal Node) : Layout :=
  intentLayout receiver.intent ++
    ifTrue (!isPrimary) (receiverTypeLayout receiver.binding.typeExpr)

/-- What a function has before its visibility. -/
def leadLayout (pragmas : List Pragma) (linkage : LinkageClause Node) : Layout :=
  pragmasLayout pragmas ++ linkage.layout

/-- What a function has between its head and its body. -/
def resultLayout (returnIntent : Option Intent) (returnType whereClause : Option Node)
    (isThrowing : Bool) : Layout :=
  ifSome returnIntent (fun i => " " ++ i.keyword) ++ typeLayout returnType ++
    ifSome whereClause (" where " ++ whole ·) ++ ifTrue isThrowing " throws"

/-- The body of a function, or the semicolon that stands for it. -/
def functionBodyLayout (comments : Bool) : Option (List Node) → Layout
  | some stmts => " " ++ braced comments stmts
  | none => ";"

/-- What a function has after its head. -/
def endLayout (comments : Bool) (returnIntent : Option Intent) (returnType whereClause : Option Node)
    (isThrowing : Bool) (body : Option (List Node)) : Layout :=
  resultLayout returnIntent returnType whereClause isThrowing ++ functionBodyLayout comments body

namespace FunctionDecl

/-- The name of a function. The assignment operator is set off by spaces. -/
def nameText (f : FunctionDecl Node) : String :=
  if f.kind = .operator ∧ f.name = "=" then " = " else f.name

/-- The receiver, the name and the formals of a function. -/
def headLayout (comments : Bool) (f : FunctionDecl Node) : Layout :=
  ifSome f.receiver (fun r => receiverLayout f.isPrimaryMethod r.part) ++ f.nameText ++
    ifTrue (!(f.formals.isEmpty && f.isParenless)) (parenthesized (commaList comments f.formals))

/-- The signature of a function: its visibility, kind and head. -/
def signatureLayout (comments : Bool) (f : FunctionDecl Node) : Layout :=
  visibilityLayout f.visibility ++ f.kind.keyword ++ " " ++ f.headLayout comments

/-- How a function is overriding or inlined; a function that is both is written as overriding. -/
def flagText (f : FunctionDecl Node) : String :=
  if f.isOverride then "override " else if f.isInline then "inline " else ""

/-- A function. -/
def layout (comments : Bool) (f : FunctionDecl Node) : Layout :=
  leadLayout f.pragmas f.linkage ++ visibilityLayout f.visibility ++ f.flagText ++
    f.kind.keyword ++ " " ++ f.headLayout comments ++
    endLayout comments f.returnIntent f.returnType f.whereClause f.isThrowing f.body

end FunctionDecl

end ChapelSource
