import ChapelSource.Print
import ChapelSource.StringPool

/-!
# Building trees without a source

A builder makes nodes one at a time, each from nodes made before. It numbers them 0, 1, 2, …, gives
them the empty span at the start of the text, and enters the names they bring into a string pool. A
node that is kept has handles in the place of its names and of its operands; to be printed it is
read back through the pool as it is then.

* `Construction`: what can be built, over types for the names and for the operands.
* `Construction.mapNamesM`, `Construction.mapOperandsM`: a construction with other names or
  operands.
* `Construction.UsesOnce`: constructions one after the other that share no operand.
* `Builder.make`, `Builder.run`: one construction, and several one after the other.
* `Builder.node?`, `Builder.print?`: a node that was made, and its text.
-/

namespace ChapelSource

/-- A construction with names of type `σ` and operands of type `α`. -/
inductive Construction (σ α : Type) where
  | emptyStmt
  | identifier (name : σ)
  | typeQuery (name : σ)
  | numericLiteral (kind : NumericKind) (text : σ)
  | boolLiteral (value : Bool)
  | quotedLiteral (kind : QuotedKind) (bytes : List UInt8)
  | opCall (op : σ) (actuals : List α)
  /-- Each actual may have the name of its formal before it. -/
  | fnCall (callee : α) (actuals : List (Option σ × α)) (inBrackets : Bool)
  | primCall (prim : Primitive) (actuals : List α)
  | dot (receiver : α) (field : σ)
  | range (bound : RangeBound) (lower upper : Option α)
  | tuple (exprs : List α)
  | block (style : BlockStyle) (stmts : List α)
  | returnStmt (value : Option α)
  | withClause (exprs : List α)
  | taskVar (intent : Option Intent) (name : σ)
  | varDecl (kind : Option Intent) (name : σ) (typeExpr initExpr : Option α)
  | formal (intent : Option Intent) (name : σ) (typeExpr initExpr : Option α)
  | function (kind : FunctionKind) (name : σ)
  | visibilityClause (symbol : α) (limitationKind : LimitationKind) (limitations : List α)

namespace Construction

variable {σ ρ α β : Type}

/-! ## Shorthands -/

/-- A call of a binary operator. -/
def binary (op : σ) (lhs rhs : α) : Construction σ α := .opCall op [lhs, rhs]

/-- A call of a unary operator. -/
def unary (op : σ) (operand : α) : Construction σ α := .opCall op [operand]

/-- A call in parentheses with positional actuals. -/
def call (callee : α) (args : List α) : Construction σ α :=
  .fnCall callee (args.map fun a => (none, a)) false

/-- A variable that is written without a keyword. -/
def indexVariable (name : σ) : Construction σ α := .varDecl none name none none

/-! ## Names and operands -/

/-- The names of a construction: names, operators, fields and the texts of numbers, but neither the
bytes of a quoted literal nor the name of a primitive. -/
def names : Construction σ α → List σ
  | .identifier name | .typeQuery name | .taskVar _ name | .function _ name => [name]
  | .numericLiteral _ text => [text]
  | .opCall op _ => [op]
  | .fnCall _ actuals _ => actuals.filterMap Prod.fst
  | .dot _ field => [field]
  | .varDecl _ name _ _ | .formal _ name _ _ => [name]
  | .emptyStmt | .boolLiteral _ | .quotedLiteral _ _ | .primCall _ _ | .range _ _ _ | .tuple _
  | .block _ _ | .returnStmt _ | .withClause _ | .visibilityClause _ _ _ => []

/-- The operands of a construction. -/
def operands : Construction σ α → List α
  | .opCall _ actuals | .primCall _ actuals => actuals
  | .fnCall callee actuals _ => callee :: actuals.map Prod.snd
  | .dot receiver _ => [receiver]
  | .range _ lower upper => lower.toList ++ upper.toList
  | .tuple exprs | .withClause exprs => exprs
  | .block _ stmts => stmts
  | .returnStmt value => value.toList
  | .varDecl _ _ typeExpr initExpr | .formal _ _ typeExpr initExpr =>
    typeExpr.toList ++ initExpr.toList
  | .visibilityClause symbol _ limitations => symbol :: limitations
  | .emptyStmt | .identifier _ | .typeQuery _ | .numericLiteral _ _ | .boolLiteral _
  | .quotedLiteral _ _ | .taskVar _ _ | .function _ _ => []

section

variable {m : Type → Type} [Monad m]

/-- An actual with another name of its formal, if it has one. -/
def renameActualM (f : σ → m ρ) (a : Option σ × α) : m (Option ρ × α) :=
  return (← a.1.mapM f, a.2)

/-- An actual with another value. -/
def replaceActualM (g : α → m β) (a : Option σ × α) : m (Option σ × β) :=
  return (a.1, ← g a.2)

/-- A construction with other names, which are found one after the other. -/
def mapNamesM (f : σ → m ρ) : Construction σ α → m (Construction ρ α)
  | .emptyStmt => return .emptyStmt
  | .identifier name => return .identifier (← f name)
  | .typeQuery name => return .typeQuery (← f name)
  | .numericLiteral kind text => return .numericLiteral kind (← f text)
  | .boolLiteral value => return .boolLiteral value
  | .quotedLiteral kind bytes => return .quotedLiteral kind bytes
  | .opCall op actuals => return .opCall (← f op) actuals
  | .fnCall callee actuals inBrackets =>
    return .fnCall callee (← actuals.mapM (renameActualM f)) inBrackets
  | .primCall prim actuals => return .primCall prim actuals
  | .dot receiver field => return .dot receiver (← f field)
  | .range bound lower upper => return .range bound lower upper
  | .tuple exprs => return .tuple exprs
  | .block style stmts => return .block style stmts
  | .returnStmt value => return .returnStmt value
  | .withClause exprs => return .withClause exprs
  | .taskVar intent name => return .taskVar intent (← f name)
  | .varDecl kind name typeExpr initExpr => return .varDecl kind (← f name) typeExpr initExpr
  | .formal intent name typeExpr initExpr => return .formal intent (← f name) typeExpr initExpr
  | .function kind name => return .function kind (← f name)
  | .visibilityClause symbol limitationKind limitations =>
    return .visibilityClause symbol limitationKind limitations

/-- A construction with other operands, which are found one after the other. -/
def mapOperandsM (g : α → m β) : Construction σ α → m (Construction σ β)
  | .emptyStmt => return .emptyStmt
  | .identifier name => return .identifier name
  | .typeQuery name => return .typeQuery name
  | .numericLiteral kind text => return .numericLiteral kind text
  | .boolLiteral value => return .boolLiteral value
  | .quotedLiteral kind bytes => return .quotedLiteral kind bytes
  | .opCall op actuals => return .opCall op (← actuals.mapM g)
  | .fnCall callee actuals inBrackets =>
    return .fnCall (← g callee) (← actuals.mapM (replaceActualM g)) inBrackets
  | .primCall prim actuals => return .primCall prim (← actuals.mapM g)
  | .dot receiver field => return .dot (← g receiver) field
  | .range bound lower upper => return .range bound (← lower.mapM g) (← upper.mapM g)
  | .tuple exprs => return .tuple (← exprs.mapM g)
  | .block style stmts => return .block style (← stmts.mapM g)
  | .returnStmt value => return .returnStmt (← value.mapM g)
  | .withClause exprs => return .withClause (← exprs.mapM g)
  | .taskVar intent name => return .taskVar intent name
  | .varDecl kind name typeExpr initExpr =>
    return .varDecl kind name (← typeExpr.mapM g) (← initExpr.mapM g)
  | .formal intent name typeExpr initExpr =>
    return .formal intent name (← typeExpr.mapM g) (← initExpr.mapM g)
  | .function kind name => return .function kind name
  | .visibilityClause symbol limitationKind limitations =>
    return .visibilityClause (← g symbol) limitationKind (← limitations.mapM g)

end

/-- Each node is an operand at most once, and of a later construction. -/
structure UsesOnce (cs : List (Construction σ Nat)) : Prop where
  nodup : (cs.flatMap operands).Nodup
  lt : ∀ (k : Nat) (h : k < cs.length), ∀ i ∈ cs[k].operands, i < k

/-- The construct that a construction makes. -/
def form : Construction String α → Form α
  | .emptyStmt => .emptyStmt
  | .identifier name => .identifier name
  | .typeQuery name => .typeQuery name
  | .numericLiteral kind text => .numericLiteral kind text
  | .boolLiteral value => .boolLiteral value
  | .quotedLiteral kind bytes => .quotedLiteral kind bytes
  | .opCall op actuals => .opCall op actuals
  | .fnCall callee actuals inBrackets =>
    .fnCall callee (actuals.map fun (name, value) => ⟨name, value⟩) inBrackets
  | .primCall prim actuals => .primCall prim actuals
  | .dot receiver field => .dot receiver field
  | .range bound lower upper => .range bound lower upper
  | .tuple exprs => .tuple exprs
  | .block style stmts => .block ⟨style, stmts⟩
  | .returnStmt value => .returnStmt value
  | .withClause exprs => .withClause ⟨exprs⟩
  | .taskVar intent name => .taskVar ⟨intent, name, none, none⟩
  | .varDecl kind name typeExpr initExpr =>
    .varDecl ⟨[], ⟨none, none⟩, false, kind, ⟨name, typeExpr, initExpr⟩⟩
  | .formal intent name typeExpr initExpr => .formal ⟨[], intent, ⟨name, typeExpr, initExpr⟩⟩
  | .function kind name =>
    .function ⟨[], ⟨none, none⟩, none, kind, FunctionFlags.none, name, none, [], none, none, none,
      some []⟩
  | .visibilityClause symbol limitationKind limitations =>
    .visibilityClause ⟨symbol, limitationKind, limitations⟩

end Construction

/-! ## The builder -/

/-- A node as a builder keeps it: its names are handles of the pool, and its operands are places of
nodes that are kept before it. -/
structure StoredNode where
  info : NodeInfo
  construction : Construction Nat Nat

/-- What a builder keeps. -/
structure Builder (τ : Type) where
  /-- The number of the next node. -/
  nextId : Nat
  /-- The strings brought by the nodes so far. -/
  pool : τ
  /-- The nodes in the order in which they were made. -/
  nodes : List StoredNode

namespace Builder

variable {τ : Type} [StringPool τ]

/-- A builder that has made nothing, with a pool that has not been used. -/
def fresh : Builder τ := ⟨0, StringPool.empty, []⟩

/-- A name is entered into the pool. -/
def enter (name : String) : StateM τ Nat := fun t => StringPool.intern t name

/-- The builder after a construction on nodes at given places. -/
def make (b : Builder τ) (c : Construction String Nat) : Builder τ :=
  let (stored, pool) := (c.mapNamesM enter).run b.pool
  ⟨b.nextId + 1, pool, b.nodes ++ [⟨.sourceless ⟨b.nextId⟩, stored⟩]⟩

/-- The builder after several constructions. The node of each has the place of its
construction. -/
def run (cs : List (Construction String Nat)) : Builder τ := cs.foldl make fresh

/-- The node at a place, read back through the pool. There is none if one of its names is no handle,
or if one of its operands is not kept before it. -/
def node? (b : Builder τ) (place : Nat) : Option Node := do
  let stored ← b.nodes[place]?
  let c ← stored.construction.mapNamesM (StringPool.resolve? b.pool)
  let c ← c.mapOperandsM fun operand => if operand < place then b.node? operand else none
  return .mk stored.info c.form
termination_by place

/-- The text of the node at a place. -/
def print? (b : Builder τ) (o : PrintOptions) (place : Nat) : Option (Except PrintError String) :=
  (b.node? place).map (Node.print o)

end Builder

end ChapelSource
