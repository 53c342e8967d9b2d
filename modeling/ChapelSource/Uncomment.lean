import ChapelSource.Reached
import ChapelSource.Layout.Descent

/-!
# Trees without their comments

A tree loses its comments when every comment is deleted from every list of the tree. A comment that is
a child of its own, outside all lists, stays.

* `Form.uncomment`: a construct without the comments in its lists, its other children replaced.
* `Node.uncomment`: a tree without the comments in its lists.
* **`Node.uncomment_eq`**: the equation between a tree without comments and its children without
  comments.
-/

namespace ChapelSource

/-- A part in which something else is held. -/
def Located.map {β γ : Type} (f : β → γ) (p : Located β) : Located γ := ⟨p.info, f p.part⟩

/-! ## One layer -/

section Layer

variable (g : Node → Node)

/-- A list without its comments. -/
def uncommentList (nodes : List Node) : List Node := (Layout.kept false nodes).map g

/-- The actuals of a call without its comments. -/
def uncommentActuals (actuals : List (Actual Node)) : List (Actual Node) :=
  (actuals.filter fun a => !a.value.isComment).map fun a => ⟨a.name, g a.value⟩

def Body.uncomment (b : Body Node) : Body Node := ⟨b.style, uncommentList g b.stmts⟩

def Binding.uncomment (b : Binding Node) : Binding Node :=
  ⟨b.name, b.typeExpr.map g, b.initExpr.map g⟩

def LinkageClause.uncomment (c : LinkageClause Node) : LinkageClause Node :=
  ⟨c.linkage, c.name.map g⟩

def VarDecl.uncomment (v : VarDecl Node) : VarDecl Node :=
  ⟨v.pragmas, v.linkage.uncomment g, v.isConfig, v.kind, v.binding.uncomment g⟩

def WithClause.uncomment (w : WithClause Node) : WithClause Node := ⟨uncommentList g w.exprs⟩

def IndexedLoop.uncomment (l : IndexedLoop Node) : IndexedLoop Node :=
  ⟨l.index.map g, g l.iterand, l.withClause.map (Located.map (WithClause.uncomment g)),
    l.body.uncomment g⟩

def CatchClause.uncomment (c : CatchClause Node) : CatchClause Node :=
  ⟨c.error.map (Located.map (VarDecl.uncomment g)), c.inParens, uncommentList g c.stmts⟩

def TryStmt.uncomment (t : TryStmt Node) : TryStmt Node :=
  ⟨t.isBang, t.isExpression, uncommentList g t.stmts,
    t.handlers.map (Located.map (CatchClause.uncomment g))⟩

def WhenArm.uncomment (arm : WhenArm Node) : WhenArm Node :=
  ⟨uncommentList g arm.cases, arm.body.uncomment g⟩

def VisibilityClause.uncomment (c : VisibilityClause Node) : VisibilityClause Node :=
  ⟨g c.symbol, c.limitationKind, uncommentList g c.limitations⟩

def EnumElement.uncomment (e : EnumElement Node) : EnumElement Node := ⟨e.name, e.initExpr.map g⟩

def Formal.uncomment (f : Formal Node) : Formal Node :=
  ⟨f.pragmas, f.intent, f.binding.uncomment g⟩

def VarArgFormal.uncomment (f : VarArgFormal Node) : VarArgFormal Node :=
  ⟨f.intent, f.binding.uncomment g, f.count.map g⟩

def TaskVar.uncomment (t : TaskVar Node) : TaskVar Node := ⟨t.intent, t.binding.uncomment g⟩

def TupleDecl.uncomment (t : TupleDecl Node) : TupleDecl Node :=
  ⟨t.intent, uncommentList g t.decls, t.typeExpr.map g, t.initExpr.map g⟩

def FunctionDecl.uncomment (f : FunctionDecl Node) : FunctionDecl Node where
  pragmas := f.pragmas
  linkage := f.linkage.uncomment g
  visibility := f.visibility
  kind := f.kind
  flags := f.flags
  name := f.name
  receiver := f.receiver.map (Located.map (Formal.uncomment g))
  formals := uncommentList g f.formals
  returnIntent := f.returnIntent
  returnType := f.returnType.map g
  whereClause := f.whereClause.map g
  body := f.body.map (uncommentList g)

/-- A construct without the comments in its lists, its other children replaced. -/
def Form.uncomment : Form Node → Form Node
  | .array exprs => .array (uncommentList g exprs)
  | .rename symbol newName => .rename (g symbol) (g newName)
  | .boolLiteral value => .boolLiteral value
  | .quotedLiteral kind bytes => .quotedLiteral kind bytes
  | .domain exprs => .domain (uncommentList g exprs)
  | .dot receiver field => .dot (g receiver) field
  | .erroneous => .erroneous
  | .fnCall callee actuals inBrackets => .fnCall (g callee) (uncommentActuals g actuals) inBrackets
  | .identifier name => .identifier name
  | .numericLiteral kind text => .numericLiteral kind text
  | .letIn decls body => .letIn (decls.map (Located.map (VarDecl.uncomment g))) (g body)
  | .newObject management typeExpr => .newObject management (g typeExpr)
  | .opCall op actuals => .opCall op (uncommentList g actuals)
  | .primCall prim actuals => .primCall prim (uncommentList g actuals)
  | .range bound lower upper => .range bound (lower.map g) (upper.map g)
  | .reduction kind op iterand => .reduction kind (g op) (g iterand)
  | .tuple exprs => .tuple (uncommentList g exprs)
  | .typeQuery name => .typeQuery name
  | .zip actuals => .zip (uncommentList g actuals)
  | .beginTask clause body =>
    .beginTask (clause.map (Located.map (WithClause.uncomment g))) (body.uncomment g)
  | .block body => .block (body.uncomment g)
  | .indexedLoop kind loop => .indexedLoop kind (loop.uncomment g)
  | .jump kind target => .jump kind target
  | .catchClause handler => .catchClause (handler.uncomment g)
  | .cobegin clause tasks =>
    .cobegin (clause.map (Located.map (WithClause.uncomment g))) (uncommentList g tasks)
  | .comment text => .comment text
  | .conditional condition thenBody elseBody =>
    .conditional (g condition) (thenBody.uncomment g) (elseBody.map (Body.uncomment g))
  | .deferred body => .deferred (body.uncomment g)
  | .delete exprs => .delete (uncommentList g exprs)
  | .doWhile body condition => .doWhile (body.uncomment g) (g condition)
  | .emptyStmt => .emptyStmt
  | .foreignBlock code => .foreignBlock code
  | .forLoop index iterand isParam body =>
    .forLoop (index.map g) (g iterand) isParam (body.uncomment g)
  | .moduleAccess kind visibility clauses =>
    .moduleAccess kind visibility (clauses.map (Located.map (VisibilityClause.uncomment g)))
  | .includeModule visibility isPrototype name => .includeModule visibility isPrototype name
  | .label name loop => .label name (g loop)
  | .guardedBlock kind condition body => .guardedBlock kind (condition.map g) (body.uncomment g)
  | .manage managers body => .manage (uncommentList g managers) (body.uncomment g)
  | .onLocale destination body => .onLocale (g destination) (body.uncomment g)
  | .require exprs => .require (uncommentList g exprs)
  | .returnStmt value => .returnStmt (value.map g)
  | .select scrutinee arms => .select (g scrutinee) (arms.map (Located.map (WhenArm.uncomment g)))
  | .sync body => .sync (body.uncomment g)
  | .throw error => .throw (g error)
  | .tryStmt attempt => .tryStmt (attempt.uncomment g)
  | .whenArm arm => .whenArm (arm.uncomment g)
  | .whileLoop condition body => .whileLoop (g condition) (body.uncomment g)
  | .yield value => .yield (g value)
  | .classDecl linkage name parent members =>
    .classDecl (linkage.uncomment g) name (parent.map g) (uncommentList g members)
  | .aggregateDecl kind linkage name members =>
    .aggregateDecl kind (linkage.uncomment g) name (uncommentList g members)
  | .enumDecl name elements => .enumDecl name (elements.map (Located.map (EnumElement.uncomment g)))
  | .enumElement element => .enumElement (element.uncomment g)
  | .formal decl => .formal (decl.uncomment g)
  | .forwarding expr => .forwarding (g expr)
  | .function decl => .function (decl.uncomment g)
  | .moduleDecl visibility kind name stmts =>
    .moduleDecl visibility kind name (uncommentList g stmts)
  | .multiDecl decls => .multiDecl (uncommentList g decls)
  | .taskVar decl => .taskVar (decl.uncomment g)
  | .tupleDecl decl => .tupleDecl (decl.uncomment g)
  | .typeDecl linkage name => .typeDecl (linkage.uncomment g) name
  | .varArgFormal decl => .varArgFormal (decl.uncomment g)
  | .varDecl decl => .varDecl (decl.uncomment g)
  | .visibilityClause clause => .visibilityClause (clause.uncomment g)
  | .withClause clause => .withClause (clause.uncomment g)

end Layer

/-! ## Only smaller nodes are replaced -/

section Congr

variable {g h : Node → Node} {k : Nat} (hgh : ∀ m, sizeOf m < k → g m = h m)

include hgh

theorem uncommentList_congr {l : List Node} (hs : sizeOf l ≤ k) :
    uncommentList g l = uncommentList h l := by
  refine List.map_congr_left fun m hm => hgh m ?_
  exact Nat.lt_of_lt_of_le (List.sizeOf_lt_of_mem (List.mem_filter.1 hm).1) hs

theorem uncommentActuals_congr {l : List (Actual Node)} (hs : sizeOf l ≤ k) :
    uncommentActuals g l = uncommentActuals h l := by
  refine List.map_congr_left fun a ha => ?_
  have hlt := List.sizeOf_lt_of_mem (List.mem_filter.1 ha).1
  obtain ⟨name, value⟩ := a
  rw [Actual.mk.sizeOf_spec] at hlt
  show Actual.mk name (g value) = Actual.mk name (h value)
  rw [hgh value (by omega)]

theorem option_congr {o : Option Node} (hs : sizeOf o ≤ k) : o.map g = o.map h := by
  cases o with
  | none => rfl
  | some m =>
    rw [Option.some.sizeOf_spec] at hs
    rw [Option.map_some, Option.map_some, hgh m (by omega)]

theorem Body.uncomment_congr {b : Body Node} (hs : sizeOf b ≤ k) :
    b.uncomment g = b.uncomment h := by
  obtain ⟨style, stmts⟩ := b
  rw [Body.mk.sizeOf_spec] at hs
  simp only [Body.uncomment, uncommentList_congr hgh (l := stmts) (by omega)]

theorem Binding.uncomment_congr {b : Binding Node} (hs : sizeOf b ≤ k) :
    b.uncomment g = b.uncomment h := by
  obtain ⟨name, typeExpr, initExpr⟩ := b
  rw [Binding.mk.sizeOf_spec] at hs
  simp only [Binding.uncomment, option_congr hgh (o := typeExpr) (by omega),
    option_congr hgh (o := initExpr) (by omega)]

theorem LinkageClause.uncomment_congr {c : LinkageClause Node} (hs : sizeOf c ≤ k) :
    c.uncomment g = c.uncomment h := by
  obtain ⟨linkage, name⟩ := c
  rw [LinkageClause.mk.sizeOf_spec] at hs
  simp only [LinkageClause.uncomment, option_congr hgh (o := name) (by omega)]

theorem VarDecl.uncomment_congr {v : VarDecl Node} (hs : sizeOf v ≤ k) :
    v.uncomment g = v.uncomment h := by
  obtain ⟨pragmas, linkage, isConfig, kind, binding⟩ := v
  rw [VarDecl.mk.sizeOf_spec] at hs
  simp only [VarDecl.uncomment, LinkageClause.uncomment_congr hgh (c := linkage) (by omega),
    Binding.uncomment_congr hgh (b := binding) (by omega)]

theorem WithClause.uncomment_congr {w : WithClause Node} (hs : sizeOf w ≤ k) :
    w.uncomment g = w.uncomment h := by
  obtain ⟨exprs⟩ := w
  rw [WithClause.mk.sizeOf_spec] at hs
  simp only [WithClause.uncomment, uncommentList_congr hgh (l := exprs) (by omega)]

omit hgh in
theorem located_congr {β : Type} [SizeOf β] {f f' : β → β} {l : List (Located β)}
    (hf : ∀ b : β, sizeOf b ≤ k → f b = f' b) (hs : sizeOf l ≤ k) :
    l.map (Located.map f) = l.map (Located.map f') := by
  refine List.map_congr_left fun p hp => ?_
  rw [Located.map, Located.map, hf p.part (Layout.sizeOf_part_le hp hs)]

omit hgh in
theorem optionLocated_congr {β : Type} [SizeOf β] {f f' : β → β} {o : Option (Located β)}
    (hf : ∀ b : β, sizeOf b ≤ k → f b = f' b) (hs : sizeOf o ≤ k) :
    o.map (Located.map f) = o.map (Located.map f') := by
  cases o with
  | none => rfl
  | some p =>
    rw [Option.some.sizeOf_spec] at hs
    have hp := Layout.sizeOf_part_lt p
    rw [Option.map_some, Option.map_some, Located.map, Located.map, hf p.part (by omega)]

theorem with_congr {o : Option (Located (WithClause Node))} (hs : sizeOf o ≤ k) :
    o.map (Located.map (WithClause.uncomment g)) = o.map (Located.map (WithClause.uncomment h)) :=
  optionLocated_congr (fun _ => WithClause.uncomment_congr hgh) hs

theorem IndexedLoop.uncomment_congr {l : IndexedLoop Node} (hs : sizeOf l ≤ k) :
    l.uncomment g = l.uncomment h := by
  obtain ⟨index, iterand, withClause, body⟩ := l
  rw [IndexedLoop.mk.sizeOf_spec] at hs
  simp only [IndexedLoop.uncomment, option_congr hgh (o := index) (by omega),
    hgh iterand (by omega), with_congr hgh (o := withClause) (by omega),
    Body.uncomment_congr hgh (b := body) (by omega)]

theorem CatchClause.uncomment_congr {c : CatchClause Node} (hs : sizeOf c ≤ k) :
    c.uncomment g = c.uncomment h := by
  obtain ⟨error, inParens, stmts⟩ := c
  rw [CatchClause.mk.sizeOf_spec] at hs
  have he := optionLocated_congr (o := error) (fun _ => VarDecl.uncomment_congr hgh) (by omega)
  simp only [CatchClause.uncomment, he, uncommentList_congr hgh (l := stmts) (by omega)]

theorem TryStmt.uncomment_congr {t : TryStmt Node} (hs : sizeOf t ≤ k) :
    t.uncomment g = t.uncomment h := by
  obtain ⟨isBang, isExpression, stmts, handlers⟩ := t
  rw [TryStmt.mk.sizeOf_spec] at hs
  have hh := located_congr (l := handlers) (fun _ => CatchClause.uncomment_congr hgh) (by omega)
  simp only [TryStmt.uncomment, hh, uncommentList_congr hgh (l := stmts) (by omega)]

theorem WhenArm.uncomment_congr {arm : WhenArm Node} (hs : sizeOf arm ≤ k) :
    arm.uncomment g = arm.uncomment h := by
  obtain ⟨cases, body⟩ := arm
  rw [WhenArm.mk.sizeOf_spec] at hs
  simp only [WhenArm.uncomment, uncommentList_congr hgh (l := cases) (by omega),
    Body.uncomment_congr hgh (b := body) (by omega)]

theorem VisibilityClause.uncomment_congr {c : VisibilityClause Node} (hs : sizeOf c ≤ k) :
    c.uncomment g = c.uncomment h := by
  obtain ⟨symbol, kind, limitations⟩ := c
  rw [VisibilityClause.mk.sizeOf_spec] at hs
  simp only [VisibilityClause.uncomment, hgh symbol (by omega),
    uncommentList_congr hgh (l := limitations) (by omega)]

theorem EnumElement.uncomment_congr {e : EnumElement Node} (hs : sizeOf e ≤ k) :
    e.uncomment g = e.uncomment h := by
  obtain ⟨name, initExpr⟩ := e
  rw [EnumElement.mk.sizeOf_spec] at hs
  simp only [EnumElement.uncomment, option_congr hgh (o := initExpr) (by omega)]

theorem Formal.uncomment_congr {f : Formal Node} (hs : sizeOf f ≤ k) :
    f.uncomment g = f.uncomment h := by
  obtain ⟨pragmas, intent, binding⟩ := f
  rw [Formal.mk.sizeOf_spec] at hs
  simp only [Formal.uncomment, Binding.uncomment_congr hgh (b := binding) (by omega)]

theorem VarArgFormal.uncomment_congr {f : VarArgFormal Node} (hs : sizeOf f ≤ k) :
    f.uncomment g = f.uncomment h := by
  obtain ⟨intent, binding, count⟩ := f
  rw [VarArgFormal.mk.sizeOf_spec] at hs
  simp only [VarArgFormal.uncomment, Binding.uncomment_congr hgh (b := binding) (by omega),
    option_congr hgh (o := count) (by omega)]

theorem TaskVar.uncomment_congr {t : TaskVar Node} (hs : sizeOf t ≤ k) :
    t.uncomment g = t.uncomment h := by
  obtain ⟨intent, binding⟩ := t
  rw [TaskVar.mk.sizeOf_spec] at hs
  simp only [TaskVar.uncomment, Binding.uncomment_congr hgh (b := binding) (by omega)]

theorem TupleDecl.uncomment_congr {t : TupleDecl Node} (hs : sizeOf t ≤ k) :
    t.uncomment g = t.uncomment h := by
  obtain ⟨intent, decls, typeExpr, initExpr⟩ := t
  rw [TupleDecl.mk.sizeOf_spec] at hs
  simp only [TupleDecl.uncomment, uncommentList_congr hgh (l := decls) (by omega),
    option_congr hgh (o := typeExpr) (by omega), option_congr hgh (o := initExpr) (by omega)]

theorem FunctionDecl.uncomment_congr {f : FunctionDecl Node} (hs : sizeOf f ≤ k) :
    f.uncomment g = f.uncomment h := by
  obtain ⟨pragmas, linkage, visibility, kind, flags, name, receiver, formals, returnIntent,
    returnType, whereClause, body⟩ := f
  rw [FunctionDecl.mk.sizeOf_spec] at hs
  have hr := optionLocated_congr (o := receiver) (fun _ => Formal.uncomment_congr hgh) (by omega)
  have hb : body.map (uncommentList g) = body.map (uncommentList h) := by
    cases body with
    | none => rfl
    | some stmts =>
      rw [Option.some.sizeOf_spec] at hs
      rw [Option.map_some, Option.map_some, uncommentList_congr hgh (l := stmts) (by omega)]
  simp only [FunctionDecl.uncomment, hr, hb,
    LinkageClause.uncomment_congr hgh (c := linkage) (by omega),
    uncommentList_congr hgh (l := formals) (by omega),
    option_congr hgh (o := returnType) (by omega), option_congr hgh (o := whereClause) (by omega)]

theorem optionBody_congr {o : Option (Body Node)} (hs : sizeOf o ≤ k) :
    o.map (Body.uncomment g) = o.map (Body.uncomment h) := by
  cases o with
  | none => rfl
  | some b =>
    rw [Option.some.sizeOf_spec] at hs
    rw [Option.map_some, Option.map_some, Body.uncomment_congr hgh (b := b) (by omega)]

/-- What becomes of a construct depends only on what becomes of smaller nodes. -/
theorem Form.uncomment_congr {f : Form Node} (hs : sizeOf f ≤ k) :
    f.uncomment g = f.uncomment h := by
  have hvars : ∀ l : List (Located (VarDecl Node)), sizeOf l ≤ k →
      l.map (Located.map (VarDecl.uncomment g)) = l.map (Located.map (VarDecl.uncomment h)) :=
    fun _ => located_congr fun _ => VarDecl.uncomment_congr hgh
  have hclauses : ∀ l : List (Located (VisibilityClause Node)), sizeOf l ≤ k →
      l.map (Located.map (VisibilityClause.uncomment g)) =
        l.map (Located.map (VisibilityClause.uncomment h)) :=
    fun _ => located_congr fun _ => VisibilityClause.uncomment_congr hgh
  have harms : ∀ l : List (Located (WhenArm Node)), sizeOf l ≤ k →
      l.map (Located.map (WhenArm.uncomment g)) = l.map (Located.map (WhenArm.uncomment h)) :=
    fun _ => located_congr fun _ => WhenArm.uncomment_congr hgh
  have helements : ∀ l : List (Located (EnumElement Node)), sizeOf l ≤ k →
      l.map (Located.map (EnumElement.uncomment g)) =
        l.map (Located.map (EnumElement.uncomment h)) :=
    fun _ => located_congr fun _ => EnumElement.uncomment_congr hgh
  cases f
  all_goals simp at hs
  all_goals simp (disch := omega) only [Form.uncomment, hgh, uncommentList_congr hgh,
    uncommentActuals_congr hgh, option_congr hgh, optionBody_congr hgh, with_congr hgh, hvars,
    hclauses, harms, helements, Body.uncomment_congr hgh, LinkageClause.uncomment_congr hgh,
    VarDecl.uncomment_congr hgh, WithClause.uncomment_congr hgh, IndexedLoop.uncomment_congr hgh,
    CatchClause.uncomment_congr hgh, TryStmt.uncomment_congr hgh, WhenArm.uncomment_congr hgh,
    VisibilityClause.uncomment_congr hgh, EnumElement.uncomment_congr hgh,
    Formal.uncomment_congr hgh, VarArgFormal.uncomment_congr hgh, TaskVar.uncomment_congr hgh,
    TupleDecl.uncomment_congr hgh, FunctionDecl.uncomment_congr hgh]

end Congr

/-! ## All layers -/

/-- A tree without the comments in its lists. All children are smaller than the tree. -/
noncomputable def Node.uncomment (n : Node) : Node :=
  .mk n.info (n.form.uncomment fun m => if sizeOf m < sizeOf n then m.uncomment else m)
termination_by sizeOf n

/-- **A tree without comments is its construct without comments, with children without comments.** -/
theorem Node.uncomment_eq (n : Node) :
    n.uncomment = .mk n.info (n.form.uncomment Node.uncomment) := by
  rw [Node.uncomment]
  congr 1
  refine Form.uncomment_congr (fun m hm => ?_) (Nat.le_of_lt n.sizeOf_form_lt)
  rw [if_pos hm]

end ChapelSource
