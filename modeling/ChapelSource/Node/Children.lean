import ChapelSource.Node.Basic

/-!
# Children

The children of a node are the nodes right below it, written or not, in the order of its parts. A
part with its own id and span is a child like any other.

* `Located.node`: a part of a tree as a node of its own.
* `Form.children`, `Node.children`: the nodes right below a construct.
* `NodesBelow`, `Form.childrenBelow`: children are smaller.
* `Node.subtrees`, `Node.descendants`: a node with all that is below it, and what is below it alone.
* `Node.sizeOf_lt_of_mem_descendants`: what is below a node is smaller.
-/

namespace ChapelSource

/-- A part of a tree as a node of its own. -/
def Located.node {β : Type} (wrap : β → Form Node) (p : Located β) : Node := .mk p.info (wrap p.part)

/-! ## The children of a construct -/

def LinkageClause.children (c : LinkageClause Node) : List Node := c.name.toList

def Binding.children (b : Binding Node) : List Node := b.typeExpr.toList ++ b.initExpr.toList

def VarDecl.children (v : VarDecl Node) : List Node := v.linkage.children ++ v.binding.children

/-- An optional `with` clause. -/
def withChildren (withClause : Option (Located (WithClause Node))) : List Node :=
  withClause.toList.map (Located.node .withClause)

def IndexedLoop.children (l : IndexedLoop Node) : List Node :=
  l.index.toList ++ [l.iterand] ++ withChildren l.withClause ++ l.body.stmts

def CatchClause.children (c : CatchClause Node) : List Node :=
  c.error.toList.map (Located.node .varDecl) ++ c.stmts

def TryStmt.children (t : TryStmt Node) : List Node :=
  t.stmts ++ t.handlers.map (Located.node .catchClause)

def TupleDecl.children (t : TupleDecl Node) : List Node :=
  t.decls ++ t.typeExpr.toList ++ t.initExpr.toList

def FunctionDecl.children (f : FunctionDecl Node) : List Node :=
  f.linkage.children ++ f.receiver.toList.map (Located.node .formal) ++ f.formals ++
    f.returnType.toList ++ f.whereClause.toList ++ f.body.getD []

/-- The nodes right below a construct. -/
def Form.children : Form Node → List Node
  | .array exprs | .domain exprs | .tuple exprs | .delete exprs | .require exprs => exprs
  | .rename symbol newName => [symbol, newName]
  | .boolLiteral _ | .quotedLiteral _ _ | .erroneous | .identifier _ | .numericLiteral _ _
  | .typeQuery _ | .comment _ | .emptyStmt | .foreignBlock _ | .includeModule _ _ _ => []
  | .dot receiver _ => [receiver]
  | .fnCall callee actuals _ => callee :: actuals.map Actual.value
  | .letIn decls body => decls.map (Located.node .varDecl) ++ [body]
  | .newObject _ typeExpr => [typeExpr]
  | .opCall _ actuals | .primCall _ actuals | .zip actuals => actuals
  | .range _ lower upper => lower.toList ++ upper.toList
  | .reduction _ op iterand => [op, iterand]
  | .beginTask clause body => withChildren clause ++ body.stmts
  | .block body | .deferred body | .sync body => body.stmts
  | .indexedLoop _ loop => loop.children
  | .jump _ target => target.toList.map (Located.node .identifier)
  | .catchClause handler => handler.children
  | .cobegin clause tasks => withChildren clause ++ tasks
  | .conditional condition thenBody elseBody =>
    condition :: thenBody.stmts ++ elseBody.elim [] Body.stmts
  | .doWhile body condition => body.stmts ++ [condition]
  | .forLoop index iterand _ body => index.toList ++ iterand :: body.stmts
  | .moduleAccess _ _ clauses => clauses.map (Located.node .visibilityClause)
  | .label _ loop => [loop]
  | .guardedBlock _ condition body => condition.toList ++ body.stmts
  | .manage managers body => managers ++ body.stmts
  | .onLocale destination body => destination :: body.stmts
  | .returnStmt value => value.toList
  | .select scrutinee arms => scrutinee :: arms.map (Located.node .whenArm)
  | .throw error => [error]
  | .tryStmt attempt => attempt.children
  | .whenArm arm => arm.cases ++ arm.body.stmts
  | .whileLoop condition body => condition :: body.stmts
  | .yield value => [value]
  | .classDecl linkage _ parent members => linkage.children ++ parent.toList ++ members
  | .aggregateDecl _ linkage _ members => linkage.children ++ members
  | .enumDecl _ elements => elements.map (Located.node .enumElement)
  | .enumElement element => element.initExpr.toList
  | .formal decl => decl.binding.children
  | .forwarding expr => [expr]
  | .function decl => decl.children
  | .moduleDecl _ _ _ stmts => stmts
  | .multiDecl decls => decls
  | .taskVar decl => decl.binding.children
  | .tupleDecl decl => decl.children
  | .typeDecl linkage _ => linkage.children
  | .varArgFormal decl => decl.binding.children ++ decl.count.toList
  | .varDecl decl => decl.children
  | .visibilityClause clause => clause.symbol :: clause.limitations
  | .withClause clause => clause.exprs

/-! ## Children are smaller -/

section Below

variable {k : Nat}

/-- All nodes of a list are smaller than `k`. -/
def NodesBelow (k : Nat) (nodes : List Node) : Prop := ∀ n ∈ nodes, sizeOf n < k

@[simp] theorem nodesBelow_nil : NodesBelow k [] := fun _ h => nomatch h

@[simp] theorem nodesBelow_cons {n : Node} {nodes : List Node} :
    NodesBelow k (n :: nodes) ↔ sizeOf n < k ∧ NodesBelow k nodes := List.forall_mem_cons

@[simp] theorem nodesBelow_append {nodes more : List Node} :
    NodesBelow k (nodes ++ more) ↔ NodesBelow k nodes ∧ NodesBelow k more :=
  List.forall_mem_append

theorem nodesBelow_list {l : List Node} (h : sizeOf l ≤ k) : NodesBelow k l :=
  fun _ hn => Nat.lt_of_lt_of_le (List.sizeOf_lt_of_mem hn) h

theorem nodesBelow_toList {o : Option Node} (h : sizeOf o ≤ k) : NodesBelow k o.toList := by
  cases o with
  | none => exact nodesBelow_nil
  | some n =>
    rw [Option.some.sizeOf_spec] at h
    exact nodesBelow_cons.2 ⟨by omega, nodesBelow_nil⟩

theorem sizeOf_node {β : Type} [SizeOf β] {wrap : β → Form Node}
    (hw : ∀ b, sizeOf (wrap b) = 1 + sizeOf b) (p : Located β) :
    sizeOf (p.node wrap) = sizeOf p + 1 := by
  obtain ⟨info, part⟩ := p
  simp only [Located.node, Node.mk.sizeOf_spec, Located.mk.sizeOf_spec, hw]
  omega

theorem nodesBelow_located {β : Type} [SizeOf β] {wrap : β → Form Node}
    (hw : ∀ b, sizeOf (wrap b) = 1 + sizeOf b) {l : List (Located β)} (h : sizeOf l < k) :
    NodesBelow k (l.map (Located.node wrap)) := by
  intro n hn
  obtain ⟨p, hp, rfl⟩ := List.mem_map.1 hn
  have hlt := List.sizeOf_lt_of_mem hp
  rw [sizeOf_node hw]
  omega

theorem nodesBelow_locatedOption {β : Type} [SizeOf β] {wrap : β → Form Node}
    (hw : ∀ b, sizeOf (wrap b) = 1 + sizeOf b) {o : Option (Located β)} (h : sizeOf o < k) :
    NodesBelow k (o.toList.map (Located.node wrap)) := by
  cases o with
  | none => exact nodesBelow_nil
  | some p =>
    rw [Option.some.sizeOf_spec] at h
    have hp := sizeOf_node hw p
    exact nodesBelow_cons.2 ⟨by omega, nodesBelow_nil⟩

theorem nodesBelow_linkage {c : LinkageClause Node} (h : sizeOf c ≤ k) :
    NodesBelow k c.children := by
  obtain ⟨linkage, name⟩ := c
  rw [LinkageClause.mk.sizeOf_spec] at h
  exact nodesBelow_toList (o := name) (by omega)

theorem nodesBelow_binding {b : Binding Node} (h : sizeOf b ≤ k) : NodesBelow k b.children := by
  obtain ⟨name, typeExpr, initExpr⟩ := b
  rw [Binding.mk.sizeOf_spec] at h
  simp (disch := omega) [Binding.children, nodesBelow_toList]

theorem nodesBelow_varDecl {v : VarDecl Node} (h : sizeOf v ≤ k) : NodesBelow k v.children := by
  obtain ⟨pragmas, linkage, isConfig, kind, binding⟩ := v
  rw [VarDecl.mk.sizeOf_spec] at h
  simp (disch := omega) [VarDecl.children, nodesBelow_linkage, nodesBelow_binding]

theorem nodesBelow_formal {f : Formal Node} (h : sizeOf f ≤ k) :
    NodesBelow k f.binding.children := by
  obtain ⟨pragmas, intent, binding⟩ := f
  rw [Formal.mk.sizeOf_spec] at h
  exact nodesBelow_binding (b := binding) (by omega)

theorem nodesBelow_varArg {f : VarArgFormal Node} (h : sizeOf f ≤ k) :
    NodesBelow k f.binding.children ∧ NodesBelow k f.count.toList := by
  obtain ⟨intent, binding, count⟩ := f
  rw [VarArgFormal.mk.sizeOf_spec] at h
  exact ⟨nodesBelow_binding (b := binding) (by omega), nodesBelow_toList (o := count) (by omega)⟩

theorem nodesBelow_taskVar {t : TaskVar Node} (h : sizeOf t ≤ k) :
    NodesBelow k t.binding.children := by
  obtain ⟨intent, binding⟩ := t
  rw [TaskVar.mk.sizeOf_spec] at h
  exact nodesBelow_binding (b := binding) (by omega)

theorem nodesBelow_tuple {t : TupleDecl Node} (h : sizeOf t ≤ k) : NodesBelow k t.children := by
  obtain ⟨intent, decls, typeExpr, initExpr⟩ := t
  rw [TupleDecl.mk.sizeOf_spec] at h
  simp (disch := omega) [TupleDecl.children, nodesBelow_list, nodesBelow_toList]

theorem nodesBelow_actuals {actuals : List (Actual Node)} (h : sizeOf actuals ≤ k) :
    NodesBelow k (actuals.map Actual.value) := by
  intro n hn
  obtain ⟨⟨name, value⟩, ha, rfl⟩ := List.mem_map.1 hn
  have hlt := List.sizeOf_lt_of_mem ha
  rw [Actual.mk.sizeOf_spec] at hlt
  show sizeOf value < k
  omega

theorem nodesBelow_with {w : Option (Located (WithClause Node))} (h : sizeOf w < k) :
    NodesBelow k (withChildren w) :=
  nodesBelow_locatedOption Form.withClause.sizeOf_spec h

theorem nodesBelow_body {b : Body Node} (h : sizeOf b ≤ k) : NodesBelow k b.stmts := by
  obtain ⟨style, stmts⟩ := b
  rw [Body.mk.sizeOf_spec] at h
  exact nodesBelow_list (l := stmts) (by omega)

theorem nodesBelow_optionBody {o : Option (Body Node)} (h : sizeOf o ≤ k) :
    NodesBelow k (o.elim [] Body.stmts) := by
  cases o with
  | none => exact nodesBelow_nil
  | some b =>
    rw [Option.some.sizeOf_spec] at h
    exact nodesBelow_body (b := b) (by omega)

theorem nodesBelow_loop {l : IndexedLoop Node} (h : sizeOf l ≤ k) : NodesBelow k l.children := by
  obtain ⟨index, iterand, withClause, body⟩ := l
  rw [IndexedLoop.mk.sizeOf_spec] at h
  have hiterand : sizeOf iterand < k := by omega
  have hbody : 1 ≤ sizeOf body := by
    obtain ⟨style, stmts⟩ := body
    rw [Body.mk.sizeOf_spec]
    omega
  simp (disch := omega) [IndexedLoop.children, nodesBelow_toList, nodesBelow_with, nodesBelow_body,
    hiterand]

theorem nodesBelow_catch {c : CatchClause Node} (h : sizeOf c ≤ k) : NodesBelow k c.children := by
  obtain ⟨error, inParens, stmts⟩ := c
  rw [CatchClause.mk.sizeOf_spec] at h
  have hstmts : 1 ≤ sizeOf stmts := by cases stmts <;> simp +arith
  have herror : NodesBelow k (error.toList.map (Located.node .varDecl)) :=
    nodesBelow_locatedOption Form.varDecl.sizeOf_spec (by omega)
  simp (disch := omega) [CatchClause.children, nodesBelow_list, herror]

theorem nodesBelow_try {t : TryStmt Node} (h : sizeOf t ≤ k) : NodesBelow k t.children := by
  obtain ⟨isBang, isExpression, stmts, handlers⟩ := t
  rw [TryStmt.mk.sizeOf_spec] at h
  have hhandlers : NodesBelow k (handlers.map (Located.node .catchClause)) :=
    nodesBelow_located Form.catchClause.sizeOf_spec (by omega)
  simp (disch := omega) [TryStmt.children, nodesBelow_list, hhandlers]

theorem nodesBelow_function {f : FunctionDecl Node} (h : sizeOf f ≤ k) :
    NodesBelow k f.children := by
  obtain ⟨pragmas, linkage, visibility, kind, flags, name, receiver, formals, returnIntent,
    returnType, whereClause, body⟩ := f
  rw [FunctionDecl.mk.sizeOf_spec] at h
  have hreceiver : NodesBelow k (receiver.toList.map (Located.node .formal)) :=
    nodesBelow_locatedOption Form.formal.sizeOf_spec (by omega)
  have hbody : NodesBelow k (body.getD []) := by
    cases body with
    | none => exact nodesBelow_nil
    | some stmts =>
      rw [Option.some.sizeOf_spec] at h
      exact nodesBelow_list (l := stmts) (by omega)
  simp (disch := omega) [FunctionDecl.children, nodesBelow_linkage, nodesBelow_list,
    nodesBelow_toList, hreceiver, hbody]

theorem nodesBelow_arm {arm : WhenArm Node} (h : sizeOf arm ≤ k) :
    NodesBelow k arm.cases ∧ NodesBelow k arm.body.stmts := by
  obtain ⟨cases, body⟩ := arm
  rw [WhenArm.mk.sizeOf_spec] at h
  exact ⟨nodesBelow_list (l := cases) (by omega), nodesBelow_body (b := body) (by omega)⟩

theorem nodesBelow_element {e : EnumElement Node} (h : sizeOf e ≤ k) :
    NodesBelow k e.initExpr.toList := by
  obtain ⟨name, initExpr⟩ := e
  rw [EnumElement.mk.sizeOf_spec] at h
  exact nodesBelow_toList (o := initExpr) (by omega)

theorem nodesBelow_clause {c : VisibilityClause Node} (h : sizeOf c ≤ k) :
    sizeOf c.symbol < k ∧ NodesBelow k c.limitations := by
  obtain ⟨symbol, limitationKind, limitations⟩ := c
  rw [VisibilityClause.mk.sizeOf_spec] at h
  have hsymbol : sizeOf symbol < k := by omega
  exact ⟨hsymbol, nodesBelow_list (l := limitations) (by omega)⟩

theorem nodesBelow_withExprs {w : WithClause Node} (h : sizeOf w ≤ k) : NodesBelow k w.exprs := by
  obtain ⟨exprs⟩ := w
  rw [WithClause.mk.sizeOf_spec] at h
  exact nodesBelow_list (l := exprs) (by omega)

/-- The children of a construct are smaller than it. -/
theorem Form.childrenBelow (f : Form Node) : NodesBelow (sizeOf f) f.children := by
  suffices h : ∀ k, sizeOf f ≤ k → NodesBelow k f.children from h _ (Nat.le_refl _)
  intro k hk
  cases f
  all_goals simp at hk
  case jump kind target =>
    exact nodesBelow_locatedOption Form.identifier.sizeOf_spec (by omega)
  all_goals simp (disch := omega) [Form.children, nodesBelow_list, nodesBelow_toList,
    nodesBelow_body, nodesBelow_optionBody, nodesBelow_arm, nodesBelow_loop, nodesBelow_element,
    nodesBelow_clause, nodesBelow_withExprs, nodesBelow_actuals, nodesBelow_with, nodesBelow_catch,
    nodesBelow_try, nodesBelow_function, nodesBelow_linkage, nodesBelow_varDecl,
    nodesBelow_formal, nodesBelow_varArg, nodesBelow_taskVar, nodesBelow_tuple,
    nodesBelow_located Form.varDecl.sizeOf_spec, nodesBelow_located Form.visibilityClause.sizeOf_spec,
    nodesBelow_located Form.whenArm.sizeOf_spec, nodesBelow_located Form.enumElement.sizeOf_spec]
  all_goals omega

end Below

/-! ## All that is below a node -/

theorem Node.sizeOf_form_lt (n : Node) : sizeOf n.form < sizeOf n := by
  obtain ⟨info, form⟩ := n
  rw [form_mk, mk.sizeOf_spec]
  omega

/-- The nodes right below a node. -/
def Node.children (n : Node) : List Node := n.form.children

theorem Node.sizeOf_lt_of_mem_children {n m : Node} (h : m ∈ n.children) : sizeOf m < sizeOf n :=
  Nat.lt_trans (n.form.childrenBelow m h) n.sizeOf_form_lt

/-- A node and all that is below it, each with what is below it right after it. -/
def Node.subtrees (n : Node) : List Node := n :: n.children.attach.flatMap fun c => c.1.subtrees
termination_by sizeOf n
decreasing_by exact sizeOf_lt_of_mem_children c.2

/-- All that is below a construct. -/
def Form.descendants (f : Form Node) : List Node := f.children.flatMap Node.subtrees

/-- All that is below a node. -/
def Node.descendants (n : Node) : List Node := n.form.descendants

theorem Node.subtrees_eq (n : Node) : n.subtrees = n :: n.descendants := by
  rw [subtrees, descendants, Form.descendants]
  congr 1
  conv => rhs; rw [← List.attach_map_subtype_val n.form.children, List.flatMap_map]
  rfl

theorem Node.self_mem_subtrees (n : Node) : n ∈ n.subtrees := by
  rw [subtrees_eq]
  exact List.mem_cons_self

namespace Form

variable {f : Form Node} {c m : Node}

theorem mem_descendants_of_mem_children (h : m ∈ f.children) : m ∈ f.descendants :=
  List.mem_flatMap.2 ⟨m, h, m.self_mem_subtrees⟩

theorem mem_descendants_of_child (hc : c ∈ f.children) (hm : m ∈ c.descendants) :
    m ∈ f.descendants := by
  refine List.mem_flatMap.2 ⟨c, hc, ?_⟩
  rw [Node.subtrees_eq]
  exact List.mem_cons_of_mem _ hm

end Form

theorem Node.sizeOf_lt_of_mem_descendants {n m : Node} (h : m ∈ n.descendants) :
    sizeOf m < sizeOf n := by
  obtain ⟨c, hc, hm⟩ := List.mem_flatMap.1 h
  have hlt : sizeOf c < sizeOf n := sizeOf_lt_of_mem_children hc
  rw [subtrees_eq, List.mem_cons] at hm
  rcases hm with rfl | hm
  · exact hlt
  · exact Nat.lt_trans (sizeOf_lt_of_mem_descendants hm) hlt
termination_by sizeOf n

end ChapelSource
