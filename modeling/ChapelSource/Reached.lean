import ChapelSource.Visit

/-!
# What printing reaches

Whatever is reached from a node is below it in the tree, so a tree is gone through by recursion.

* `VisitsAmong`: visits of some given nodes.
* `Form.visits_among`, `componentVisits_among`: what is reached from a construct right away is below
  it.
* `Visit.reached`: all that is reached from a node, in the order in which it is checked.
* `Visit.reached_eq`: the equation between what is reached from a node and from its children.
-/

namespace ChapelSource

open Visit

/-! ## What is reached is below -/

/-- Only given nodes are visited. -/
def VisitsAmong (nodes : List Node) (vs : List Visit) : Prop := ∀ v ∈ vs, v.node ∈ nodes

section Among

variable {nodes : List Node}

@[simp] theorem visitsAmong_nil : VisitsAmong nodes [] := fun _ h => nomatch h

@[simp] theorem visitsAmong_append {vs ws : List Visit} :
    VisitsAmong nodes (vs ++ ws) ↔ VisitsAmong nodes vs ∧ VisitsAmong nodes ws :=
  List.forall_mem_append

theorem visitsAmong_map {role : Node → Role} {ns : List Node} :
    VisitsAmong nodes (ns.map fun n => ⟨role n, n⟩) ↔ ns ⊆ nodes := List.forall_mem_map

@[simp] theorem visitsAmong_wholes {ns : List Node} : VisitsAmong nodes (wholes ns) ↔ ns ⊆ nodes :=
  visitsAmong_map

@[simp] theorem visitsAmong_types {ns : List Node} : VisitsAmong nodes (types ns) ↔ ns ⊆ nodes :=
  visitsAmong_map

@[simp] theorem visitsAmong_components {ns : List Node} :
    VisitsAmong nodes (components ns) ↔ ns ⊆ nodes := visitsAmong_map

theorem VisitsAmong.mono {more : List Node} {vs : List Visit} (h : VisitsAmong nodes vs)
    (hsub : nodes ⊆ more) : VisitsAmong more vs := fun v hv => hsub (h v hv)

end Among

theorem LinkageClause.visits_among (c : LinkageClause Node) : VisitsAmong c.children c.visits := by
  unfold visits
  split
  · exact visitsAmong_wholes.2 (List.Subset.refl _)
  · exact visitsAmong_nil

theorem Binding.visits_among (b : Binding Node) : VisitsAmong b.children b.visits := by
  simp [visits, children]

theorem VarDecl.linkageVisits_among (v : VarDecl Node) : VisitsAmong v.children v.linkageVisits := by
  unfold linkageVisits
  split
  · exact visitsAmong_nil
  · exact v.linkage.visits_among.mono (List.subset_append_left _ _)

theorem VarDecl.visits_among (v : VarDecl Node) : VisitsAmong v.children v.binding.visits :=
  v.binding.visits_among.mono (List.subset_append_right _ _)

theorem TupleDecl.visits_among (t : TupleDecl Node) : VisitsAmong t.children t.visits := by
  simp [visits, children]

theorem TryStmt.visits_among (t : TryStmt Node) : VisitsAmong t.children t.visits := by
  unfold visits
  split <;> simp [children]

theorem reachedActuals_subset (callee : Node) (actuals : List (Actual Node)) :
    reachedActuals callee actuals ⊆ actuals.map Actual.value := by
  unfold reachedActuals
  split
  · exact List.map_subset _ (List.take_subset 1 actuals)
  · exact List.Subset.refl _

/-- Of the error of a handler its type is reached, which is not a child of the handler itself. -/
theorem CatchClause.visits_among (c : CatchClause Node) :
    VisitsAmong (Form.catchClause c).descendants c.visits := by
  refine visitsAmong_append.2
    ⟨visitsAmong_types.2 fun m hm => ?_, visitsAmong_wholes.2 fun m hm => ?_⟩
  · obtain ⟨e, he, hm⟩ := Option.bind_eq_some_iff.1 (Option.mem_toList.1 hm)
    have hchild : e.node .varDecl ∈ (Form.catchClause c).children :=
      List.mem_append_left _ (List.mem_map_of_mem (Option.mem_toList.2 he))
    have htype : m ∈ (Form.varDecl e.part).children :=
      List.mem_append_right _ (List.mem_append_left _ (Option.mem_toList.2 hm))
    exact Form.mem_descendants_of_child hchild (Form.mem_descendants_of_mem_children htype)
  · exact Form.mem_descendants_of_mem_children (List.mem_append_right _ hm)

/-- Of the receiver of a function its type is reached, which is not a child of the function itself. -/
theorem FunctionDecl.receiverVisits_among (f : FunctionDecl Node) :
    VisitsAmong (Form.function f).descendants f.receiverVisits := by
  refine visitsAmong_map.2 fun m hm => ?_
  rw [Option.mem_toList, receiverType?, Option.ite_none_left_eq_some] at hm
  obtain ⟨r, hr, hm⟩ := Option.bind_eq_some_iff.1 hm.2
  have hchild : r.node .formal ∈ (Form.function f).children := by
    simp only [Form.children, children, List.mem_append, List.mem_map, Option.mem_toList]
    exact .inl (.inl (.inl (.inl (.inr ⟨r, hr, rfl⟩))))
  have htype : m ∈ (Form.formal r.part).children :=
    List.mem_append_left _ (Option.mem_toList.2 hm)
  exact Form.mem_descendants_of_child hchild (Form.mem_descendants_of_mem_children htype)

theorem FunctionDecl.visits_among (f : FunctionDecl Node) :
    VisitsAmong (Form.function f).descendants f.visits := by
  have hrest : VisitsAmong f.children (wholes f.formals ++ types f.returnType.toList ++
      wholes f.whereClause.toList ++ wholes (f.body.getD [])) := by
    simp +contextual [children, List.subset_def]
  have hbelow := hrest.mono fun m => Form.mem_descendants_of_mem_children (f := .function f)
  simp only [visits, visitsAmong_append] at hbelow ⊢
  simp [f.receiverVisits_among, hbelow]

theorem Form.visits_among (f : Form Node) : VisitsAmong f.descendants f.visits := by
  suffices h : VisitsAmong f.children f.visits ∨ VisitsAmong f.descendants f.visits from
    h.elim (·.mono fun _ => mem_descendants_of_mem_children) id
  cases f
  case catchClause handler => exact .inr handler.visits_among
  case function decl => exact .inr decl.visits_among
  all_goals refine .inl ?_
  case fnCall callee actuals inBrackets =>
    exact visitsAmong_wholes.2 (List.cons_subset_cons _ (reachedActuals_subset callee actuals))
  case indexedLoop kind loop =>
    simp [visits, children, IndexedLoop.children, withVisits, withChildren, -List.append_assoc]
  case tryStmt attempt => exact attempt.visits_among
  case classDecl linkage name parent members =>
    have hlinkage := linkage.visits_among.mono
      (List.subset_append_left linkage.children (parent.toList ++ members))
    simp [visits, children, hlinkage]
  case aggregateDecl kind linkage name members =>
    have hlinkage := linkage.visits_among.mono (List.subset_append_left linkage.children members)
    simp [visits, children, hlinkage]
  case tupleDecl decl => exact decl.visits_among
  case varDecl decl =>
    exact visitsAmong_append.2 ⟨decl.linkageVisits_among, decl.visits_among⟩
  case formal decl => exact decl.binding.visits_among
  case varArgFormal decl =>
    have hbinding := decl.binding.visits_among.mono
      (List.subset_append_left decl.binding.children decl.count.toList)
    simp [visits, children, hbinding]
  case taskVar decl => exact decl.binding.visits_among
  case typeDecl linkage name => exact linkage.visits_among
  all_goals simp [visits, children, withVisits, withChildren]

theorem Form.leadingVisits_among (f : Form Node) : VisitsAmong f.descendants f.leadingVisits := by
  cases f
  case visibilityClause clause =>
    exact visitsAmong_wholes.2 fun m hm => mem_descendants_of_mem_children
      (List.mem_cons.2 (.inl (List.mem_singleton.1 hm)))
  case function decl =>
    refine decl.linkage.visits_among.mono fun m hm => mem_descendants_of_mem_children ?_
    simp [children, FunctionDecl.children, hm]
  case multiDecl decls =>
    -- The linkage is that of the first declaration, and so not a child of the whole.
    rcases decls with - | ⟨⟨info, form⟩, rest⟩
    · exact visitsAmong_nil
    · cases form
      case varDecl v =>
        refine v.linkageVisits_among.mono fun m hm => ?_
        exact mem_descendants_of_child (c := .mk info (.varDecl v)) List.mem_cons_self
          (mem_descendants_of_mem_children hm)
      all_goals exact visitsAmong_nil
  all_goals exact visitsAmong_nil

theorem componentVisits_among (f : Form Node) : VisitsAmong f.descendants (componentVisits f) := by
  suffices h : VisitsAmong f.children (componentVisits f) from
    h.mono fun _ => Form.mem_descendants_of_mem_children
  cases f
  case tupleDecl decl => exact decl.visits_among
  case varDecl decl => exact decl.visits_among
  case formal decl => exact decl.binding.visits_among
  case varArgFormal decl => exact decl.binding.visits_among.mono (List.subset_append_left _ _)
  case taskVar decl => exact decl.binding.visits_among
  all_goals exact visitsAmong_nil

/-! ## All that is reached -/

namespace Visit

theorem sizeOf_before_lt {v w : Visit} (h : w ∈ v.before) : sizeOf w.node < sizeOf v.node := by
  obtain ⟨role, n⟩ := v
  refine Node.sizeOf_lt_of_mem_descendants ?_
  cases role with
  | component => exact nomatch h
  | whole => exact n.form.leadingVisits_among w h
  | typeExpr => exact n.form.leadingVisits_among w h

theorem sizeOf_after_lt {v w : Visit} (h : w ∈ v.after) : sizeOf w.node < sizeOf v.node := by
  obtain ⟨role, n⟩ := v
  refine Node.sizeOf_lt_of_mem_descendants ?_
  cases role with
  | component => exact componentVisits_among n.form w h
  | whole => exact n.form.visits_among w h
  | typeExpr => exact n.form.visits_among w h

/-- All that is reached from a node, in the order in which it is checked. -/
def reached (v : Visit) : List Visit :=
  (v.before.attach.flatMap fun w => w.1.reached) ++ v :: v.after.attach.flatMap fun w => w.1.reached
termination_by sizeOf v.node
decreasing_by
  · exact sizeOf_before_lt w.2
  · exact sizeOf_after_lt w.2

/-- What is reached from a node is the node with what is reached from its children. -/
theorem reached_eq (v : Visit) :
    v.reached = v.before.flatMap reached ++ v :: v.after.flatMap reached := by
  rw [reached]
  congr 1
  · conv => rhs; rw [← List.attach_map_subtype_val v.before, List.flatMap_map]
  · congr 1
    conv => rhs; rw [← List.attach_map_subtype_val v.after, List.flatMap_map]

end Visit

/-- All that is reached from a node as a construct of its own. -/
def Node.reached (n : Node) : List Visit := Visit.reached ⟨.whole, n⟩

end ChapelSource
