import ChapelSource.Layout.Construct

/-!
# Layouts descend

The children in the layout of a node are smaller than the node, in whatever role it is laid out.
This is what lets the text of a tree be defined by recursion through layouts.

* `Layout.Below`: all children in a layout are smaller than a bound.
* `Form.below_layout`, **`Node.below_layout`**: the layout of a node lies below its size.
* `Node.inductionOnLayout`: what holds of a node whenever it holds of the children in its layouts,
  holds of all nodes.
-/

namespace ChapelSource

namespace Layout

/-- Every child in a layout is smaller than `k`. -/
def Below (k : Nat) (l : Layout) : Prop := ∀ role n, Item.child role n ∈ l → sizeOf n < k

section Below

variable {k : Nat}

/-! ## Items -/

@[simp] theorem below_nil : Below k [] := fun _ _ h => nomatch h

@[simp] theorem below_atom_cons {a : Atom} {l : Layout} :
    Below k (.atom a :: l) ↔ Below k l := by
  simp [Below]

@[simp] theorem below_operator_cons {s : String} {l : Layout} :
    Below k (.operator s :: l) ↔ Below k l := by
  simp [Below]

@[simp] theorem below_child_cons {role : Role} {n : Node} {l : Layout} :
    Below k (.child role n :: l) ↔ sizeOf n < k ∧ Below k l := by
  constructor
  · exact fun h => ⟨h role n List.mem_cons_self, fun r m hm => h r m (List.mem_cons_of_mem _ hm)⟩
  · rintro ⟨hn, hl⟩ r m hm
    rcases List.mem_cons.1 hm with heq | hm
    · exact (Item.child.inj heq).2 ▸ hn
    · exact hl r m hm

@[simp] theorem below_append {l m : Layout} : Below k (l ++ m) ↔ Below k l ∧ Below k m := by
  simp only [Below, List.mem_append]
  grind

@[simp] theorem below_whole {n : Node} : Below k (whole n) ↔ sizeOf n < k := by simp [whole]

@[simp] theorem below_asType {n : Node} : Below k (asType n) ↔ sizeOf n < k := by simp [asType]

@[simp] theorem below_component {n : Node} : Below k (component n) ↔ sizeOf n < k := by
  simp [component]

@[simp] theorem below_fault {e : PrintError} : Below k (fault e) := by simp [fault]

@[simp] theorem below_lineBreak : Below k lineBreak := by simp [lineBreak]

@[simp] theorem below_literal {marker body : String} : Below k (literal marker body) := by
  simp [literal]

@[simp] theorem below_operator {s : String} : Below k (Layout.operator s) := by
  simp [Layout.operator]

@[simp] theorem below_wordOrFault {e : Except PrintError String} : Below k (wordOrFault e) := by
  cases e <;> simp [wordOrFault]

/-! ## Composition -/

@[simp] theorem below_parenthesized {l : Layout} : Below k (parenthesized l) ↔ Below k l := by
  simp [parenthesized]

@[simp] theorem below_grouped {b : Bool} {n : Node} : Below k (grouped b n) ↔ sizeOf n < k := by
  cases b <;> simp [grouped]

theorem below_ifTrue {b : Bool} {l : Layout} (h : Below k l) : Below k (ifTrue b l) := by
  cases b <;> simp [ifTrue, h]

theorem below_ifSome {β : Type} {o : Option β} {f : β → Layout} (h : ∀ a ∈ o, Below k (f a)) :
    Below k (ifSome o f) := by
  cases o <;> simp_all [ifSome]

theorem below_flatMap {β : Type} {xs : List β} {f : β → Layout} (h : ∀ x ∈ xs, Below k (f x)) :
    Below k (xs.flatMap f) := by
  intro role n hn
  obtain ⟨x, hx, hn⟩ := List.mem_flatMap.1 hn
  exact h x hx role n hn

theorem below_join {separator : Layout} (hs : Below k separator) :
    ∀ {parts : List Layout}, (∀ p ∈ parts, Below k p) → Below k (join separator parts)
  | [], _ => by simp [join, List.intercalate]
  | [p], h => by simpa [join, List.intercalate] using h p
  | p :: q :: rest, h => by
    have ih : Below k (join separator (q :: rest)) :=
      below_join hs fun r hr => h r (List.mem_cons_of_mem _ hr)
    simp only [join, List.intercalate, List.intersperse, List.flatten_cons, below_append] at ih ⊢
    exact ⟨h p List.mem_cons_self, hs, ih⟩

theorem below_join_map {β : Type} {separator : Layout} {xs : List β} {f : β → Layout}
    (hs : Below k separator) (h : ∀ x ∈ xs, Below k (f x)) :
    Below k (join separator (xs.map f)) :=
  below_join hs fun p hp => by
    obtain ⟨x, hx, rfl⟩ := List.mem_map.1 hp
    exact h x hx

/-! ## Bounds on what a layout is made of -/

theorem sizeOf_lt_of_mem_option {β : Type} [SizeOf β] {o : Option β} {a : β} (h : a ∈ o) :
    sizeOf a < sizeOf o := by
  rw [Option.mem_def] at h
  subst h
  simp

theorem below_ifSome_node {o : Option Node} {f : Node → Layout} (h : sizeOf o ≤ k)
    (hf : ∀ n, sizeOf n < k → Below k (f n)) : Below k (ifSome o f) :=
  below_ifSome fun n hn => hf n (Nat.lt_of_lt_of_le (sizeOf_lt_of_mem_option hn) h)

theorem sizeOf_part_lt {β : Type} [SizeOf β] (p : Located β) : sizeOf p.part < sizeOf p := by
  obtain ⟨info, part⟩ := p
  simp only [Located.mk.sizeOf_spec]
  omega

/-- An optional part lies below a construct if any part of its size does. -/
theorem below_ifSome_located {β : Type} [SizeOf β] {o : Option (Located β)}
    {f : Located β → Layout} (h : sizeOf o ≤ k)
    (hf : ∀ p : Located β, sizeOf p.part ≤ k → Below k (f p)) : Below k (ifSome o f) := by
  refine below_ifSome fun p hp => hf p ?_
  have := sizeOf_lt_of_mem_option hp
  have := sizeOf_part_lt p
  omega

theorem sizeOf_part_le {β : Type} [SizeOf β] {parts : List (Located β)} {p : Located β}
    (hp : p ∈ parts) (h : sizeOf parts ≤ k) : sizeOf p.part ≤ k := by
  have := List.sizeOf_lt_of_mem hp
  have := sizeOf_part_lt p
  omega

theorem below_listing {comments : Bool} {separator : Layout} {nodes : List Node}
    (hs : Below k separator) (h : sizeOf nodes ≤ k) :
    Below k (listing comments separator nodes) :=
  below_join_map hs fun n hn => by
    have := List.sizeOf_lt_of_mem (List.mem_filter.1 hn).1
    exact below_whole.2 (by omega)

theorem below_commaList {comments : Bool} {nodes : List Node} (h : sizeOf nodes ≤ k) :
    Below k (commaList comments nodes) :=
  below_listing (by simp) h

theorem below_lines {comments : Bool} {nodes : List Node} (h : sizeOf nodes ≤ k) :
    Below k (lines comments nodes) :=
  below_listing (by simp) h

theorem below_braced {comments : Bool} {nodes : List Node} (h : sizeOf nodes ≤ k) :
    Below k (braced comments nodes) := by
  simp [braced, below_lines h]

theorem below_body {comments : Bool} {keyword : String} {b : Body Node} (h : sizeOf b ≤ k) :
    Below k (b.layout comments keyword) := by
  obtain ⟨style, stmts⟩ := b
  simp only [Body.mk.sizeOf_spec] at h
  cases style <;> simp (disch := omega) [Body.layout, below_braced, below_lines]

theorem below_plainBody {comments : Bool} {b : Body Node} (h : sizeOf b ≤ k) :
    Below k (b.plainLayout comments) :=
  below_body h

theorem below_components {nodes : List Node} {separator : Layout} (hs : Below k separator)
    (h : sizeOf nodes ≤ k) : Below k (join separator (nodes.map component)) :=
  below_join_map hs fun n hn => by
    have := List.sizeOf_lt_of_mem hn
    simp
    omega

/-! ## Expressions -/

theorem below_opCall {op : String} {actuals : List Node} (h : sizeOf actuals ≤ k) :
    Below k (opCallLayout op actuals) := by
  simp only [opCallLayout]
  split
  · rename_i a
    simp only [List.cons.sizeOf_spec] at h
    have ha : sizeOf a < k := by omega
    split <;> simp [operand, ha]
  · rename_i a b
    simp only [List.cons.sizeOf_spec] at h
    have ha : sizeOf a < k := by omega
    have hb : sizeOf b < k := by omega
    simp [operand, ha, hb]
  · simp

theorem below_actual {a : Actual Node} (h : sizeOf a ≤ k) : Below k a.layout := by
  obtain ⟨name, value⟩ := a
  simp only [Actual.mk.sizeOf_spec] at h
  simp only [Actual.layout, below_append, below_whole]
  exact ⟨below_ifSome fun _ _ => by simp, by omega⟩

theorem below_actuals {actuals : List (Actual Node)} {separator : Layout}
    (hs : Below k separator) (h : sizeOf actuals ≤ k) :
    Below k (join separator (actuals.map Actual.layout)) :=
  below_join_map hs fun a ha => by
    have := List.sizeOf_lt_of_mem ha
    exact below_actual (by omega)

theorem below_reservedOperand {actuals : List (Actual Node)} (h : sizeOf actuals ≤ k) :
    Below k (reservedOperand actuals) := by
  cases actuals with
  | nil => simp [reservedOperand]
  | cons a rest =>
    obtain ⟨name, value⟩ := a
    simp only [List.cons.sizeOf_spec, Actual.mk.sizeOf_spec] at h
    have hv : sizeOf value < k := by omega
    simp [reservedOperand, hv]

theorem below_fnCall {callee : Node} {actuals : List (Actual Node)} {inBrackets : Bool}
    (hc : sizeOf callee < k) (h : sizeOf actuals ≤ k) :
    Below k (fnCallLayout callee actuals inBrackets) := by
  unfold fnCallLayout actualsLayout
  split <;> try split
  all_goals simp [tight, hc, below_reservedOperand h, below_actuals _ h]

theorem below_furtherActuals {actuals : List Node} (h : sizeOf actuals ≤ k) :
    Below k (furtherActuals actuals) :=
  below_flatMap fun n hn => by
    have hlt : sizeOf n < k := Nat.lt_of_lt_of_le (List.sizeOf_lt_of_mem hn) h
    simp [hlt]

theorem below_domain {comments : Bool} {exprs : List Node} (h : sizeOf exprs ≤ k) :
    Below k (domainLayout comments exprs) := by
  simp only [domainLayout]
  split
  · simp
  · split
    · simp only [List.cons.sizeOf_spec] at h
      exact below_whole.2 (by omega)
    · simp [below_commaList h]
  · simp [below_commaList h]

theorem below_new {management : Option Management} {typeExpr : Node} (h : sizeOf typeExpr < k) :
    Below k (newLayout management typeExpr) := by
  have : Below k (ifSome management fun m => m.keyword ++ " ") := below_ifSome fun _ _ => by simp
  simp_all [newLayout]

theorem below_primCall {prim : Primitive} {actuals : List Node} (h : sizeOf actuals ≤ k) :
    Below k (primCallLayout prim actuals) := by
  simp [primCallLayout, below_furtherActuals h]

theorem below_range {bound : RangeBound} {lower upper : Option Node} (hl : sizeOf lower ≤ k)
    (hu : sizeOf upper ≤ k) : Below k (rangeLayout bound lower upper) := by
  have : Below k (ifSome lower whole) := below_ifSome_node hl fun n hn => by simp [hn]
  have : Below k (ifSome upper whole) := below_ifSome_node hu fun n hn => by simp [hn]
  simp_all [rangeLayout]

theorem below_tuple {comments : Bool} {exprs : List Node} (h : sizeOf exprs ≤ k) :
    Below k (tupleLayout comments exprs) := by
  simp [tupleLayout, below_commaList h, below_ifTrue]

theorem below_return {value : Option Node} (h : sizeOf value ≤ k) :
    Below k (ifSome value (" " ++ whole ·)) :=
  below_ifSome_node h fun n hn => by simp [hn]

/-! ## Declarations -/

theorem below_pragmas {pragmas : List Pragma} : Below k (pragmasLayout pragmas) :=
  below_flatMap fun _ _ => by simp

theorem below_linkage {c : LinkageClause Node} (h : sizeOf c ≤ k) : Below k c.layout := by
  obtain ⟨linkage, name⟩ := c
  simp only [LinkageClause.mk.sizeOf_spec] at h
  refine below_ifSome fun l _ => ?_
  simp only [below_append, below_atom_cons, below_nil, true_and]
  exact below_ifSome_node (by omega) fun n hn => by simp [hn]

theorem below_visibility {v : Option Visibility} : Below k (visibilityLayout v) :=
  below_ifSome fun _ _ => by simp

theorem below_intent {i : Option Intent} : Below k (intentLayout i) :=
  below_ifSome fun _ _ => by simp

theorem below_requiredIntent {i : Option Intent} : Below k (requiredIntent i) := by
  simp [requiredIntent]

theorem below_type {o : Option Node} (h : sizeOf o ≤ k) : Below k (typeLayout o) :=
  below_ifSome_node h fun n hn => by simp [hn]

theorem below_init {o : Option Node} (h : sizeOf o ≤ k) : Below k (initLayout o) :=
  below_ifSome_node h fun n hn => by simp [hn]

theorem below_binding {b : Binding Node} (h : sizeOf b ≤ k) : Below k b.layout := by
  obtain ⟨name, typeExpr, initExpr⟩ := b
  simp only [Binding.mk.sizeOf_spec] at h
  simp (disch := omega) [Binding.layout, below_type, below_init]

theorem below_decoration {v : VarDecl Node} (h : sizeOf v ≤ k) : Below k v.decorationLayout := by
  obtain ⟨pragmas, linkage, isConfig, kind, binding⟩ := v
  simp only [VarDecl.mk.sizeOf_spec] at h
  simp only [VarDecl.decorationLayout, VarDecl.linkageLayout, below_append]
  refine ⟨below_pragmas, ?_⟩
  split
  · simp
  · exact below_linkage (by omega)

theorem below_varBinding {v : VarDecl Node} (h : sizeOf v ≤ k) : Below k v.binding.layout := by
  obtain ⟨pragmas, linkage, isConfig, kind, binding⟩ := v
  simp only [VarDecl.mk.sizeOf_spec] at h
  exact below_binding (b := binding) (by omega)

theorem below_let {decls : List (Located (VarDecl Node))} (h : sizeOf decls ≤ k) :
    Below k (join ", " (decls.map fun d => d.part.binding.layout)) :=
  below_join_map (by simp) fun d hd => below_varBinding (sizeOf_part_le hd h)

theorem below_varDecl {v : VarDecl Node} (h : sizeOf v ≤ k) : Below k v.layout := by
  simp [VarDecl.layout, below_decoration h, below_intent, below_varBinding h]

theorem below_formalBinding {f : Formal Node} (h : sizeOf f ≤ k) : Below k f.binding.layout := by
  obtain ⟨pragmas, intent, binding⟩ := f
  simp only [Formal.mk.sizeOf_spec] at h
  exact below_binding (b := binding) (by omega)

theorem below_formal {f : Formal Node} (h : sizeOf f ≤ k) : Below k f.layout := by
  simp [Formal.layout, below_pragmas, below_intent, below_formalBinding h]

theorem below_varArgBinding {f : VarArgFormal Node} (h : sizeOf f ≤ k) :
    Below k f.binding.layout := by
  obtain ⟨intent, binding, count⟩ := f
  simp only [VarArgFormal.mk.sizeOf_spec] at h
  exact below_binding (b := binding) (by omega)

theorem below_varArgFormal {f : VarArgFormal Node} (h : sizeOf f ≤ k) : Below k f.layout := by
  have hb := below_varArgBinding h
  obtain ⟨intent, binding, count⟩ := f
  simp only [VarArgFormal.mk.sizeOf_spec] at h
  have hc : Below k (ifSome count whole) := below_ifSome_node (by omega) fun n hn => by simp [hn]
  simp_all [VarArgFormal.layout, below_intent]

theorem below_taskBinding {t : TaskVar Node} (h : sizeOf t ≤ k) : Below k t.binding.layout := by
  obtain ⟨intent, binding⟩ := t
  simp only [TaskVar.mk.sizeOf_spec] at h
  exact below_binding (b := binding) (by omega)

theorem below_taskVar {t : TaskVar Node} (h : sizeOf t ≤ k) : Below k t.layout := by
  simp [TaskVar.layout, below_requiredIntent, below_taskBinding h]

theorem below_enumElement {e : EnumElement Node} (h : sizeOf e ≤ k) : Below k e.layout := by
  obtain ⟨name, initExpr⟩ := e
  simp only [EnumElement.mk.sizeOf_spec] at h
  simp (disch := omega) [EnumElement.layout, below_init]

theorem below_contents {t : TupleDecl Node} (h : sizeOf t ≤ k) : Below k t.contentsLayout := by
  obtain ⟨intent, decls, typeExpr, initExpr⟩ := t
  simp only [TupleDecl.mk.sizeOf_spec] at h
  simp (disch := first | omega | simp) [TupleDecl.contentsLayout, below_components, below_type,
    below_init, below_ifTrue]

theorem below_tupleDecl {t : TupleDecl Node} (h : sizeOf t ≤ k) : Below k t.layout := by
  simp [TupleDecl.layout, below_intent, below_contents h]

theorem below_componentLayout {n : Node} (h : sizeOf n ≤ k) : Below k (componentLayout n) := by
  obtain ⟨info, form⟩ := n
  simp only [Node.mk.sizeOf_spec] at h
  cases form <;> simp only [componentLayout, Node.form_mk, below_fault]
  all_goals simp only [Form.tupleDecl.sizeOf_spec, Form.varDecl.sizeOf_spec, Form.formal.sizeOf_spec,
    Form.varArgFormal.sizeOf_spec, Form.taskVar.sizeOf_spec] at h
  · exact below_formalBinding (by omega)
  · exact below_taskBinding (by omega)
  · exact below_contents (by omega)
  · exact below_varArgBinding (by omega)
  · exact below_varBinding (by omega)

theorem below_multiDecl {decls : List Node} (h : sizeOf decls ≤ k) :
    Below k (multiDeclLayout decls) := by
  have hc : Below k (join ", " (decls.map component)) := below_components (by simp) h
  unfold multiDeclLayout
  split
  · simp
  · rename_i first rest
    obtain ⟨info, form⟩ := first
    simp only [List.cons.sizeOf_spec, Node.mk.sizeOf_spec] at h
    simp only [Node.form_mk]
    split
    · rename_i v
      have : Below k v.decorationLayout := below_decoration (by simp at h; omega)
      simp_all [below_requiredIntent]
    · simp_all [below_requiredIntent]
    · simp

theorem below_limitation {comments : Bool} {kind : LimitationKind} {limitations : List Node}
    (h : sizeOf limitations ≤ k) : Below k (limitationLayout comments kind limitations) := by
  simp only [limitationLayout]
  split
  · simp [below_commaList h]
  · simp
  · rename_i limitation
    simp only [List.cons.sizeOf_spec] at h
    have hl : sizeOf limitation < k := by omega
    split <;> simp [hl]
  · simp [below_ifTrue, below_commaList h]

theorem below_visibilityClause {comments : Bool} {c : VisibilityClause Node} (h : sizeOf c ≤ k) :
    Below k (c.layout comments) := by
  obtain ⟨symbol, kind, limitations⟩ := c
  simp only [VisibilityClause.mk.sizeOf_spec] at h
  simp (disch := omega) only [VisibilityClause.layout, below_append, below_whole,
    below_limitation, and_true]
  omega

theorem below_access {comments : Bool} {kind : AccessKind} {visibility : Option Visibility}
    {clauses : List (Located (VisibilityClause Node))} (h : sizeOf clauses ≤ k) :
    Below k (accessLayout comments kind visibility clauses) := by
  simp only [accessLayout, below_append, below_visibility, below_atom_cons, below_nil, true_and]
  exact below_join_map (by simp) fun c hc => below_visibilityClause (sizeOf_part_le hc h)

theorem below_class {comments : Bool} {linkage : LinkageClause Node} {name : String}
    {parent : Option Node} {members : List Node} (hl : sizeOf linkage ≤ k)
    (hp : sizeOf parent ≤ k) (h : sizeOf members ≤ k) :
    Below k (classLayout comments linkage name parent members) := by
  have : Below k (ifSome parent (": " ++ asType · ++ " ")) :=
    below_ifSome_node hp fun n hn => by simp [hn]
  simp_all [classLayout, below_linkage, below_braced]

theorem below_aggregate {comments : Bool} {kind : AggregateKind} {linkage : LinkageClause Node}
    {name : String} {members : List Node} (hl : sizeOf linkage ≤ k) (h : sizeOf members ≤ k) :
    Below k (aggregateLayout comments kind linkage name members) := by
  simp [aggregateLayout, below_linkage hl, below_braced h]

theorem below_enum {name : String} {elements : List (Located (EnumElement Node))}
    (h : sizeOf elements ≤ k) : Below k (enumLayout name elements) := by
  have : Below k (join ", " (elements.map fun e => e.part.layout)) :=
    below_join_map (by simp) fun e he => below_enumElement (sizeOf_part_le he h)
  simp [enumLayout, this]

theorem below_module {comments : Bool} {visibility : Option Visibility} {kind : Option ModuleKind}
    {name : String} {stmts : List Node} (h : sizeOf stmts ≤ k) :
    Below k (moduleLayout comments visibility kind name stmts) := by
  have : Below k (ifSome (kind.bind ModuleKind.keyword?) (fun w => w ++ " ")) :=
    below_ifSome fun _ _ => by simp
  simp_all [moduleLayout, below_visibility, below_braced]

theorem below_include {visibility : Option Visibility} {isPrototype : Bool} {name : String} :
    Below k (includeLayout visibility isPrototype name) := by
  simp [includeLayout, below_visibility, below_ifTrue]

/-! ## Functions -/

theorem below_receiver {isPrimary : Bool} {r : Formal Node} (h : sizeOf r ≤ k) :
    Below k (receiverLayout isPrimary r) := by
  obtain ⟨pragmas, intent, name, typeExpr, initExpr⟩ := r
  simp only [Formal.mk.sizeOf_spec, Binding.mk.sizeOf_spec] at h
  simp only [receiverLayout, below_append, below_intent, true_and]
  refine below_ifTrue ?_
  cases typeExpr with
  | none => simp [receiverTypeLayout]
  | some t =>
    simp only [Option.some.sizeOf_spec] at h
    have ht : sizeOf t < k := by omega
    simp only [receiverTypeLayout, receiverType]
    split <;> simp [ht]

theorem below_signature (comments : Bool) {f : FunctionDecl Node} (h : sizeOf f ≤ k) :
    Below k (f.signatureLayout comments) ∧ Below k (f.headLayout comments) := by
  have hh : Below k (f.headLayout comments) := by
    obtain ⟨pragmas, linkage, visibility, kind, flags, name, receiver, formals, returnIntent,
      returnType, whereClause, body⟩ := f
    simp only [FunctionDecl.mk.sizeOf_spec] at h
    simp only [FunctionDecl.headLayout, below_append, below_atom_cons, below_nil, and_true]
    refine ⟨below_ifSome_located (by omega) fun r hr => below_receiver hr, below_ifTrue ?_⟩
    simp (disch := omega) [below_commaList]
  simp [FunctionDecl.signatureLayout, below_visibility, hh]

theorem below_function {comments : Bool} {f : FunctionDecl Node} (h : sizeOf f ≤ k) :
    Below k (f.layout comments) := by
  have hh := (below_signature comments h).2
  obtain ⟨pragmas, linkage, visibility, kind, flags, name, receiver, formals, returnIntent,
    returnType, whereClause, body⟩ := f
  simp only [FunctionDecl.mk.sizeOf_spec] at h
  have hl : Below k linkage.layout := below_linkage (by omega)
  have hr : Below k (ifSome returnIntent fun i => " " ++ i.keyword) :=
    below_ifSome fun _ _ => by simp
  have ht : Below k (typeLayout returnType) := below_type (by omega)
  have hw : Below k (ifSome whereClause (" where " ++ whole ·)) :=
    below_ifSome_node (by omega) fun n hn => by simp [hn]
  have hb : Below k (functionBodyLayout comments body) := by
    cases body with
    | none => simp [functionBodyLayout]
    | some stmts =>
      simp only [Option.some.sizeOf_spec] at h
      simp (disch := omega) [functionBodyLayout, below_braced]
  simp_all [FunctionDecl.layout, leadLayout, endLayout, resultLayout, below_pragmas,
    below_visibility, below_ifTrue]

/-! ## Statements -/

theorem below_withClause {comments : Bool} {w : WithClause Node} (h : sizeOf w ≤ k) :
    Below k (w.layout comments) := by
  obtain ⟨exprs⟩ := w
  simp only [WithClause.mk.sizeOf_spec] at h
  simp (disch := omega) [WithClause.layout, below_commaList]

theorem below_optionalWith (comments : Bool) {w : Option (Located (WithClause Node))}
    (h : sizeOf w ≤ k) : Below k (ifSome w fun p => p.part.layout comments ++ " ") :=
  below_ifSome_located h fun p hp => by simp [below_withClause hp]

theorem below_begin {comments : Bool} {w : Option (Located (WithClause Node))} {body : Body Node}
    (hw : sizeOf w ≤ k) (h : sizeOf body ≤ k) : Below k (beginLayout comments w body) := by
  have := below_optionalWith comments hw
  simp_all [beginLayout, below_plainBody]

theorem below_cobegin {comments : Bool} {w : Option (Located (WithClause Node))}
    {tasks : List Node} (hw : sizeOf w ≤ k) (h : sizeOf tasks ≤ k) :
    Below k (cobeginLayout comments w tasks) := by
  have := below_optionalWith comments hw
  simp_all [cobeginLayout, below_braced]

theorem below_loopIndex {index : Option Node} (h : sizeOf index ≤ k) :
    Below k (loopIndexLayout index) :=
  below_ifSome_node h fun n hn => by simp [hn]

theorem below_loop {comments : Bool} {kind : LoopKind} {l : IndexedLoop Node} (h : sizeOf l ≤ k) :
    Below k (l.layout comments kind) := by
  obtain ⟨index, iterand, withClause, body⟩ := l
  simp only [IndexedLoop.mk.sizeOf_spec] at h
  have hi : Below k (loopIndexLayout index) := below_loopIndex (by omega)
  have hn : sizeOf iterand < k := by omega
  have hw : Below k (ifSome withClause fun w => " " ++ w.part.layout comments) :=
    below_ifSome_located (by omega) fun p hp => by simp [below_withClause hp]
  have hb : ∀ keyword, Below k (body.layout comments keyword) := fun _ => below_body (by omega)
  have hp : Below k (body.plainLayout comments) := below_plainBody (by omega)
  cases kind <;>
    simp_all [IndexedLoop.layout, IndexedLoop.keywordLayout, IndexedLoop.bracketLayout,
      IndexedLoop.headLayout, below_ifTrue]

theorem below_for {comments : Bool} {index : Option Node} {iterand : Node} {isParam : Bool}
    {body : Body Node} (hi : sizeOf index ≤ k) (hn : sizeOf iterand < k) (h : sizeOf body ≤ k) :
    Below k (forLayout comments index iterand isParam body) := by
  simp [forLayout, below_ifTrue, below_loopIndex hi, hn, below_body h]

theorem below_jump {kind : JumpKind} {target : Option (Located String)} :
    Below k (jumpLayout kind target) := by
  have : Below k (ifSome target fun t => " " ++ t.part) := below_ifSome fun _ _ => by simp
  simp_all [jumpLayout]

theorem below_label {name : String} {loop : Node} (h : sizeOf loop < k) :
    Below k (labelLayout name loop) := by
  unfold labelLayout
  split <;> simp [h]

theorem below_conditional {comments : Bool} {condition : Node} {thenBody : Body Node}
    {elseBody : Option (Body Node)} (hc : sizeOf condition < k) (ht : sizeOf thenBody ≤ k)
    (he : sizeOf elseBody ≤ k) :
    Below k (conditionalLayout comments condition thenBody elseBody) := by
  have : Below k (ifSome elseBody fun b => " else " ++ b.plainLayout comments) :=
    below_ifSome fun b hb => by
      have := sizeOf_lt_of_mem_option hb
      simp (disch := omega) [below_plainBody]
  simp_all [conditionalLayout, below_body]

theorem below_whenArm {comments : Bool} {arm : WhenArm Node} (h : sizeOf arm ≤ k) :
    Below k (arm.layout comments) := by
  obtain ⟨cases, body⟩ := arm
  simp only [WhenArm.mk.sizeOf_spec] at h
  have hb : Below k (body.layout comments "do ") := below_body (by omega)
  simp only [WhenArm.layout, WhenArm.headLayout, below_append, hb, and_true]
  split <;> simp (disch := omega) [below_commaList]

theorem below_select {comments : Bool} {scrutinee : Node} {arms : List (Located (WhenArm Node))}
    (hs : sizeOf scrutinee < k) (h : sizeOf arms ≤ k) :
    Below k (selectLayout comments scrutinee arms) := by
  have : Below k (join lineBreak (arms.map fun a => a.part.layout comments)) :=
    below_join_map (by simp) fun a ha => below_whenArm (sizeOf_part_le ha h)
  simp [selectLayout, hs, this]

theorem below_caught {inParens : Bool} {v : VarDecl Node} (h : sizeOf v ≤ k) :
    Below k (caughtGroup inParens v) := by
  obtain ⟨pragmas, linkage, isConfig, kind, name, typeExpr, initExpr⟩ := v
  simp only [VarDecl.mk.sizeOf_spec, Binding.mk.sizeOf_spec] at h
  have : Below k (ifSome typeExpr (" : " ++ asType ·)) :=
    below_ifSome_node (by omega) fun n hn => by simp [hn]
  unfold caughtGroup
  split <;> simp_all [caughtLayout]

theorem below_catch (comments : Bool) {c : CatchClause Node} (h : sizeOf c ≤ k) :
    Below k (c.layout comments) := by
  obtain ⟨error, inParens, stmts⟩ := c
  simp only [CatchClause.mk.sizeOf_spec] at h
  have : Below k (ifSome error fun e => caughtGroup inParens e.part ++ " ") :=
    below_ifSome_located (by omega) fun p hp => by simp [below_caught hp]
  simp (disch := omega) [CatchClause.layout, this, below_braced]

theorem below_try {comments : Bool} {t : TryStmt Node} (h : sizeOf t ≤ k) :
    Below k (t.layout comments) := by
  obtain ⟨isBang, isExpression, stmts, handlers⟩ := t
  simp only [TryStmt.mk.sizeOf_spec] at h
  have : Below k (handlersLayout comments handlers) := below_flatMap fun c hc => by
    have := below_catch comments (sizeOf_part_le hc (k := k) (by omega))
    simp [this]
  simp only [TryStmt.layout, TryStmt.guardedLayout, below_append, below_atom_cons, below_nil,
    true_and]
  split <;> simp (disch := omega) [this, below_lines, below_braced]

theorem below_guarded {comments : Bool} {kind : GuardKind} {condition : Option Node}
    {body : Body Node} (hc : sizeOf condition ≤ k) (h : sizeOf body ≤ k) :
    Below k (guardedLayout comments kind condition body) := by
  have : Below k (ifSome condition (whole · ++ " ")) :=
    below_ifSome_node hc fun n hn => by simp [hn]
  simp [guardedLayout, this, below_body h]

theorem below_manage {comments : Bool} {managers : List Node} {body : Body Node}
    (hm : sizeOf managers ≤ k) (h : sizeOf body ≤ k) :
    Below k (manageLayout comments managers body) := by
  simp [manageLayout, below_commaList hm, below_body h]

theorem below_on {comments : Bool} {destination : Node} {body : Body Node}
    (hd : sizeOf destination < k) (h : sizeOf body ≤ k) :
    Below k (onLayout comments destination body) := by
  simp [onLayout, hd, below_body h]

end Below

end Layout

open Layout

/-! ## Any node -/

theorem Form.below_layout (comments : Bool) (f : Form Node) :
    Below (sizeOf f) (f.layout comments) := by
  suffices h : ∀ k, sizeOf f ≤ k → Below k (f.layout comments) from h _ (Nat.le_refl _)
  intro k hk
  cases f
  case returnStmt value =>
    simp only [Form.returnStmt.sizeOf_spec] at hk
    have : Below k (ifSome value (" " ++ whole ·)) := below_return (by omega)
    simp_all [Form.layout]
  case comment => exact below_ifTrue (by simp)
  all_goals simp at hk
  all_goals simp (disch := omega) [Form.layout, tight, quotedLayout, foreignLayout,
    reductionLayout, whileLayout, doWhileLayout, below_commaList, below_domain, below_fnCall,
    below_let, below_new, below_opCall, below_primCall, below_range, below_tuple, below_begin,
    below_plainBody, below_body, below_loop, below_jump, below_catch, below_cobegin,
    below_conditional, below_for, below_access, below_include, below_label, below_guarded,
    below_manage, below_on, below_select, below_try, below_whenArm, below_class, below_aggregate,
    below_enum, below_enumElement, below_formal, below_function, below_module, below_multiDecl,
    below_taskVar, below_tupleDecl, below_linkage, below_varArgFormal, below_varDecl,
    below_visibilityClause, below_withClause]
  all_goals omega

/-- **The children in the layout of a node are smaller than the node.** -/
theorem Node.below_layout (comments : Bool) (role : Role) (n : Node) :
    Below (sizeOf n) (n.layout comments role) := by
  have hf : Below (sizeOf n) (n.form.layout comments) := by
    obtain ⟨info, form⟩ := n
    intro role m hm
    have := form.below_layout comments role m hm
    simp only [Node.mk.sizeOf_spec]
    omega
  cases role with
  | component => exact below_componentLayout (Nat.le_refl _)
  | whole => exact hf
  | typeExpr => exact hf

/-- Induction through layouts. -/
theorem Node.inductionOnLayout {motive : Node → Prop}
    (step : ∀ n, (∀ comments role r m, Item.child r m ∈ n.layout comments role → motive m) →
      motive n) (n : Node) : motive n :=
  step n fun comments role r m h =>
    have : sizeOf m < sizeOf n := n.below_layout comments role r m h
    inductionOnLayout step m
termination_by sizeOf n

end ChapelSource
