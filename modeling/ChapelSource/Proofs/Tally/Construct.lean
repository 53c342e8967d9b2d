import ChapelSource.Proofs.Tally.Layout

/-!
# The tally of constructs

The layout of a construct amounts to its leading children, the construct itself and its other
children, in this order: its children stand in its layout as they are visited, its fault stands where
the grammar is broken, and it has the line breaks that it writes itself.

* `tally_formLayout`: constructs of their own.
* `tally_componentLayout`: constructs that are written as components.
* **`Node.tally_layout`**: a node in a role amounts to all that is reached from there.
-/

namespace ChapelSource

open Visit Layout

variable {comments : Bool}

/-- A construct without line breaks of its own amounts to its fault. -/
theorem Form.tally_of_no_lineBreaks {f : Form Node} (h : f.lineBreaks comments = 0) :
    f.tally comments = f.fault?.elim 0 .fault := by
  rw [tally, h]
  rfl

/-! ## Parts that are written in their parents -/

/-- A part that is written in its parent amounts to the part as a node. -/
theorem tally_located {β : Type} (wrap : β → Form Node) {f : Located β → Layout}
    (h : ∀ p : Located β, tally comments (f p) = tallyOf comments (wrap p.part).leadingVisits +
      (wrap p.part).tally comments + tallyOf comments (wrap p.part).visits) (p : Located β) :
    tally comments (f p) = tallyOf comments [⟨.whole, p.node wrap⟩] := by
  rw [h, tallyOf_singleton]
  rfl

/-! ## Expressions -/

theorem tally_opCall (op : String) (actuals : List Node) :
    tally comments (opCallLayout op actuals) =
      (Form.opCall op actuals).tally comments + tallyOf comments (wholes actuals) := by
  rw [Form.tally_of_no_lineBreaks rfl]
  rcases actuals with - | ⟨a, - | ⟨b, - | ⟨c, rest⟩⟩⟩
  · rfl
  · simp only [opCallLayout]
    split <;> simp [Form.fault?, operand]
  · simp [opCallLayout, Form.fault?, operand]
  · rfl

theorem tally_actual (a : Actual Node) :
    tally comments a.layout = tallyOf comments [⟨.whole, a.value⟩] := by
  rw [Actual.layout, tally_append, tally_ifSome_text _ (by simp), zero_add, tally_whole]

theorem tally_actuals (actuals : List (Actual Node)) (inBrackets : Bool) :
    tally comments (actualsLayout actuals inBrackets) =
      tallyOf comments (wholes (actuals.map Actual.value)) := by
  have hjoin : tally comments (join ", " (actuals.map Actual.layout)) =
      tallyOf comments (wholes (actuals.map Actual.value)) := tally_commaJoined tally_actual actuals
  unfold actualsLayout
  split <;> simp [hjoin]

theorem tally_fnCall (callee : Node) (actuals : List (Actual Node)) (inBrackets : Bool) :
    tally comments (fnCallLayout callee actuals inBrackets) =
      (Form.fnCall callee actuals inBrackets).tally comments +
        tallyOf comments (wholes (callee :: reachedActuals callee actuals)) := by
  rw [fnCallLayout, tight, tally_append, tally_grouped, Form.tally_of_no_lineBreaks rfl]
  cases hr : callee.isReserved with
  | false => simp [Form.fault?, hr, reachedActuals, tally_actuals]
  | true =>
    cases actuals with
    | nil =>
      -- A reserved callee is a name and amounts to nothing.
      have hname : tallyOf comments [⟨.whole, callee⟩] = 0 := by
        obtain ⟨info, form⟩ := callee
        cases form with
        | identifier name => rw [tallyOf_singleton]; rfl
        | _ => exact nomatch hr
      simp [Form.fault?, hr, hname, reservedOperand]
    | cons a rest => simp [Form.fault?, hr, reservedOperand, reachedActuals]

theorem tally_primCall (prim : Primitive) (actuals : List Node) :
    tally comments (primCallLayout prim actuals) = tallyOf comments (wholes actuals) := by
  have hmore : tally comments (furtherActuals actuals) =
      tallyOf comments (wholes (actuals.map id)) := tally_flatMap (fun n => by simp) actuals
  simp [primCallLayout, hmore]

theorem tally_new (management : Option Management) (typeExpr : Node) :
    tally comments (newLayout management typeExpr) = tallyOf comments [⟨.whole, typeExpr⟩] := by
  rw [newLayout, tally_append, tally_append, tally_ifSome_text _ (by simp)]
  simp

theorem tally_domain (exprs : List Node) :
    tally comments (domainLayout comments exprs) = tallyOf comments (wholes exprs) := by
  unfold domainLayout
  dsimp only
  split
  · rfl
  · split <;> simp
  · simp

theorem tally_optional (o : Option Node) :
    tally comments (ifSome o whole) = tallyOf comments (wholes o.toList) :=
  tally_ifSome .whole o tally_whole

theorem tally_tuple (exprs : List Node) :
    tally comments (tupleLayout comments exprs) = tallyOf comments (wholes exprs) := by
  simp [tupleLayout, tally_ifTrue]

/-! ## Declarations -/

theorem tally_pragmas (pragmas : List Pragma) : tally comments (pragmasLayout pragmas) = 0 := by
  induction pragmas with
  | nil => rfl
  | cons p pragmas ih =>
    rw [pragmasLayout, List.flatMap_cons, tally_append, ← pragmasLayout, ih]
    rfl

theorem tally_linkage (c : LinkageClause Node) :
    tally comments c.layout = tallyOf comments c.visits := by
  obtain ⟨linkage, name⟩ := c
  cases linkage with
  | none => rfl
  | some l =>
    have hname : tally comments (ifSome name (whole · ++ " ")) =
        tallyOf comments (wholes name.toList) := tally_ifSome .whole name (by simp)
    simpa [LinkageClause.layout, LinkageClause.visits, ifSome] using hname

theorem tally_visibility (v : Option Visibility) : tally comments (visibilityLayout v) = 0 :=
  tally_ifSome_text _ (by simp)

theorem tally_intent (i : Option Intent) : tally comments (intentLayout i) = 0 :=
  tally_ifSome_text _ (by simp)

theorem tally_requiredIntent (i : Option Intent) :
    tally comments (requiredIntent i) = (intentFault? i).elim 0 .fault := by
  cases i <;> rfl

theorem tally_type (o : Option Node) :
    tally comments (typeLayout o) = tallyOf comments (types o.toList) :=
  tally_ifSome .typeExpr o (by simp)

theorem tally_init (o : Option Node) :
    tally comments (initLayout o) = tallyOf comments (wholes o.toList) :=
  tally_ifSome .whole o (by simp)

theorem tally_binding (b : Binding Node) : tally comments b.layout = tallyOf comments b.visits := by
  simp [Binding.layout, Binding.visits, tally_type, tally_init]

theorem tally_decoration (v : VarDecl Node) :
    tally comments v.decorationLayout = tallyOf comments v.linkageVisits := by
  rw [VarDecl.decorationLayout, tally_append, tally_pragmas, zero_add, VarDecl.linkageLayout,
    VarDecl.linkageVisits]
  split
  · rfl
  · exact tally_linkage v.linkage

theorem tally_tupleContents (t : TupleDecl Node) :
    tally comments t.contentsLayout = tallyOf comments t.visits := by
  have hdecls : tally comments (join ", " (t.decls.map component)) =
      tallyOf comments (components (t.decls.map id)) := tally_commaJoined tally_component t.decls
  simp [TupleDecl.contentsLayout, TupleDecl.visits, hdecls, tally_ifTrue, tally_type, tally_init]

theorem tally_taskVar (t : TaskVar Node) :
    tally comments t.layout =
      (Form.taskVar t).tally comments + tallyOf comments t.binding.visits := by
  rw [TaskVar.layout, tally_append, tally_append, tally_requiredIntent, tally_binding,
    Form.tally_of_no_lineBreaks rfl]
  simp [Form.fault?]

theorem tally_componentLayout (n : Node) :
    tally comments (componentLayout n) =
      Visit.tally comments ⟨.component, n⟩ + tallyOf comments (componentVisits n.form) := by
  obtain ⟨info, form⟩ := n
  have hvisits {vs : List Visit} : tallyOf comments vs = .breaks 0 + tallyOf comments vs :=
    (zero_add _).symm
  cases form
  case tupleDecl t => exact (tally_tupleContents t).trans hvisits
  case varDecl v => exact (tally_binding v.binding).trans hvisits
  case formal f => exact (tally_binding f.binding).trans hvisits
  case varArgFormal f => exact (tally_binding f.binding).trans hvisits
  case taskVar t => exact (tally_binding t.binding).trans hvisits
  all_goals rfl

theorem tally_multiDecl (decls : List Node) :
    tally comments (multiDeclLayout decls) =
      tallyOf comments (Form.multiDecl decls).leadingVisits + (Form.multiDecl decls).tally comments +
        tallyOf comments (components decls) := by
  rcases decls with - | ⟨⟨info, form⟩, rest⟩
  · rfl
  · have hlist : tally comments (join ", " ((Node.mk info form :: rest).map component)) =
        tallyOf comments (components ((Node.mk info form :: rest).map id)) :=
      tally_commaJoined tally_component _
    rw [List.map_id] at hlist
    rw [Form.tally_of_no_lineBreaks rfl]
    cases form
    case varDecl v =>
      show tally comments (v.decorationLayout ++ requiredIntent v.kind ++ (" " ++ join _ _)) = _
      rw [tally_append, tally_append, tally_append, tally_decoration, tally_requiredIntent, hlist,
        tally_text, tally_nil, zero_add]
      rfl
    case tupleDecl t =>
      show tally comments (requiredIntent t.intent ++ (" " ++ join _ _)) = _
      rw [tally_append, tally_append, tally_requiredIntent, hlist, tally_text, tally_nil, zero_add]
      exact congrArg (· + _) (zero_add _).symm
    all_goals rfl

theorem tally_visibilityClause (c : VisibilityClause Node) :
    tally comments (c.layout comments) =
      tallyOf comments (wholes [c.symbol]) + (Form.visibilityClause c).tally comments +
        tallyOf comments (wholes c.limitations) := by
  obtain ⟨symbol, kind, limitations⟩ := c
  have hlisted :
      tally comments (ifTrue (!limitations.isEmpty) (" " ++ commaList comments limitations)) =
      tallyOf comments (wholes limitations) := by
    cases limitations with
    | nil => rfl
    | cons n ns => simp [ifTrue]
  rw [VisibilityClause.layout, tally_append, tally_whole, Form.tally_of_no_lineBreaks rfl, add_assoc]
  congr 1
  cases kind with
  | bare =>
    rcases limitations with - | ⟨n, - | ⟨m, rest⟩⟩
    · rfl
    · simp only [limitationLayout, Form.fault?, VisibilityClause.fault?]
      split <;> simp
    · rfl
  | onlyListed =>
    show tally comments (" " ++ wordOrFault (.ok "only") ++ _) = _
    rw [tally_append, hlisted]
    rfl
  | exceptListed =>
    show tally comments (" " ++ wordOrFault (.ok "except") ++ _) = _
    rw [tally_append, hlisted]
    rfl
  | braces => simp [limitationLayout, Form.fault?, VisibilityClause.fault?]

theorem tally_access (kind : AccessKind) (visibility : Option Visibility)
    (clauses : List (Located (VisibilityClause Node))) :
    tally comments (accessLayout comments kind visibility clauses) =
      tallyOf comments (wholes (clauses.map (Located.node .visibilityClause))) := by
  have hclauses : tally comments (join ", " (clauses.map fun c => c.part.layout comments)) =
      tallyOf comments (wholes (clauses.map (Located.node .visibilityClause))) :=
    tally_commaJoined (tally_located .visibilityClause fun c => tally_visibilityClause c.part)
      clauses
  simp [accessLayout, tally_visibility, hclauses]

theorem tally_class (linkage : LinkageClause Node) (name : String) (parent : Option Node)
    (members : List Node) :
    tally comments (classLayout comments linkage name parent members) =
      tallyOf comments (linkage.visits ++ types parent.toList ++ wholes members) +
        .breaks ((kept comments members).length - 1) := by
  have hparent : tally comments (ifSome parent (": " ++ asType · ++ " ")) =
      tallyOf comments (types parent.toList) := tally_ifSome .typeExpr parent (by simp)
  simp only [classLayout, tally_append, hparent, tally_linkage, tally_braced]
  simp

theorem tally_enumElement (e : EnumElement Node) :
    tally comments e.layout = tallyOf comments (wholes e.initExpr.toList) := by
  simp [EnumElement.layout, tally_init]

theorem tally_enum (name : String) (elements : List (Located (EnumElement Node))) :
    tally comments (enumLayout name elements) =
      tallyOf comments (wholes (elements.map (Located.node .enumElement))) := by
  have helements : tally comments (join ", " (elements.map fun e => e.part.layout)) =
      tallyOf comments (wholes (elements.map (Located.node .enumElement))) :=
    tally_commaJoined (tally_located .enumElement fun e =>
      (tally_enumElement e.part).trans (zero_add _).symm) elements
  simp [enumLayout, helements]

theorem tally_module (visibility : Option Visibility) (kind : Option ModuleKind) (name : String)
    (stmts : List Node) :
    tally comments (moduleLayout comments visibility kind name stmts) =
      tallyOf comments (wholes stmts) + .breaks ((kept comments stmts).length - 1) := by
  have hkind : tally comments (ifSome (kind.bind ModuleKind.keyword?) (fun k => k ++ " ")) = 0 :=
    tally_ifSome_text _ (by simp)
  simp only [moduleLayout, tally_append, tally_visibility, hkind, tally_braced]
  simp

theorem tally_include (visibility : Option Visibility) (isPrototype : Bool) (name : String) :
    tally comments (includeLayout visibility isPrototype name) = 0 := by
  simp [includeLayout, tally_visibility, tally_ifTrue]

/-! ## Functions -/

theorem tally_receiverType (t : Node) :
    tally comments (receiverType t) =
      tallyOf comments [⟨if t.identifier?.isSome then .whole else .typeExpr, t⟩] := by
  unfold receiverType
  split <;> simp

theorem tally_receiver (f : FunctionDecl Node) :
    tally comments (ifSome f.receiver fun r => receiverLayout f.isPrimaryMethod r.part) =
      f.fault?.elim 0 .fault + tallyOf comments f.receiverVisits := by
  cases hr : f.receiver with
  | none => simp [ifSome, FunctionDecl.fault?, FunctionDecl.receiverVisits,
      FunctionDecl.receiverType?, FunctionDecl.isMethod, hr]
  | some r =>
    show tally comments (receiverLayout f.isPrimaryMethod r.part) = _
    rw [receiverLayout, tally_append, tally_intent, zero_add]
    cases hp : f.isPrimaryMethod with
    | true => simp [ifTrue, FunctionDecl.fault?, FunctionDecl.receiverVisits,
        FunctionDecl.receiverType?, hp]
    | false =>
      cases ht : r.part.binding.typeExpr with
      | none => simp [ifTrue, FunctionDecl.fault?, FunctionDecl.receiverVisits,
          FunctionDecl.receiverType?, FunctionDecl.isMethod, receiverTypeLayout, hp, hr, ht]
      | some t => simp [ifTrue, FunctionDecl.fault?, FunctionDecl.receiverVisits,
          FunctionDecl.receiverType?, FunctionDecl.isMethod, receiverTypeLayout, hp, hr, ht,
          tally_receiverType]

theorem tally_head (f : FunctionDecl Node) :
    tally comments (f.headLayout comments) =
      f.fault?.elim 0 .fault + tallyOf comments (f.receiverVisits ++ wholes f.formals) := by
  have hformals : tally comments (ifTrue (!(f.formals.isEmpty && f.isParenless))
      (parenthesized (commaList comments f.formals))) = tallyOf comments (wholes f.formals) := by
    cases h : f.formals with
    | nil => simp [tally_ifTrue]
    | cons n ns => simp [ifTrue]
  simp only [FunctionDecl.headLayout, tally_append, tally_receiver, hformals]
  simp [add_assoc]

theorem tally_result (returnIntent : Option Intent) (returnType whereClause : Option Node)
    (isThrowing : Bool) :
    tally comments (resultLayout returnIntent returnType whereClause isThrowing) =
      tallyOf comments (types returnType.toList ++ wholes whereClause.toList) := by
  have hintent : tally comments (ifSome returnIntent (fun i => " " ++ i.keyword)) = 0 :=
    tally_ifSome_text _ (by simp)
  have hwhere : tally comments (ifSome whereClause (" where " ++ whole ·)) =
      tallyOf comments (wholes whereClause.toList) := tally_ifSome .whole whereClause (by simp)
  simp only [resultLayout, tally_append, tally_type, hintent, hwhere]
  simp [tally_ifTrue]

/-- A function without a body has no statement list. -/
theorem tally_functionBody (body : Option (List Node)) :
    tally comments (functionBodyLayout comments body) = tallyOf comments (wholes (body.getD [])) +
      .breaks (body.toList.map fun nodes => (kept comments nodes).length - 1).sum := by
  cases body with
  | none => rfl
  | some stmts => simp [functionBodyLayout]

theorem tally_function (f : FunctionDecl Node) :
    tally comments (f.layout comments) =
      tallyOf comments f.linkage.visits + (Form.function f).tally comments +
        tallyOf comments f.visits := by
  simp only [FunctionDecl.layout, leadLayout, endLayout, tally_append, tally_pragmas, tally_linkage,
    tally_visibility, tally_head, tally_result, tally_functionBody, FunctionDecl.visits, Form.tally,
    Form.fault?, Form.lineBreaks, Form.statementLists]
  cases f.fault? <;> simp [add_assoc]

/-! ## Statements -/

theorem tally_let (decls : List (Located (VarDecl Node))) :
    tally comments (join ", " (decls.map fun d => d.part.binding.layout)) =
      tallyOf comments (components (decls.map (Located.node .varDecl))) := by
  refine tally_commaJoined (fun d => ?_) decls
  rw [tally_binding, tallyOf_singleton]
  exact (zero_add _).symm

theorem tally_withClause (w : WithClause Node) :
    tally comments (w.layout comments) = tallyOf comments (wholes w.exprs) := by
  simp [WithClause.layout]

theorem tally_optionalWith (w : Option (Located (WithClause Node)))
    {f : Located (WithClause Node) → Layout}
    (hf : ∀ p, tally comments (f p) = tally comments (p.part.layout comments)) :
    tally comments (ifSome w f) = tallyOf comments (withVisits w) := by
  cases w with
  | none => rfl
  | some p =>
    refine tally_located .withClause (fun q => ?_) p
    rw [hf, tally_withClause]
    exact (zero_add _).symm

theorem tally_leadingWith (w : Option (Located (WithClause Node))) :
    tally comments (ifSome w fun p => p.part.layout comments ++ " ") =
      tallyOf comments (withVisits w) :=
  tally_optionalWith w (by simp)

theorem tally_loopIndex (index : Option Node) :
    tally comments (loopIndexLayout index) = tallyOf comments (wholes index.toList) :=
  tally_ifSome .whole index (by simp)

theorem tally_condition (condition : Option Node) :
    tally comments (ifSome condition (whole · ++ " ")) =
      tallyOf comments (wholes condition.toList) :=
  tally_ifSome .whole condition (by simp)

theorem tally_loopHead (l : IndexedLoop Node) :
    tally comments (l.headLayout comments) =
      tallyOf comments (wholes (l.index.toList ++ [l.iterand]) ++ withVisits l.withClause) := by
  have hwith : tally comments (ifSome l.withClause fun w => " " ++ w.part.layout comments) =
      tallyOf comments (withVisits l.withClause) := tally_optionalWith _ (by simp)
  simp only [IndexedLoop.headLayout, tally_append, hwith, tally_loopIndex]
  simp

theorem tally_loop (kind : LoopKind) (l : IndexedLoop Node) :
    tally comments (l.layout comments kind) =
      tallyOf comments (wholes (l.index.toList ++ [l.iterand]) ++ withVisits l.withClause ++
        wholes l.body.stmts) + .breaks ((kept comments l.body.stmts).length - 1) := by
  -- A body that is not written has no statements.
  have hbody : tally comments (ifTrue (l.body.style != .implicit || !l.body.stmts.isEmpty)
      (" " ++ l.body.plainLayout comments)) =
        tallyOf comments (wholes l.body.stmts) +
          .breaks ((kept comments l.body.stmts).length - 1) := by
    cases h : (l.body.style != .implicit || !l.body.stmts.isEmpty) with
    | true => simp [ifTrue, Body.plainLayout]
    | false =>
      rw [Bool.or_eq_false_iff, Bool.not_eq_false'] at h
      rw [List.isEmpty_iff.mp h.2]
      rfl
  rw [tallyOf_append, ← tally_loopHead, add_assoc]
  cases kind with
  | bracketLoop =>
    simp only [IndexedLoop.layout, IndexedLoop.bracketLayout, tally_append, hbody]
    simp
  | coforallLoop | forallLoop | foreachLoop =>
    simp [IndexedLoop.layout, IndexedLoop.keywordLayout]

theorem tally_jump (kind : JumpKind) (target : Option (Located String)) :
    tally comments (jumpLayout kind target) = 0 := by
  rw [jumpLayout, tally_append, tally_ifSome_text _ (by simp)]
  rfl

theorem tally_label (name : String) (loop : Node) :
    tally comments (labelLayout name loop) =
      (Form.label name loop).tally comments + tallyOf comments (wholes [loop]) := by
  rw [Form.tally_of_no_lineBreaks rfl, labelLayout]
  split
  · next h => simp [Form.fault?, h]
  · next h => simp [Form.fault?, h]

theorem tally_conditional (condition : Node) (thenBody : Body Node)
    (elseBody : Option (Body Node)) :
    tally comments (conditionalLayout comments condition thenBody elseBody) =
      tallyOf comments (wholes (condition :: thenBody.stmts ++ elseBody.elim [] Body.stmts)) +
        .breaks ((Form.conditional condition thenBody elseBody).lineBreaks comments) := by
  cases elseBody with
  | none => simp [conditionalLayout, ifSome, Form.lineBreaks, Form.statementLists]
  | some b => simp [conditionalLayout, ifSome, Body.plainLayout, Form.lineBreaks,
      Form.statementLists, add_assoc]

theorem tally_whenArm (arm : WhenArm Node) :
    tally comments (arm.layout comments) =
      tallyOf comments (wholes (arm.cases ++ arm.body.stmts)) +
        .breaks ((kept comments arm.body.stmts).length - 1) := by
  have hhead : tally comments (arm.headLayout comments) = tallyOf comments (wholes arm.cases) := by
    unfold WhenArm.headLayout
    split
    · next h =>
      rw [List.isEmpty_iff.mp h]
      rfl
    · simp
  simp [WhenArm.layout, hhead]

/-- A choice has the line breaks between its arms. -/
theorem tally_select (scrutinee : Node) (arms : List (Located (WhenArm Node))) :
    tally comments (selectLayout comments scrutinee arms) =
      tallyOf comments (wholes (scrutinee :: arms.map (Located.node .whenArm))) +
        .breaks (arms.length - 1) := by
  have harm (a : Located (WhenArm Node)) : tally comments (a.part.layout comments) =
      tallyOf comments [⟨.whole, a.node .whenArm⟩] := by
    refine tally_located .whenArm (f := fun a => a.part.layout comments) (fun a => ?_) a
    rw [tally_whenArm]
    simp [Form.tally, Form.fault?, Form.leadingVisits, Form.visits, Form.lineBreaks,
      Form.statementLists]
  have harms : tally comments (join lineBreak (arms.map fun a => a.part.layout comments)) =
      tallyOf comments (wholes (arms.map (Located.node .whenArm))) +
        .breaks ((arms.length - 1) * 1) := tally_joined tally_lineBreak harm arms
  simp [selectLayout, harms]

theorem tally_catch (c : CatchClause Node) :
    tally comments (c.layout comments) =
      tallyOf comments c.visits + .breaks ((kept comments c.stmts).length - 1) := by
  have hcaught (v : VarDecl Node) : tally comments (caughtLayout v) =
      tallyOf comments (types v.binding.typeExpr.toList) := by
    have htype : tally comments (ifSome v.binding.typeExpr (" : " ++ asType ·)) =
        tallyOf comments (types v.binding.typeExpr.toList) := tally_ifSome .typeExpr _ (by simp)
    rw [caughtLayout, tally_append, htype]
    simp
  have herror : tally comments (ifSome c.error fun e => caughtGroup c.inParens e.part ++ " ") =
      tallyOf comments (types (c.error.bind fun e => e.part.binding.typeExpr).toList) := by
    cases c.error with
    | none => rfl
    | some e =>
      show tally comments (caughtGroup c.inParens e.part ++ " ") = _
      unfold caughtGroup
      split <;> simp [hcaught]
  simp only [CatchClause.layout, tally_append, herror, tally_braced, CatchClause.visits]
  simp

theorem tally_try (t : TryStmt Node) :
    tally comments (t.layout comments) =
      tallyOf comments t.visits + .breaks ((kept comments t.stmts).length - 1) := by
  have hhandlers : tally comments (handlersLayout comments t.handlers) =
      tallyOf comments (wholes (t.handlers.map (Located.node .catchClause))) := by
    refine tally_flatMap (tally_located .catchClause fun p => ?_) t.handlers
    rw [tally_append, tally_catch]
    simp [Form.tally, Form.fault?, Form.leadingVisits, Form.visits, Form.lineBreaks,
      Form.statementLists]
  have hguarded : tally comments (t.guardedLayout comments) =
      tallyOf comments t.visits + .breaks ((kept comments t.stmts).length - 1) := by
    unfold TryStmt.guardedLayout TryStmt.visits
    split <;> simp [hhandlers, add_assoc]
  unfold TryStmt.layout
  split <;> simp [hguarded]

/-! ## Any construct -/

theorem tally_formLayout (f : Form Node) :
    tally comments (f.layout comments) =
      tallyOf comments f.leadingVisits + f.tally comments + tallyOf comments f.visits := by
  cases f
  case opCall op actuals =>
    exact (tally_opCall op actuals).trans (congrArg (· + _) (zero_add _).symm)
  case fnCall callee actuals inBrackets =>
    exact (tally_fnCall callee actuals inBrackets).trans (congrArg (· + _) (zero_add _).symm)
  case label name loop => exact (tally_label name loop).trans (congrArg (· + _) (zero_add _).symm)
  case taskVar t => exact (tally_taskVar t).trans (congrArg (· + _) (zero_add _).symm)
  case multiDecl decls => exact tally_multiDecl decls
  case visibilityClause c => exact tally_visibilityClause c
  case function f => exact tally_function f
  -- No other construct can be malformed itself, and none has children that lead.
  all_goals
    show _ = 0 + .breaks (Form.lineBreaks comments _) + tallyOf comments (Form.visits _)
    rw [zero_add, Tally.breaks_add_comm]
  case returnStmt value =>
    have hvalue : tally comments (ifSome value (" " ++ whole ·)) =
        tallyOf comments (wholes value.toList) := tally_ifSome .whole value (by simp)
    show tally comments ("return" ++ ifSome value (" " ++ whole ·)) = _
    rw [tally_append, hvalue]
    exact (zero_add _).trans (add_zero _).symm
  case conditional condition thenBody elseBody =>
    exact tally_conditional condition thenBody elseBody
  all_goals simp [Form.layout, Form.visits, Form.lineBreaks, Form.statementLists, tight,
    quotedLayout, foreignLayout, tally_ifTrue, tally_leadingWith, tally_condition, tally_loopIndex,
    tally_optional, Body.plainLayout, whileLayout, doWhileLayout, manageLayout, onLayout,
    beginLayout, cobeginLayout, forLayout, guardedLayout, tally_class, aggregateLayout, rangeLayout,
    reductionLayout, tally_primCall, tally_new, tally_domain, tally_tuple, tally_let, tally_loop,
    tally_jump, tally_catch, tally_include, tally_select, tally_try, tally_whenArm, tally_enum,
    tally_enumElement, tally_module, tally_linkage, tally_binding, tally_decoration, tally_intent,
    tally_pragmas, tally_access, tally_tupleContents, tally_withClause, Formal.layout,
    VarArgFormal.layout, TupleDecl.layout, VarDecl.layout, add_assoc]

/-- **A node in a role amounts to all that is reached from there.** -/
theorem Node.tally_layout (comments : Bool) (role : Role) (n : Node) :
    (n.layout comments role).tally comments = tallyOf comments [⟨role, n⟩] := by
  rw [tallyOf_singleton]
  cases role with
  | whole => exact tally_formLayout n.form
  | typeExpr => exact tally_formLayout n.form
  | component => exact (tally_componentLayout n).trans (congrArg (· + _) (zero_add _).symm)

end ChapelSource
