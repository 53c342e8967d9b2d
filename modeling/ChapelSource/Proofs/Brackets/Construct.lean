import ChapelSource.Proofs.Brackets.Layout

/-!
# Brackets in constructs

Every construct closes the brackets that it opens, whatever its children are, if the texts in it are
plain.

* `balanced_opCall` to `balanced_reduction`: expressions.
* `balanced_pragmas` to `balanced_include`: declarations; `balanced_receiver` to `balanced_result`:
  functions.
* `balanced_withClause` to `balanced_caught`: parts of statements.
* `balanced_class` to `balanced_foreign`: constructs with statement lists in them.
* **`Node.balanced_layout`**: a node in a role.
-/

namespace ChapelSource

open Layout

variable {newLine : String}

/-! ## Expressions -/

theorem balanced_quoted (kind : QuotedKind) (bytes : List UInt8) :
    Balanced newLine (quotedLayout kind bytes) :=
  balanced_literal (by cases kind <;> decide) (closedBody_quote bytes)

theorem balanced_bool (b : Bool) : Balanced newLine (boolText b) :=
  balanced_text (by cases b <;> decide)

/-- The symbol of an operator is its name, or the mark of a trailing operator. -/
theorem plain_symbol {op : String} (h : PlainText op) (arity : Nat) :
    PlainText (Operator.ofCall op arity).symbol := by
  unfold Operator.ofCall
  split
  · split
    · decide
    · split
      · decide
      · exact h
  · exact h

theorem balanced_operand (outer : Operator) (n : Node) (onRight : Bool) :
    Balanced newLine (operand outer n onRight) :=
  balanced_grouped _ n

theorem balanced_opCall {op : String} (h : PlainText op) (actuals : List Node) :
    Balanced newLine (opCallLayout op actuals) := by
  have hs := plain_symbol h actuals.length
  unfold opCallLayout
  dsimp only
  split
  · split
    · exact balanced_operand _ _ _ |>.text hs
    · exact balanced_text hs |>.append (balanced_operand _ _ _)
  · exact balanced_operand _ _ _ |>.append (balanced_operator hs) |>.append (balanced_operand _ _ _)
  · exact balanced_fault _

theorem balanced_tight (n : Node) : Balanced newLine (tight n) := balanced_grouped _ n

theorem balanced_actual {a : Actual Node} (h : ∀ name ∈ a.name, PlainText name) :
    Balanced newLine a.layout :=
  balanced_ifSome (fun name hname => balanced_text (h name hname) |>.text (by decide))
    |>.append (balanced_whole a.value)

theorem balanced_fnCall (callee : Node) {actuals : List (Actual Node)}
    (h : ∀ a ∈ actuals, ∀ name ∈ a.name, PlainText name) (inBrackets : Bool) :
    Balanced newLine (fnCallLayout callee actuals inBrackets) := by
  have hlist : Balanced newLine (join ", " (actuals.map Actual.layout)) :=
    balanced_join balanced_comma fun a ha => balanced_actual (h a ha)
  refine (balanced_tight callee).append ?_
  split
  · cases actuals with
    | nil => exact balanced_fault _
    | cons a rest => exact balanced_text (by decide) |>.append (balanced_whole a.value)
  · unfold actualsLayout
    split
    · exact hlist.inSquare
    · exact hlist.parenthesized

theorem balanced_primCall (prim : Primitive) (actuals : List Node) :
    Balanced newLine (primCallLayout prim actuals) := by
  have hname : Balanced newLine (literal "" prim.name) :=
    balanced_literal (by decide) (closedBody_primitive prim)
  have hactuals : Balanced newLine (furtherActuals actuals) :=
    balanced_flatMap fun a _ => balanced_comma.append (balanced_whole a)
  exact balanced_text (by decide) |>.append (hname.append hactuals).parenthesized

theorem balanced_new (management : Option Management) (typeExpr : Node) :
    Balanced newLine (newLayout management typeExpr) :=
  balanced_text (by decide)
    |>.append (balanced_ifSome fun m _ =>
      balanced_text (by cases m <;> decide) |>.text (by decide))
    |>.append (balanced_whole typeExpr)

theorem balanced_domain (comments : Bool) (exprs : List Node) :
    Balanced newLine (domainLayout comments exprs) := by
  have hlist : Balanced newLine ("\x7b" ++ commaList comments exprs ++ "\x7d") :=
    (balanced_commaList comments exprs).inCurly
  unfold domainLayout
  dsimp only
  split
  · exact balanced_nil
  · split
    · exact balanced_whole _
    · exact hlist
  · exact hlist

theorem balanced_range (bound : RangeBound) (lower upper : Option Node) :
    Balanced newLine (rangeLayout bound lower upper) :=
  balanced_ifSome (fun n _ => balanced_whole n)
    |>.text (by cases bound <;> decide)
    |>.append (balanced_ifSome fun n _ => balanced_whole n)

theorem balanced_tuple (comments : Bool) (exprs : List Node) :
    Balanced newLine (tupleLayout comments exprs) :=
  balanced_commaList comments exprs |>.append (balanced_ifTrue (balanced_text (by decide)) _)
    |>.parenthesized

theorem balanced_reduction (kind : ReductionKind) (op iterand : Node) :
    Balanced newLine (reductionLayout kind op iterand) :=
  balanced_whole op
    |>.text (by decide) |>.text (by cases kind <;> decide) |>.text (by decide)
    |>.append (balanced_tight iterand)

/-! ## Declarations -/

theorem balanced_pragmas (pragmas : List Pragma) : Balanced newLine (pragmasLayout pragmas) :=
  balanced_flatMap fun p _ => balanced_text (by decide)
    |>.append (balanced_literal (by decide) (closedBody_pragma p))
    |>.text (by decide)

theorem balanced_linkage (c : LinkageClause Node) : Balanced newLine c.layout :=
  balanced_ifSome fun l _ => balanced_text (by cases l <;> decide)
    |>.text (by decide)
    |>.append (balanced_ifSome fun n _ => balanced_whole n |>.text (by decide))

theorem balanced_visibility (v : Option Visibility) : Balanced newLine (visibilityLayout v) :=
  balanced_ifSome fun v _ => balanced_text (by cases v <;> decide) |>.text (by decide)

theorem plain_intent (i : Intent) : PlainText i.keyword := by cases i <;> decide

theorem balanced_intent (i : Option Intent) : Balanced newLine (intentLayout i) :=
  balanced_ifSome fun i _ => balanced_text (plain_intent i) |>.text (by decide)

theorem balanced_requiredIntent (i : Option Intent) : Balanced newLine (requiredIntent i) := by
  cases i with
  | none => exact balanced_fault _
  | some i => exact balanced_text (plain_intent i)

theorem balanced_type (o : Option Node) : Balanced newLine (typeLayout o) :=
  balanced_ifSome fun n _ => balanced_text (by decide) |>.append (balanced_asType n)

theorem balanced_init (o : Option Node) : Balanced newLine (initLayout o) :=
  balanced_ifSome fun n _ => balanced_text (by decide) |>.append (balanced_whole n)

theorem balanced_binding {b : Binding Node} (h : PlainText b.name) : Balanced newLine b.layout :=
  balanced_text h |>.append (balanced_type b.typeExpr) |>.append (balanced_init b.initExpr)

theorem balanced_decoration (v : VarDecl Node) : Balanced newLine v.decorationLayout := by
  refine (balanced_pragmas v.pragmas).append ?_
  unfold VarDecl.linkageLayout
  split
  · exact balanced_text (by decide)
  · exact balanced_linkage v.linkage

theorem balanced_varDecl {v : VarDecl Node} (h : PlainText v.binding.name) :
    Balanced newLine v.layout :=
  balanced_decoration v |>.append (balanced_intent v.kind) |>.append (balanced_binding h)

theorem balanced_formal {f : Formal Node} (h : PlainText f.binding.name) :
    Balanced newLine f.layout :=
  balanced_pragmas f.pragmas
    |>.append (balanced_intent f.intent) |>.append (balanced_binding h)

theorem balanced_varArg {f : VarArgFormal Node} (h : PlainText f.binding.name) :
    Balanced newLine f.layout :=
  balanced_intent f.intent
    |>.append (balanced_binding h) |>.text (by decide)
    |>.append (balanced_ifSome fun n _ => balanced_whole n)

theorem balanced_taskVar {t : TaskVar Node} (h : PlainText t.binding.name) :
    Balanced newLine t.layout :=
  balanced_requiredIntent t.intent |>.text (by decide) |>.append (balanced_binding h)

theorem balanced_enumElement {e : EnumElement Node} (h : PlainText e.name) :
    Balanced newLine e.layout :=
  balanced_text h |>.append (balanced_init e.initExpr)

theorem balanced_contents (t : TupleDecl Node) : Balanced newLine t.contentsLayout :=
  balanced_components t.decls |>.append (balanced_ifTrue (balanced_text (by decide)) _)
    |>.parenthesized |>.append (balanced_type t.typeExpr) |>.append (balanced_init t.initExpr)

theorem balanced_tupleDecl (t : TupleDecl Node) : Balanced newLine t.layout :=
  (balanced_intent t.intent).append (balanced_contents t)

theorem balanced_component_layout {n : Node} (h : ∀ s ∈ n.form.texts, PlainText s) :
    Balanced newLine (componentLayout n) := by
  obtain ⟨info, form⟩ := n
  cases form
  case tupleDecl t => exact balanced_contents t
  case varDecl v => exact balanced_binding (h _ List.mem_cons_self)
  case formal f => exact balanced_binding (h _ List.mem_cons_self)
  case varArgFormal f => exact balanced_binding (h _ List.mem_cons_self)
  case taskVar t => exact balanced_binding (h _ List.mem_cons_self)
  all_goals exact balanced_fault _

theorem balanced_multiDecl (decls : List Node) : Balanced newLine (multiDeclLayout decls) := by
  cases decls with
  | nil => exact balanced_fault _
  | cons first rest =>
    have hcomponents : Balanced newLine (" " ++ join ", " ((first :: rest).map component)) :=
      balanced_text (by decide) |>.append (balanced_components _)
    unfold multiDeclLayout
    dsimp only
    split
    · exact balanced_decoration _ |>.append (balanced_requiredIntent _) |>.append hcomponents
    · exact balanced_requiredIntent _ |>.append hcomponents
    · exact balanced_fault _

theorem balanced_limitation (comments : Bool) (kind : LimitationKind) (limitations : List Node) :
    Balanced newLine (limitationLayout comments kind limitations) := by
  have hlist : Balanced newLine (commaList comments limitations) := balanced_commaList _ _
  unfold limitationLayout
  dsimp only
  split
  · exact hlist.enclosed ⟨.curly, fun _ => ⟨rfl, rfl⟩⟩
  · exact balanced_nil
  · split
    · exact balanced_text (by decide) |>.append (balanced_whole _)
    · exact balanced_fault _
  · have hword : Balanced newLine (wordOrFault (PrintError.required .limitation kind.keyword?)) := by
      cases kind with
      | onlyListed => exact balanced_text (by decide)
      | exceptListed => exact balanced_text (by decide)
      | bare => exact balanced_fault _
      | braces => exact balanced_fault _
    exact balanced_text (by decide) |>.append hword
      |>.append (balanced_ifTrue (balanced_text (by decide) |>.append hlist) _)

theorem balanced_visibilityClause (comments : Bool) (c : VisibilityClause Node) :
    Balanced newLine (c.layout comments) :=
  balanced_whole c.symbol
    |>.append (balanced_limitation comments c.limitationKind c.limitations)

theorem balanced_access (comments : Bool) (kind : AccessKind) (visibility : Option Visibility)
    (clauses : List (Located (VisibilityClause Node))) :
    Balanced newLine (accessLayout comments kind visibility clauses) :=
  balanced_visibility visibility
    |>.text (by cases kind <;> decide) |>.text (by decide)
    |>.append (balanced_join balanced_comma fun c _ => balanced_visibilityClause comments c.part)

theorem balanced_enum {name : String} (h : PlainText name)
    {elements : List (Located (EnumElement Node))}
    (helements : ∀ e ∈ elements, PlainText e.part.name) :
    Balanced newLine (enumLayout name elements) := by
  have hlist : Balanced newLine (join ", " (elements.map fun e => e.part.layout)) :=
    balanced_join balanced_comma fun e he => balanced_enumElement (helements e he)
  rw [enumLayout, List.append_assoc, List.append_assoc, ← List.append_assoc (" \x7b " : Layout)]
  exact balanced_text (by decide) |>.text h
    |>.append (hlist.enclosed ⟨.curly, fun _ => ⟨rfl, rfl⟩⟩)

theorem balanced_include (visibility : Option Visibility) (isPrototype : Bool) {name : String}
    (h : PlainText name) : Balanced newLine (includeLayout visibility isPrototype name) :=
  balanced_text (by decide) |>.append (balanced_visibility visibility)
    |>.append (balanced_ifTrue (balanced_text (by decide)) isPrototype)
    |>.text (by decide) |>.text h

/-! ## Functions -/

theorem balanced_receiver (isPrimary : Bool) (receiver : Formal Node) :
    Balanced newLine (receiverLayout isPrimary receiver) := by
  refine (balanced_intent receiver.intent).append (balanced_ifTrue ?_ _)
  cases receiver.binding.typeExpr with
  | none => exact balanced_fault _
  | some t =>
    refine Balanced.append ?_ (balanced_text (by decide))
    unfold receiverType
    split
    · exact balanced_whole t
    · exact (balanced_asType t).parenthesized

theorem balanced_head (comments : Bool) {f : FunctionDecl Node} (h : PlainText f.name) :
    Balanced newLine (f.headLayout comments) := by
  have hname : PlainText f.nameText := by
    unfold FunctionDecl.nameText
    split
    · decide
    · exact h
  exact balanced_ifSome (fun r _ => balanced_receiver _ r.part) |>.text hname
    |>.append (balanced_ifTrue (balanced_commaList comments f.formals).parenthesized _)

theorem plain_functionKind (kind : FunctionKind) : PlainText kind.keyword := by
  cases kind <;> decide

theorem balanced_signature (comments : Bool) {f : FunctionDecl Node} (h : PlainText f.name) :
    Balanced newLine (f.signatureLayout comments) :=
  balanced_visibility f.visibility
    |>.text (plain_functionKind f.kind) |>.text (by decide)
    |>.append (balanced_head comments h)

theorem balanced_result (returnIntent : Option Intent) (returnType whereClause : Option Node)
    (isThrowing : Bool) :
    Balanced newLine (resultLayout returnIntent returnType whereClause isThrowing) :=
  balanced_ifSome (fun i _ => balanced_text (by decide) |>.text (plain_intent i))
    |>.append (balanced_type returnType)
    |>.append (balanced_ifSome fun n _ => balanced_text (by decide) |>.append (balanced_whole n))
    |>.append (balanced_ifTrue (balanced_text (by decide)) _)

/-! ## Parts of statements -/

theorem balanced_withClause (comments : Bool) (w : WithClause Node) :
    Balanced newLine (w.layout comments) :=
  balanced_text (by decide) |>.append (balanced_commaList comments w.exprs).parenthesized

theorem balanced_optionalWith (comments : Bool) (w : Option (Located (WithClause Node))) :
    Balanced newLine (ifSome w fun p => p.part.layout comments ++ " ") :=
  balanced_ifSome fun p _ => balanced_withClause comments p.part |>.text (by decide)

theorem balanced_loopIndex (index : Option Node) : Balanced newLine (loopIndexLayout index) :=
  balanced_ifSome fun n _ => balanced_whole n |>.text (by decide)

theorem balanced_loopHead (comments : Bool) (l : IndexedLoop Node) :
    Balanced newLine (l.headLayout comments) :=
  balanced_loopIndex l.index |>.append (balanced_whole l.iterand)
    |>.append (balanced_ifSome fun w _ =>
      balanced_text (by decide) |>.append (balanced_withClause comments w.part))

theorem balanced_jump (kind : JumpKind) {target : Option (Located String)}
    (h : ∀ t ∈ target, PlainText t.part) : Balanced newLine (jumpLayout kind target) :=
  balanced_text (by cases kind <;> decide)
    |>.append (balanced_ifSome fun t ht => balanced_text (by decide) |>.text (h t ht))

theorem balanced_label {name : String} (h : PlainText name) (loop : Node) :
    Balanced newLine (labelLayout name loop) := by
  unfold labelLayout
  split
  · exact balanced_text (by decide) |>.text h |>.text (by decide) |>.append (balanced_whole loop)
  · exact balanced_fault _

theorem balanced_caught (inParens : Bool) {v : VarDecl Node} (h : PlainText v.binding.name) :
    Balanced newLine (caughtGroup inParens v) := by
  have hcaught : Balanced newLine (caughtLayout v) :=
    balanced_text h |>.append (balanced_ifSome fun n _ =>
      balanced_text (by decide) |>.append (balanced_asType n))
  unfold caughtGroup
  split
  · exact hcaught.parenthesized
  · exact hcaught

/-! ## Statement lists -/

variable (hn : PlainText newLine)

include hn

theorem balanced_class (comments : Bool) (linkage : LinkageClause Node) {name : String}
    (h : PlainText name) (parent : Option Node) (members : List Node) :
    Balanced newLine (classLayout comments linkage name parent members) := by
  have hparent : Balanced newLine (ifSome parent (": " ++ asType · ++ " ")) :=
    balanced_ifSome fun n _ =>
      balanced_text (by decide) |>.append (balanced_asType n) |>.text (by decide)
  exact balanced_linkage linkage |>.text (by decide) |>.text h |>.text (by decide)
    |>.append hparent |>.append (balanced_braced hn comments members)

theorem balanced_aggregate (comments : Bool) (kind : AggregateKind) (linkage : LinkageClause Node)
    {name : String} (h : PlainText name) (members : List Node) :
    Balanced newLine (aggregateLayout comments kind linkage name members) :=
  balanced_linkage linkage
    |>.text (by cases kind <;> decide) |>.text (by decide) |>.text h |>.text (by decide)
    |>.append (balanced_braced hn comments members)

theorem balanced_module (comments : Bool) (visibility : Option Visibility)
    (kind : Option ModuleKind) {name : String} (h : PlainText name) (stmts : List Node) :
    Balanced newLine (moduleLayout comments visibility kind name stmts) := by
  have hkind : Balanced newLine (ifSome (kind.bind ModuleKind.keyword?) (fun k => k ++ " ")) :=
    balanced_ifSome fun k hk => by
      obtain ⟨m, -, hm⟩ := Option.bind_eq_some_iff.1 hk
      cases m with
      | implicit => contradiction
      | prototype =>
        cases hm
        exact balanced_text (by decide)
  exact balanced_visibility visibility |>.append hkind
    |>.text (by decide) |>.text h |>.text (by decide)
    |>.append (balanced_braced hn comments stmts)

theorem balanced_function (comments : Bool) {f : FunctionDecl Node} (h : PlainText f.name) :
    Balanced newLine (f.layout comments) := by
  have hflags : Balanced newLine f.flagText := balanced_text (by
    unfold FunctionDecl.flagText
    split
    · decide
    · split <;> decide)
  have hlead : Balanced newLine (leadLayout f.pragmas f.linkage) :=
    balanced_pragmas f.pragmas |>.append (balanced_linkage f.linkage)
  have hbody : Balanced newLine (functionBodyLayout comments f.body) := by
    cases f.body with
    | some stmts => exact balanced_text (by decide) |>.append (balanced_braced hn comments stmts)
    | none => exact balanced_text (by decide)
  exact hlead |>.append (balanced_visibility f.visibility) |>.append hflags
    |>.text (plain_functionKind f.kind) |>.text (by decide)
    |>.append (balanced_head comments h) |>.append ((balanced_result _ _ _ _).append hbody)

theorem balanced_begin (comments : Bool) (w : Option (Located (WithClause Node)))
    (body : Body Node) : Balanced newLine (beginLayout comments w body) :=
  balanced_text (by decide) |>.append (balanced_optionalWith comments w)
    |>.append (balanced_plainBody hn comments body)

theorem balanced_cobegin (comments : Bool) (w : Option (Located (WithClause Node)))
    (tasks : List Node) : Balanced newLine (cobeginLayout comments w tasks) :=
  balanced_text (by decide) |>.append (balanced_optionalWith comments w)
    |>.append (balanced_braced hn comments tasks)

theorem balanced_keywordLoop (comments : Bool) {keyword : String} (hk : PlainText keyword)
    (l : IndexedLoop Node) : Balanced newLine (l.keywordLayout comments keyword) :=
  balanced_text hk |>.text (by decide) |>.append (balanced_loopHead comments l)
    |>.text (by decide) |>.append (balanced_body hn comments (by decide) l.body)

theorem balanced_loop (comments : Bool) (kind : LoopKind) (l : IndexedLoop Node) :
    Balanced newLine (l.layout comments kind) := by
  cases kind with
  | coforallLoop => exact balanced_keywordLoop hn comments (by decide) l
  | forallLoop => exact balanced_keywordLoop hn comments (by decide) l
  | foreachLoop => exact balanced_keywordLoop hn comments (by decide) l
  | bracketLoop =>
    exact (balanced_loopHead comments l).inSquare
      |>.append (balanced_ifTrue
        (balanced_text (by decide) |>.append (balanced_plainBody hn comments l.body)) _)

theorem balanced_for (comments : Bool) (index : Option Node) (iterand : Node) (isParam : Bool)
    (body : Body Node) : Balanced newLine (forLayout comments index iterand isParam body) :=
  balanced_text (by decide) |>.append (balanced_ifTrue (balanced_text (by decide)) isParam)
    |>.append (balanced_loopIndex index) |>.append (balanced_whole iterand)
    |>.text (by decide) |>.append (balanced_body hn comments (by decide) body)

theorem balanced_while (comments : Bool) (condition : Node) (body : Body Node) :
    Balanced newLine (whileLayout comments condition body) :=
  balanced_text (by decide) |>.append (balanced_whole condition)
    |>.text (by decide) |>.append (balanced_body hn comments (by decide) body)

theorem balanced_doWhile (comments : Bool) (body : Body Node) (condition : Node) :
    Balanced newLine (doWhileLayout comments body condition) :=
  balanced_text (by decide) |>.append (balanced_plainBody hn comments body)
    |>.text (by decide) |>.append (balanced_whole condition)

theorem balanced_conditional (comments : Bool) (condition : Node) (thenBody : Body Node)
    (elseBody : Option (Body Node)) :
    Balanced newLine (conditionalLayout comments condition thenBody elseBody) :=
  balanced_text (by decide) |>.append (balanced_whole condition) |>.text (by decide)
    |>.append (balanced_body hn comments (by decide) thenBody)
    |>.append (balanced_ifSome fun b _ =>
      balanced_text (by decide) |>.append (balanced_plainBody hn comments b))

theorem balanced_whenArm (comments : Bool) (arm : WhenArm Node) :
    Balanced newLine (arm.layout comments) := by
  refine Balanced.append ?_ (balanced_body hn comments (by decide) arm.body)
  unfold WhenArm.headLayout
  split
  · exact balanced_text (by decide)
  · exact balanced_text (by decide) |>.append (balanced_commaList comments arm.cases)
      |>.text (by decide)

theorem balanced_select (comments : Bool) (scrutinee : Node)
    (arms : List (Located (WhenArm Node))) :
    Balanced newLine (selectLayout comments scrutinee arms) := by
  have harms : Balanced newLine (join lineBreak (arms.map fun a => a.part.layout comments)) :=
    balanced_join (balanced_lineBreak hn) fun a _ => balanced_whenArm hn comments a.part
  rw [selectLayout, List.append_assoc, List.append_assoc, ← List.append_assoc (" \x7b" : Layout)]
  exact balanced_text (by decide) |>.append (balanced_whole scrutinee)
    |>.append (harms.enclosed ⟨.curly, fun _ => ⟨rfl, rfl⟩⟩)

theorem balanced_catch (comments : Bool) {c : CatchClause Node}
    (h : ∀ s ∈ c.texts, PlainText s) : Balanced newLine (c.layout comments) := by
  have herror : Balanced newLine (ifSome c.error fun e => caughtGroup c.inParens e.part ++ " ") :=
    balanced_ifSome fun e he =>
      balanced_caught c.inParens (h _ (List.mem_map_of_mem (Option.mem_toList.2 he)))
        |>.text (by decide)
  exact balanced_text (by decide) |>.append herror |>.append (balanced_braced hn comments c.stmts)

theorem balanced_try (comments : Bool) {t : TryStmt Node}
    (h : ∀ c ∈ t.handlers, ∀ s ∈ c.part.texts, PlainText s) :
    Balanced newLine (t.layout comments) := by
  have hhandlers : Balanced newLine (handlersLayout comments t.handlers) :=
    balanced_flatMap fun c hc =>
      balanced_text (by decide) |>.append (balanced_catch hn comments (h c hc))
  refine Balanced.append (balanced_text (by split <;> decide)) ?_
  unfold TryStmt.guardedLayout
  split
  · exact balanced_lines hn comments t.stmts
  · exact balanced_braced hn comments t.stmts |>.append hhandlers

theorem balanced_guarded (comments : Bool) (kind : GuardKind) (condition : Option Node)
    (body : Body Node) : Balanced newLine (guardedLayout comments kind condition body) :=
  balanced_text (by cases kind <;> decide) |>.text (by decide)
    |>.append (balanced_ifSome fun n _ => balanced_whole n |>.text (by decide))
    |>.append (balanced_body hn comments (by decide) body)

theorem balanced_manage (comments : Bool) (managers : List Node) (body : Body Node) :
    Balanced newLine (manageLayout comments managers body) :=
  balanced_text (by decide) |>.append (balanced_commaList comments managers)
    |>.text (by decide) |>.append (balanced_body hn comments (by decide) body)

theorem balanced_on (comments : Bool) (destination : Node) (body : Body Node) :
    Balanced newLine (onLayout comments destination body) :=
  balanced_text (by decide) |>.append (balanced_whole destination)
    |>.text (by decide) |>.append (balanced_body hn comments (by decide) body)

theorem balanced_foreign {code : String} (h : PlainText code) :
    Balanced newLine (foreignLayout code) := by
  rw [foreignLayout, List.append_assoc ("extern \x7b" : Layout)]
  exact (balanced_lineBreak hn |>.text h).enclosed ⟨.curly, fun _ => ⟨rfl, rfl⟩⟩

/-! ## Any construct -/

theorem balanced_formLayout (comments : Bool) {f : Form Node} (h : ∀ s ∈ f.texts, PlainText s) :
    Balanced newLine (f.layout comments) := by
  cases f with
  | array exprs => exact (balanced_commaList comments exprs).inSquare
  | rename symbol newName =>
    exact balanced_whole symbol |>.text (by decide) |>.append (balanced_whole newName)
  | boolLiteral value => exact balanced_bool value
  | quotedLiteral kind bytes => exact balanced_quoted kind bytes
  | domain exprs => exact balanced_domain comments exprs
  | dot receiver field =>
    exact balanced_tight receiver |>.text (by decide) |>.text (h field List.mem_cons_self)
  | erroneous => exact balanced_text (by decide)
  | fnCall callee actuals inBrackets =>
    exact balanced_fnCall callee
      (fun a ha name hname => h name (List.mem_filterMap.2 ⟨a, ha, hname⟩)) inBrackets
  | identifier name => exact balanced_text (h name List.mem_cons_self)
  | numericLiteral kind text => exact balanced_text (h text List.mem_cons_self)
  | letIn decls body =>
    have hdecls : Balanced newLine (join ", " (decls.map fun d => d.part.binding.layout)) :=
      balanced_join balanced_comma fun d hd => balanced_binding (h _ (List.mem_map_of_mem hd))
    exact balanced_text (by decide) |>.append hdecls |>.text (by decide)
      |>.append (balanced_whole body)
  | newObject management typeExpr => exact balanced_new management typeExpr
  | opCall op actuals => exact balanced_opCall (h op List.mem_cons_self) actuals
  | primCall prim actuals => exact balanced_primCall prim actuals
  | range bound lower upper => exact balanced_range bound lower upper
  | reduction kind op iterand => exact balanced_reduction kind op iterand
  | tuple exprs => exact balanced_tuple comments exprs
  | typeQuery name => exact balanced_text (by decide) |>.text (h name List.mem_cons_self)
  | zip actuals =>
    exact balanced_text (by decide) |>.append (balanced_commaList comments actuals).parenthesized
  | beginTask clause body => exact balanced_begin hn comments clause body
  | block body => exact balanced_plainBody hn comments body
  | indexedLoop kind loop => exact balanced_loop hn comments kind loop
  | jump kind target =>
    exact balanced_jump kind fun t ht => h _ (List.mem_map_of_mem (Option.mem_toList.2 ht))
  | catchClause handler => exact balanced_catch hn comments h
  | cobegin clause tasks => exact balanced_cobegin hn comments clause tasks
  | comment text => exact balanced_ifTrue (balanced_text (h text List.mem_cons_self)) comments
  | conditional condition thenBody elseBody =>
    exact balanced_conditional hn comments condition thenBody elseBody
  | deferred body => exact balanced_text (by decide) |>.append (balanced_plainBody hn comments body)
  | delete exprs => exact balanced_text (by decide) |>.append (balanced_commaList comments exprs)
  | doWhile body condition => exact balanced_doWhile hn comments body condition
  | emptyStmt => exact balanced_text (by decide)
  | foreignBlock code => exact balanced_foreign hn (h code List.mem_cons_self)
  | forLoop index iterand isParam body => exact balanced_for hn comments index iterand isParam body
  | moduleAccess kind visibility clauses => exact balanced_access comments kind visibility clauses
  | includeModule visibility isPrototype name =>
    exact balanced_include visibility isPrototype (h name List.mem_cons_self)
  | label name loop => exact balanced_label (h name List.mem_cons_self) loop
  | guardedBlock kind condition body => exact balanced_guarded hn comments kind condition body
  | manage managers body => exact balanced_manage hn comments managers body
  | onLocale destination body => exact balanced_on hn comments destination body
  | require exprs => exact balanced_text (by decide) |>.append (balanced_commaList comments exprs)
  | returnStmt value =>
    exact balanced_text (by decide) |>.append (balanced_ifSome fun n _ =>
      balanced_text (by decide) |>.append (balanced_whole n))
  | select scrutinee arms => exact balanced_select hn comments scrutinee arms
  | sync body => exact balanced_text (by decide) |>.append (balanced_plainBody hn comments body)
  | throw error => exact balanced_text (by decide) |>.append (balanced_whole error)
  | tryStmt attempt =>
    exact balanced_try hn comments fun c hc s hs => h s (List.mem_flatMap.2 ⟨c, hc, hs⟩)
  | whenArm arm => exact balanced_whenArm hn comments arm
  | whileLoop condition body => exact balanced_while hn comments condition body
  | yield value => exact balanced_text (by decide) |>.append (balanced_whole value)
  | classDecl linkage name parent members =>
    exact balanced_class hn comments linkage (h name List.mem_cons_self) parent members
  | aggregateDecl kind linkage name members =>
    exact balanced_aggregate hn comments kind linkage (h name List.mem_cons_self) members
  | enumDecl name elements =>
    exact balanced_enum (h name List.mem_cons_self) fun e he =>
      h _ (List.mem_cons_of_mem _ (List.mem_map_of_mem he))
  | enumElement element => exact balanced_enumElement (h _ List.mem_cons_self)
  | formal decl => exact balanced_formal (h _ List.mem_cons_self)
  | forwarding expr => exact balanced_text (by decide) |>.append (balanced_whole expr)
  | function decl => exact balanced_function hn comments (h _ List.mem_cons_self)
  | moduleDecl visibility kind name stmts =>
    exact balanced_module hn comments visibility kind (h name List.mem_cons_self) stmts
  | multiDecl decls => exact balanced_multiDecl decls
  | taskVar decl => exact balanced_taskVar (h _ List.mem_cons_self)
  | tupleDecl decl => exact balanced_tupleDecl decl
  | typeDecl linkage name =>
    exact balanced_linkage linkage |>.text (by decide) |>.text (h name List.mem_cons_self)
  | varArgFormal decl => exact balanced_varArg (h _ List.mem_cons_self)
  | varDecl decl => exact balanced_varDecl (h _ List.mem_cons_self)
  | visibilityClause clause => exact balanced_visibilityClause comments clause
  | withClause clause => exact balanced_withClause comments clause

/-- **A node with plain texts closes the brackets that it opens**, in whatever role it is written. -/
theorem Node.balanced_layout (comments : Bool) (role : Role) {n : Node}
    (h : ∀ s ∈ n.form.texts, PlainText s) : Balanced newLine (n.layout comments role) := by
  cases role with
  | component => exact balanced_component_layout h
  | whole => exact balanced_formLayout hn comments h
  | typeExpr => exact balanced_formLayout hn comments h

end ChapelSource
