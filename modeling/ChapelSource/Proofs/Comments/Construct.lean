import ChapelSource.Proofs.Comments.Layout

/-!
# Constructs without their comments

If the comments of a construct stand only in its lists and none of its choices depends on them, its
layout without comments is the layout of the construct that has lost them.

* `Node.Steady`: a node that is written the same when it loses its comments.
* `uncomment_opCall`, `uncomment_fnCall`, `uncomment_domain`, `uncomment_tuple`,
  `WhenArm.uncomment_layout`, `VisibilityClause.uncomment_layout`, `uncomment_multiDecl`: the
  constructs that make a choice.
* `Form.uncomment_layout`, `Node.uncomment_layout`: any construct, and any node in its role.
-/

namespace ChapelSource

open Layout

/-- A node that is written the same when it loses its comments, its children aside. -/
def Node.Steady (n : Node) : Prop := NoComments n.form.singles ∧ n.form.KeepsShape

/-! ## Expressions -/

section Expressions

variable {n : Node} {actuals exprs : List Node}

theorem Node.Steady.opCall?_uncomment (h : n.Steady) :
    n.uncomment.opCall? = n.opCall?.map fun call => (call.1, call.2.map Node.uncomment) := by
  have hk := h.2
  rw [Node.opCall?_uncomment, Node.opCall?]
  cases hf : n.form with
  | opCall op actuals =>
    rw [hf] at hk
    have hno : NoComments actuals := hk
    simp [uncommentList_of_noComments hno]
  | _ => rfl

theorem uncomment_operand {outer : Operator} {onRight : Bool} (hn : n.isComment = false)
    (h : n.Steady) :
    (operand outer n onRight).uncomment = operand outer n.uncomment onRight := by
  have hparens : operandNeedsParens outer n.uncomment onRight =
      operandNeedsParens outer n onRight := by
    rw [operandNeedsParens, operandNeedsParens, h.opCall?_uncomment]
    cases n.opCall? with
    | none => simp
    | some call => simp
  rw [operand, operand, uncomment_grouped hn, hparens]

theorem mem_operand {outer : Operator} {onRight : Bool} :
    Item.child .whole n ∈ operand outer n onRight := by
  unfold operand grouped
  split <;> simp [parenthesized, whole]

theorem mem_opCall {op : String} (hlen : actuals.length = 1 ∨ actuals.length = 2)
    (hn : n ∈ actuals) : Item.child .whole n ∈ opCallLayout op actuals := by
  match actuals with
  | [] => exact absurd hn List.not_mem_nil
  | [a] =>
    obtain rfl := List.mem_singleton.1 hn
    simp only [opCallLayout]
    split
    · exact List.mem_append_left _ mem_operand
    · exact List.mem_append_right _ mem_operand
  | [a, b] =>
    rcases List.mem_cons.1 hn with rfl | hn
    · exact List.mem_append_left _ (List.mem_append_left _ mem_operand)
    · obtain rfl := List.mem_singleton.1 hn
      exact List.mem_append_right _ mem_operand
  | _ :: _ :: _ :: _ => simp at hlen

theorem uncomment_opCall {op : String} (hno : NoComments actuals)
    (h : ∀ r m, Item.child r m ∈ opCallLayout op actuals → m.Steady) :
    (opCallLayout op actuals).uncomment =
      opCallLayout op (uncommentList Node.uncomment actuals) := by
  rw [uncommentList_of_noComments hno]
  match actuals with
  | [] => rfl
  | [a] =>
    have hs := h .whole a (mem_opCall (.inl rfl) List.mem_cons_self)
    simp only [opCallLayout, List.map_cons, List.map_nil, List.length_singleton]
    split <;> simp [uncomment_operand (hno a List.mem_cons_self) hs]
  | [a, b] =>
    have hb : b ∈ [a, b] := List.mem_cons_of_mem a List.mem_cons_self
    have hsa := h .whole a (mem_opCall (.inr rfl) List.mem_cons_self)
    have hsb := h .whole b (mem_opCall (.inr rfl) hb)
    simp [opCallLayout, uncomment_operand (hno a List.mem_cons_self) hsa,
      uncomment_operand (hno b hb) hsb]
  | _ :: _ :: _ :: _ => rfl

theorem uncomment_tight (hn : n.isComment = false) :
    (tight n).uncomment = tight n.uncomment := by
  have hcall : n.uncomment.opCall?.isSome = n.opCall?.isSome := by
    rw [Node.opCall?_uncomment, Option.isSome_map]
  rw [tight, tight, uncomment_grouped hn, hcall, Node.bindsLoosely_uncomment]

theorem Actual.uncomment_layout {a : Actual Node} (h : a.value.isComment = false) :
    a.layout.uncomment = (Actual.mk a.name a.value.uncomment).layout := by
  have hname : (ifSome a.name fun name => name ++ " = ").uncomment =
      ifSome a.name fun name => name ++ " = " := uncomment_ifSome_atoms fun _ => by simp
  rw [Actual.layout, uncomment_append, hname, uncomment_whole h, Actual.layout]

theorem uncommentActuals_of_noComments {args : List (Actual Node)}
    (h : NoComments (args.map Actual.value)) :
    uncommentActuals Node.uncomment args = args.map fun a => ⟨a.name, a.value.uncomment⟩ := by
  have hkept : args.filter (fun a => !a.value.isComment) = args :=
    List.filter_eq_self.2 fun a ha => by simp [noComments_map.1 h a ha]
  rw [uncommentActuals, hkept]

/-- One comment alone between parentheses leaves nothing between them. -/
theorem uncomment_actuals {args : List (Actual Node)}
    (h : NoComments (args.map Actual.value) ∨ ∃ c, c.isComment ∧ args = [⟨none, c⟩])
    (inBrackets : Bool) :
    (actualsLayout args inBrackets).uncomment =
      actualsLayout (uncommentActuals Node.uncomment args) inBrackets := by
  have hparts : (join ", " (args.map Actual.layout)).uncomment =
      join ", " ((uncommentActuals Node.uncomment args).map Actual.layout) := by
    rcases h with h | ⟨c, hc, rfl⟩
    · rw [uncommentActuals_of_noComments h, uncomment_join, List.map_map, List.map_map]
      congr 1
      exact List.map_congr_left fun a ha => Actual.uncomment_layout (noComments_map.1 h a ha)
    · simp [Actual.layout, ifSome, uncommentActuals, hc, uncomment_whole_comment, join]
  cases inBrackets <;> simp [actualsLayout, hparts]

theorem uncomment_reserved {args : List (Actual Node)}
    (h : ∀ a ∈ args.head?, a.value.isComment = false) :
    (reservedOperand args).uncomment = reservedOperand (uncommentActuals Node.uncomment args) := by
  cases args with
  | nil => rfl
  | cons a rest =>
    have ha := h a rfl
    simp [reservedOperand, uncommentActuals, ha, uncomment_whole]

theorem uncomment_fnCall {callee : Node} {args : List (Actual Node)} {inBrackets : Bool}
    (hn : callee.isComment = false) (h : (Form.fnCall callee args inBrackets).KeepsShape) :
    (fnCallLayout callee args inBrackets).uncomment =
      fnCallLayout callee.uncomment (uncommentActuals Node.uncomment args) inBrackets := by
  obtain ⟨hfirst, hall⟩ := h
  rw [fnCallLayout, fnCallLayout, uncomment_append, uncomment_tight hn, Node.isReserved_uncomment]
  cases hr : callee.isReserved with
  | true => rw [if_pos rfl, if_pos rfl, uncomment_reserved (hfirst hr)]
  | false =>
    rw [if_neg Bool.false_ne_true, if_neg Bool.false_ne_true, uncomment_actuals (hall hr)]

theorem uncomment_primCall {prim : Primitive} (h : NoComments actuals) :
    (primCallLayout prim actuals).uncomment =
      primCallLayout prim (uncommentList Node.uncomment actuals) := by
  have hrest : (furtherActuals actuals).uncomment =
      furtherActuals (actuals.map Node.uncomment) := by
    rw [furtherActuals, uncomment_flatMap, furtherActuals, List.flatMap_map]
    unfold List.flatMap
    congr 1
    refine List.map_congr_left fun a ha => ?_
    rw [uncomment_append, uncomment_atom, uncomment_whole (h a ha)]
  simp [primCallLayout, uncommentList_of_noComments h, hrest]

theorem uncomment_new {management : Option Management} (hn : n.isComment = false) :
    (newLayout management n).uncomment = newLayout management n.uncomment := by
  have hm : (ifSome management fun m => m.keyword ++ " ").uncomment =
      ifSome management fun m => m.keyword ++ " " := uncomment_ifSome_atoms fun _ => by simp
  rw [newLayout, uncomment_append, uncomment_append, uncomment_atom, hm, uncomment_whole hn,
    newLayout]

theorem typeQuery?_of_isComment (h : n.isComment) : n.typeQuery? = none := by
  obtain ⟨text, hform⟩ := Node.isComment_iff.1 h
  rw [Node.typeQuery?, hform]

theorem isComment_of_typeQuery? (h : n.typeQuery?.isSome) : n.isComment = false := by
  cases hc : n.isComment with
  | false => rfl
  | true => simp [typeQuery?_of_isComment hc] at h

/-- A domain that is more than one bare query is written in braces. -/
theorem domainLayout_of_two {comments : Bool} (hnil : exprs ≠ [])
    (hquery : ∀ query, exprs = [query] → query.typeQuery?.isSome = false) :
    domainLayout comments exprs = "\x7b" ++ commaList comments exprs ++ "\x7d" := by
  match exprs with
  | [] => exact absurd rfl hnil
  | [query] => simp [domainLayout, hquery query rfl]
  | _ :: _ :: _ => rfl

theorem uncomment_domain (h : KeepsDomain exprs) :
    (domainLayout false exprs).uncomment =
      domainLayout true (uncommentList Node.uncomment exprs) := by
  obtain ⟨hnil, hquery⟩ := h
  by_cases hone : ∃ query, exprs = [query] ∧ query.typeQuery?.isSome
  · obtain ⟨query, rfl, hq⟩ := hone
    have hn : query.isComment = false := isComment_of_typeQuery? hq
    simp [domainLayout, uncommentList, kept, hn, hq, uncomment_whole]
  by_cases hempty : exprs = []
  · subst hempty
    rfl
  rw [domainLayout_of_two hempty, domainLayout_of_two]
  · simp
  · rw [ne_eq, uncommentList_eq_nil]
    exact fun hk => hempty (hnil hk)
  · intro query hlist
    obtain ⟨m, hm, rfl⟩ := List.map_eq_singleton_iff.1 hlist
    rw [Node.typeQuery?_uncomment, Bool.eq_false_iff]
    exact fun hq => hone ⟨m, hquery m hm hq, hq⟩
  · intro query hlist
    rw [Bool.eq_false_iff]
    exact fun hq => hone ⟨query, hlist, hq⟩

theorem uncomment_range {bound : RangeBound} {lower upper : Option Node}
    (h : NoComments (lower.toList ++ upper.toList)) :
    (rangeLayout bound lower upper).uncomment =
      rangeLayout bound (lower.map Node.uncomment) (upper.map Node.uncomment) := by
  obtain ⟨hlower, hupper⟩ := noComments_append.1 h
  have hbound : ∀ {o : Option Node}, NoComments o.toList →
      (ifSome o whole).uncomment = ifSome (o.map Node.uncomment) whole :=
    fun h => uncomment_ifSome fun n hn => uncomment_whole (noComments_toList.1 h n hn)
  simp [rangeLayout, hbound hlower, hbound hupper]

theorem uncomment_tuple (h : exprs.length = 1 ↔ (kept false exprs).length = 1) :
    (tupleLayout false exprs).uncomment =
      tupleLayout true (uncommentList Node.uncomment exprs) := by
  have hone : ((uncommentList Node.uncomment exprs).length == 1) = (exprs.length == 1) := by
    rw [Bool.eq_iff_iff, beq_iff_eq, beq_iff_eq, uncommentList, List.length_map]
    exact h.symm
  simp [tupleLayout, hone]

end Expressions

/-! ## Statements -/

section Statements

variable {n : Node} {body : Body Node}

theorem WithClause.uncomment_layout (w : WithClause Node) :
    (w.layout false).uncomment = (w.uncomment Node.uncomment).layout true := by
  simp [WithClause.layout, WithClause.uncomment]

theorem uncomment_optionalWith (w : Option (Located (WithClause Node))) :
    (ifSome w fun p => p.part.layout false ++ " ").uncomment =
      ifSome (w.map (Located.map (WithClause.uncomment Node.uncomment)))
        fun p => p.part.layout true ++ " " :=
  uncomment_ifSome fun p _ => by
    rw [uncomment_append, uncomment_atom, WithClause.uncomment_layout]
    rfl

theorem uncomment_begin (w : Option (Located (WithClause Node))) :
    (beginLayout false w body).uncomment =
      beginLayout true (w.map (Located.map (WithClause.uncomment Node.uncomment)))
        (body.uncomment Node.uncomment) := by
  rw [beginLayout, uncomment_append, uncomment_append, uncomment_atom, uncomment_optionalWith,
    Body.uncomment_plainLayout, beginLayout]

theorem uncomment_cobegin (w : Option (Located (WithClause Node))) (tasks : List Node) :
    (cobeginLayout false w tasks).uncomment =
      cobeginLayout true (w.map (Located.map (WithClause.uncomment Node.uncomment)))
        (uncommentList Node.uncomment tasks) := by
  rw [cobeginLayout, uncomment_append, uncomment_append, uncomment_atom, uncomment_optionalWith,
    uncomment_braced, cobeginLayout]

theorem uncomment_loopIndex {index : Option Node} (h : NoComments index.toList) :
    (loopIndexLayout index).uncomment = loopIndexLayout (index.map Node.uncomment) :=
  uncomment_ifSome fun n hn => by
    rw [uncomment_append, uncomment_atom, uncomment_whole (noComments_toList.1 h n hn)]

namespace IndexedLoop

variable {l : IndexedLoop Node}

theorem uncomment_head (h : NoComments (l.index.toList ++ [l.iterand])) :
    (l.headLayout false).uncomment = (l.uncomment Node.uncomment).headLayout true := by
  obtain ⟨hindex, hrest⟩ := noComments_append.1 h
  have hiterand := (noComments_cons.1 hrest).1
  have hw : (ifSome l.withClause fun w => " " ++ w.part.layout false).uncomment =
      ifSome (l.withClause.map (Located.map (WithClause.uncomment Node.uncomment)))
        fun w => " " ++ w.part.layout true :=
    uncomment_ifSome fun w _ => by
      rw [uncomment_append, uncomment_atom, WithClause.uncomment_layout]
      rfl
  rw [headLayout, uncomment_append, uncomment_append, uncomment_loopIndex hindex,
    uncomment_whole hiterand, hw]
  rfl

/-- A bracketed loop without statements stays so only if it had none. -/
theorem uncomment_bracket (h : NoComments (l.index.toList ++ [l.iterand]))
    (hk : (Form.indexedLoop .bracketLoop l).KeepsShape) :
    (l.bracketLayout false).uncomment = (l.uncomment Node.uncomment).bracketLayout true := by
  have hwritten : ((l.uncomment Node.uncomment).body.style != .implicit ||
      !(l.uncomment Node.uncomment).body.stmts.isEmpty) =
      (l.body.style != .implicit || !l.body.stmts.isEmpty) := by
    show (l.body.style != .implicit || !(uncommentList Node.uncomment l.body.stmts).isEmpty) = _
    by_cases hstyle : l.body.style = .implicit
    · rw [isEmpty_uncommentList (hk hstyle)]
    · have hset : (l.body.style != .implicit) = true := bne_iff_ne.2 hstyle
      rw [hset, Bool.true_or, Bool.true_or]
  rw [bracketLayout, bracketLayout, hwritten]
  simp only [uncomment_append, uncomment_atom, uncomment_head h, uncomment_ifTrue,
    Body.uncomment_plainLayout]
  rfl

theorem uncomment_layout {kind : LoopKind} (h : NoComments (l.index.toList ++ [l.iterand]))
    (hk : (Form.indexedLoop kind l).KeepsShape) :
    (l.layout false kind).uncomment = (l.uncomment Node.uncomment).layout true kind := by
  have hkeyword : ∀ keyword, (l.keywordLayout false keyword).uncomment =
      (l.uncomment Node.uncomment).keywordLayout true keyword := by
    intro keyword
    simp only [keywordLayout, uncomment_append, uncomment_atom, uncomment_head h,
      Body.uncomment_layout]
    rfl
  cases kind with
  | bracketLoop => exact uncomment_bracket h hk
  | coforallLoop => exact hkeyword "coforall"
  | forallLoop => exact hkeyword "forall"
  | foreachLoop => exact hkeyword "foreach"

end IndexedLoop

theorem uncomment_for {index : Option Node} {isParam : Bool}
    (h : NoComments (index.toList ++ [n])) :
    (forLayout false index n isParam body).uncomment =
      forLayout true (index.map Node.uncomment) n.uncomment isParam
        (body.uncomment Node.uncomment) := by
  obtain ⟨hindex, hrest⟩ := noComments_append.1 h
  have hiterand := (noComments_cons.1 hrest).1
  simp [forLayout, uncomment_loopIndex hindex, uncomment_whole hiterand, Body.uncomment_layout]

theorem uncomment_jump (kind : JumpKind) (target : Option (Located String)) :
    (jumpLayout kind target).uncomment = jumpLayout kind target := by
  have ht : (ifSome target fun t => " " ++ t.part).uncomment =
      ifSome target fun t => " " ++ t.part := uncomment_ifSome_atoms fun _ => by simp
  rw [jumpLayout, uncomment_append, uncomment_atom, ht]

theorem uncomment_label {name : String} (hn : n.isComment = false) :
    (labelLayout name n).uncomment = labelLayout name n.uncomment := by
  rw [labelLayout, labelLayout, Node.kind_uncomment]
  split
  · simp [uncomment_whole hn]
  · exact uncomment_fault _

theorem uncomment_conditional {elseBody : Option (Body Node)} (hn : n.isComment = false) :
    (conditionalLayout false n body elseBody).uncomment =
      conditionalLayout true n.uncomment (body.uncomment Node.uncomment)
        (elseBody.map (Body.uncomment Node.uncomment)) := by
  have helse : (ifSome elseBody fun b => " else " ++ b.plainLayout false).uncomment =
      ifSome (elseBody.map (Body.uncomment Node.uncomment))
        fun b => " else " ++ b.plainLayout true :=
    uncomment_ifSome fun b _ => by
      rw [uncomment_append, uncomment_atom, Body.uncomment_plainLayout]
  simp only [conditionalLayout, uncomment_append, uncomment_atom, uncomment_whole hn, helse,
    Body.uncomment_layout]

theorem WhenArm.isOtherwise_uncomment {arm : WhenArm Node} (h : arm.KeepsShape) :
    (arm.uncomment Node.uncomment).isOtherwise = arm.isOtherwise := by
  show (uncommentList Node.uncomment arm.cases).isEmpty = arm.cases.isEmpty
  exact isEmpty_uncommentList h Node.uncomment

theorem WhenArm.uncomment_layout {arm : WhenArm Node} (h : arm.KeepsShape) :
    (arm.layout false).uncomment = (arm.uncomment Node.uncomment).layout true := by
  have hhead : (arm.headLayout false).uncomment =
      (arm.uncomment Node.uncomment).headLayout true := by
    rw [WhenArm.headLayout, WhenArm.headLayout, WhenArm.isOtherwise_uncomment h]
    cases arm.isOtherwise with
    | true => rfl
    | false =>
      rw [if_neg Bool.false_ne_true, if_neg Bool.false_ne_true, uncomment_append, uncomment_append,
        uncomment_commaList]
      rfl
  rw [WhenArm.layout, uncomment_append, hhead, Body.uncomment_layout]
  rfl

theorem uncomment_select {arms : List (Located (WhenArm Node))} (hn : n.isComment = false)
    (h : ∀ a ∈ arms, a.part.KeepsShape) :
    (selectLayout false n arms).uncomment =
      selectLayout true n.uncomment (arms.map (Located.map (WhenArm.uncomment Node.uncomment))) := by
  have harms : (join lineBreak (arms.map fun a => a.part.layout false)).uncomment =
      join lineBreak ((arms.map (Located.map (WhenArm.uncomment Node.uncomment))).map
        fun a => a.part.layout true) :=
    uncomment_join_located fun a ha => WhenArm.uncomment_layout (h a ha)
  simp only [selectLayout, uncomment_append, uncomment_atom, uncomment_whole hn, harms]

theorem uncomment_caught {inParens : Bool} {v : VarDecl Node} (h : NoComments v.singles) :
    (caughtGroup inParens v).uncomment = caughtGroup inParens (v.uncomment Node.uncomment) := by
  have htype := (noComments_append.1 (noComments_append.1 h).2).1
  have hcaught : (caughtLayout v).uncomment = caughtLayout (v.uncomment Node.uncomment) := by
    rw [caughtLayout, uncomment_append, uncomment_atom]
    congr 1
    exact uncomment_ifSome fun n hn => by
      rw [uncomment_append, uncomment_atom, uncomment_asType (noComments_toList.1 htype n hn)]
  cases inParens <;> simp [caughtGroup, hcaught]

theorem CatchClause.uncomment_layout {c : CatchClause Node} (h : NoComments c.singles) :
    (c.layout false).uncomment = (c.uncomment Node.uncomment).layout true := by
  have herror : (ifSome c.error fun e => caughtGroup c.inParens e.part ++ " ").uncomment =
      ifSome (c.error.map (Located.map (VarDecl.uncomment Node.uncomment)))
        fun e => caughtGroup c.inParens e.part ++ " " :=
    uncomment_ifSome fun e he => by
      rw [uncomment_append, uncomment_atom, uncomment_caught (noComments_elim.1 h e he)]
      rfl
  simp only [CatchClause.layout, uncomment_append, uncomment_atom, herror, uncomment_braced]
  rfl

theorem TryStmt.uncomment_layout {t : TryStmt Node}
    (h : NoComments (t.handlers.flatMap fun c => c.part.singles)) :
    (t.layout false).uncomment = (t.uncomment Node.uncomment).layout true := by
  have hhandlers : (handlersLayout false t.handlers).uncomment =
      handlersLayout true (t.handlers.map (Located.map (CatchClause.uncomment Node.uncomment))) := by
    rw [handlersLayout, uncomment_flatMap, handlersLayout, List.flatMap_map]
    unfold List.flatMap
    congr 1
    refine List.map_congr_left fun c hc => ?_
    rw [uncomment_append, uncomment_atom,
      CatchClause.uncomment_layout (noComments_flatMap.1 h c hc)]
    rfl
  obtain ⟨isBang, isExpression, stmts, handlers⟩ := t
  cases isBang <;> cases isExpression <;>
    simp [TryStmt.layout, TryStmt.guardedLayout, TryStmt.uncomment, hhandlers]

theorem uncomment_guarded {kind : GuardKind} {condition : Option Node}
    (h : NoComments condition.toList) :
    (guardedLayout false kind condition body).uncomment =
      guardedLayout true kind (condition.map Node.uncomment) (body.uncomment Node.uncomment) := by
  have hc : (ifSome condition (whole · ++ " ")).uncomment =
      ifSome (condition.map Node.uncomment) (whole · ++ " ") :=
    uncomment_ifSome fun n hn => by
      rw [uncomment_append, uncomment_atom, uncomment_whole (noComments_toList.1 h n hn)]
  simp only [guardedLayout, uncomment_append, uncomment_atom, hc, Body.uncomment_layout]

end Statements

/-! ## Declarations -/

section Declarations

variable {n : Node} {members : List Node}

theorem uncomment_multiDecl {decls : List Node} (hno : NoComments decls)
    (h : ∀ r m, Item.child r m ∈ multiDeclLayout decls → m.Steady) :
    (multiDeclLayout decls).uncomment =
      multiDeclLayout (uncommentList Node.uncomment decls) := by
  rw [uncommentList_of_noComments hno]
  cases decls with
  | nil => rfl
  | cons first rest =>
    have hparts := uncomment_components (first :: rest)
    cases hf : first.form with
    | varDecl v =>
      have hfirst : first.Steady := h .component first <| by
        simp only [multiDeclLayout, hf]
        cases rest <;> simp [join_singleton, join_cons_cons, component]
      have hsingles : NoComments v.singles := by
        have := hfirst.1
        rwa [hf] at this
      simp only [multiDeclLayout, hf, List.map_cons, Node.form_uncomment, Form.uncomment,
        uncomment_append, VarDecl.uncomment_decoration hsingles, uncomment_requiredIntent,
        uncomment_atom]
      rw [← List.map_cons, hparts]
      rfl
    | tupleDecl t =>
      simp only [multiDeclLayout, hf, List.map_cons, Node.form_uncomment, Form.uncomment,
        uncomment_append, uncomment_requiredIntent, uncomment_atom]
      rw [← List.map_cons, hparts]
      rfl
    | _ =>
      simp only [multiDeclLayout, hf, List.map_cons, Node.form_uncomment, Form.uncomment,
        Node.kind_uncomment]
      exact uncomment_fault _

theorem identifier?_of_isComment (h : n.isComment) : n.identifier? = none := by
  obtain ⟨text, hform⟩ := Node.isComment_iff.1 h
  rw [Node.identifier?, hform]

theorem isComment_of_identifier? (h : n.identifier?.isSome) : n.isComment = false := by
  cases hc : n.isComment with
  | false => rfl
  | true => simp [identifier?_of_isComment hc] at h

theorem VisibilityClause.uncomment_limitation {c : VisibilityClause Node} (h : c.KeepsShape) :
    (limitationLayout false c.limitationKind c.limitations).uncomment =
      limitationLayout true c.limitationKind (uncommentList Node.uncomment c.limitations) := by
  obtain ⟨symbol, kind, limitations⟩ := c
  -- After `only` and `except` a space follows the keyword exactly if names do.
  have hlisted : (kept false limitations = [] → limitations = []) →
      (ifTrue (!limitations.isEmpty) (" " ++ commaList false limitations)).uncomment =
        ifTrue (!(uncommentList Node.uncomment limitations).isEmpty)
          (" " ++ commaList true (uncommentList Node.uncomment limitations)) := by
    intro hnil
    rw [uncomment_ifTrue, isEmpty_uncommentList hnil, uncomment_append, uncomment_atom,
      uncomment_commaList]
  cases kind with
  | braces => simp [limitationLayout]
  | onlyListed =>
    simp only [limitationLayout, uncomment_append, uncomment_atom, uncomment_wordOrFault,
      hlisted h]
  | exceptListed =>
    simp only [limitationLayout, uncomment_append, uncomment_atom, uncomment_wordOrFault,
      hlisted h]
  | bare =>
    have hno : NoComments limitations := h
    rw [uncommentList_of_noComments hno]
    cases limitations with
    | nil => rfl
    | cons limitation rest =>
      have hn : limitation.isComment = false := (noComments_cons.1 hno).1
      cases rest with
      | nil =>
        simp only [limitationLayout, List.map_cons, List.map_nil, Node.identifier?_uncomment,
          Node.kind_uncomment]
        split
        · simp [uncomment_whole hn]
        · exact uncomment_fault _
      | cons second rest =>
        have hlist := hlisted fun hk => by simp [kept_false_of_noComments hno] at hk
        rw [uncommentList_of_noComments hno] at hlist
        simp only [limitationLayout, List.map_cons, uncomment_append, uncomment_atom,
          uncomment_wordOrFault, hlist]

theorem VisibilityClause.uncomment_layout {c : VisibilityClause Node}
    (hn : c.symbol.isComment = false) (h : c.KeepsShape) :
    (c.layout false).uncomment = (c.uncomment Node.uncomment).layout true := by
  rw [VisibilityClause.layout, uncomment_append, uncomment_whole hn,
    VisibilityClause.uncomment_limitation h]
  rfl

theorem uncomment_access {kind : AccessKind} {visibility : Option Visibility}
    {clauses : List (Located (VisibilityClause Node))}
    (hn : NoComments (clauses.map fun c => c.part.symbol))
    (h : ∀ c ∈ clauses, c.part.KeepsShape) :
    (accessLayout false kind visibility clauses).uncomment =
      accessLayout true kind visibility
        (clauses.map (Located.map (VisibilityClause.uncomment Node.uncomment))) := by
  have hclauses : (join ", " (clauses.map fun c => c.part.layout false)).uncomment =
      join ", " ((clauses.map (Located.map (VisibilityClause.uncomment Node.uncomment))).map
        fun c => c.part.layout true) :=
    uncomment_join_located fun c hc =>
      VisibilityClause.uncomment_layout (noComments_map.1 hn c hc) (h c hc)
  simp only [accessLayout, uncomment_append, uncomment_atom, uncomment_visibility, hclauses]

theorem uncomment_class {linkage : LinkageClause Node} {name : String} {parent : Option Node}
    (h : NoComments (linkage.name.toList ++ parent.toList)) :
    (classLayout false linkage name parent members).uncomment =
      classLayout true (linkage.uncomment Node.uncomment) name (parent.map Node.uncomment)
        (uncommentList Node.uncomment members) := by
  obtain ⟨hlinkage, hparent⟩ := noComments_append.1 h
  have hp : (ifSome parent (": " ++ asType · ++ " ")).uncomment =
      ifSome (parent.map Node.uncomment) (": " ++ asType · ++ " ") :=
    uncomment_ifSome fun n hn => by
      rw [uncomment_append, uncomment_append, uncomment_atom, uncomment_atom,
        uncomment_asType (noComments_toList.1 hparent n hn)]
  simp only [classLayout, uncomment_append, uncomment_atom, hp, uncomment_braced,
    LinkageClause.uncomment_layout hlinkage]

theorem uncomment_aggregate {kind : AggregateKind} {linkage : LinkageClause Node} {name : String}
    (h : NoComments linkage.name.toList) :
    (aggregateLayout false kind linkage name members).uncomment =
      aggregateLayout true kind (linkage.uncomment Node.uncomment) name
        (uncommentList Node.uncomment members) := by
  simp [aggregateLayout, LinkageClause.uncomment_layout h]

theorem uncomment_enum {name : String} {elements : List (Located (EnumElement Node))}
    (h : NoComments (elements.flatMap fun e => e.part.initExpr.toList)) :
    (enumLayout name elements).uncomment =
      enumLayout name (elements.map (Located.map (EnumElement.uncomment Node.uncomment))) := by
  have helements : (join ", " (elements.map fun e => e.part.layout)).uncomment =
      join ", " ((elements.map (Located.map (EnumElement.uncomment Node.uncomment))).map
        fun e => e.part.layout) :=
    uncomment_join_located fun e he =>
      EnumElement.uncomment_layout (noComments_flatMap.1 h e he)
  simp only [enumLayout, uncomment_append, uncomment_atom, helements]

theorem uncomment_module {visibility : Option Visibility} {kind : Option ModuleKind}
    {name : String} :
    (moduleLayout false visibility kind name members).uncomment =
      moduleLayout true visibility kind name (uncommentList Node.uncomment members) := by
  have hk : (ifSome (kind.bind ModuleKind.keyword?) (fun k => k ++ " ")).uncomment =
      ifSome (kind.bind ModuleKind.keyword?) (fun k => k ++ " ") :=
    uncomment_ifSome_atoms fun _ => by simp
  simp only [moduleLayout, uncomment_append, uncomment_atom, uncomment_visibility, hk,
    uncomment_braced]

theorem uncomment_include {visibility : Option Visibility} {isPrototype : Bool} {name : String} :
    (includeLayout visibility isPrototype name).uncomment =
      includeLayout visibility isPrototype name := by
  simp [includeLayout]

theorem uncomment_receiver {isPrimary : Bool} {r : Formal Node}
    (h : NoComments r.binding.singles) :
    (receiverLayout isPrimary r).uncomment =
      receiverLayout isPrimary (r.uncomment Node.uncomment) := by
  have htype : (receiverTypeLayout r.binding.typeExpr).uncomment =
      receiverTypeLayout (r.binding.typeExpr.map Node.uncomment) := by
    have hno := (noComments_append.1 h).1
    cases ht : r.binding.typeExpr with
    | none => rfl
    | some t =>
      have hn : t.isComment = false := noComments_toList.1 hno t ht
      simp only [receiverTypeLayout, receiverType, Option.map_some, uncomment_append,
        uncomment_atom, Node.identifier?_uncomment]
      split <;> simp [uncomment_whole hn, uncomment_asType hn]
  rw [receiverLayout, uncomment_append, uncomment_intent, uncomment_ifTrue, htype]
  rfl

namespace FunctionDecl

variable {f : FunctionDecl Node}

/-- A function that may stand without parentheses does so only if it had no formals. -/
theorem uncomment_formals (h : (Form.function f).KeepsShape) :
    (ifTrue (!(f.formals.isEmpty && f.isParenless))
        (parenthesized (commaList false f.formals))).uncomment =
      ifTrue (!((uncommentList Node.uncomment f.formals).isEmpty && f.isParenless))
        (parenthesized (commaList true (uncommentList Node.uncomment f.formals))) := by
  have hparens : ((uncommentList Node.uncomment f.formals).isEmpty && f.isParenless) =
      (f.formals.isEmpty && f.isParenless) := by
    cases hp : f.isParenless with
    | false => rw [Bool.and_false, Bool.and_false]
    | true => rw [isEmpty_uncommentList (h hp)]
  rw [uncomment_ifTrue, hparens, uncomment_parenthesized, uncomment_commaList]

theorem isPrimaryMethod_uncomment :
    (f.uncomment Node.uncomment).isPrimaryMethod = f.isPrimaryMethod := by
  unfold isPrimaryMethod isMethod
  show (((f.receiver.map _).isSome && f.flags.has .primaryMethod) = _)
  rw [Option.isSome_map]

theorem uncomment_layout (hs : NoComments f.singles) (h : (Form.function f).KeepsShape) :
    (f.layout false).uncomment = (f.uncomment Node.uncomment).layout true := by
  simp only [singles, noComments_append] at hs
  obtain ⟨⟨⟨hlinkage, hreceiver⟩, htype⟩, hwhere⟩ := hs
  have hhead : (f.headLayout false).uncomment =
      (f.uncomment Node.uncomment).headLayout true := by
    have hr : (ifSome f.receiver fun r => receiverLayout f.isPrimaryMethod r.part).uncomment =
        ifSome (f.receiver.map (Located.map (Formal.uncomment Node.uncomment)))
          fun r => receiverLayout f.isPrimaryMethod r.part :=
      uncomment_ifSome fun r hr => uncomment_receiver (noComments_elim.1 hreceiver r hr)
    rw [headLayout, headLayout, isPrimaryMethod_uncomment, uncomment_append, uncomment_append, hr,
      uncomment_atom, uncomment_formals h]
    rfl
  have hresult : (resultLayout f.returnIntent f.returnType f.whereClause f.isThrowing).uncomment =
      resultLayout f.returnIntent (f.returnType.map Node.uncomment)
        (f.whereClause.map Node.uncomment) f.isThrowing := by
    have hi : (ifSome f.returnIntent fun i => " " ++ i.keyword).uncomment =
        ifSome f.returnIntent fun i => " " ++ i.keyword := uncomment_ifSome_atoms fun _ => by simp
    have hw : (ifSome f.whereClause (" where " ++ whole ·)).uncomment =
        ifSome (f.whereClause.map Node.uncomment) (" where " ++ whole ·) :=
      uncomment_ifSome fun n hn => by
        rw [uncomment_append, uncomment_atom, uncomment_whole (noComments_toList.1 hwhere n hn)]
    simp only [resultLayout, uncomment_append, hi, hw, uncomment_type htype, uncomment_ifTrue,
      uncomment_atom]
  have hbody : (functionBodyLayout false f.body).uncomment =
      functionBodyLayout true (f.body.map (uncommentList Node.uncomment)) := by
    cases f.body <;> simp [functionBodyLayout]
  simp only [layout, leadLayout, endLayout, uncomment_append, uncomment_pragmas,
    uncomment_visibility, uncomment_atom, LinkageClause.uncomment_layout hlinkage, hhead, hresult,
    hbody]
  rfl

end FunctionDecl

end Declarations

/-! ## Any construct -/

/-- A construct that keeps its shape is laid out without its comments as the construct that has lost
them. Of the children only operands are looked into. -/
theorem Form.uncomment_layout {f : Form Node} (hcomment : ∀ text, f ≠ .comment text)
    (hs : NoComments f.singles) (hk : f.KeepsShape)
    (hc : ∀ r m, Item.child r m ∈ f.layout false → m.Steady) :
    (f.layout false).uncomment = (f.uncomment Node.uncomment).layout true := by
  cases f with
  | array exprs => simp [Form.layout, Form.uncomment]
  | rename symbol newName =>
    simp only [Form.singles, noComments_cons] at hs
    simp [Form.layout, Form.uncomment, uncomment_whole hs.1, uncomment_whole hs.2.1]
  | domain exprs => exact uncomment_domain hk
  | dot receiver field =>
    simp [Form.layout, Form.uncomment, uncomment_tight (noComments_cons.1 hs).1]
  | fnCall callee actuals inBrackets => exact uncomment_fnCall (noComments_cons.1 hs).1 hk
  | letIn decls body =>
    obtain ⟨hdecls, hbody⟩ := noComments_append.1 hs
    have hd : (join ", " (decls.map fun d => d.part.binding.layout)).uncomment =
        join ", " ((decls.map (Located.map (VarDecl.uncomment Node.uncomment))).map
          fun d => d.part.binding.layout) :=
      uncomment_join_located (f := fun v : VarDecl Node => v.binding.layout)
        (g := fun v : VarDecl Node => v.binding.layout) fun d hd =>
        Binding.uncomment_layout (noComments_append.1 (noComments_flatMap.1 hdecls d hd)).2
    simp only [Form.layout, uncomment_append, uncomment_atom, hd,
      uncomment_whole (noComments_cons.1 hbody).1]
    rfl
  | newObject management typeExpr => exact uncomment_new (noComments_cons.1 hs).1
  | opCall op actuals => exact uncomment_opCall hk hc
  | primCall prim actuals => exact uncomment_primCall hk
  | range bound lower upper => exact uncomment_range hs
  | reduction kind op iterand =>
    simp only [Form.singles, noComments_cons] at hs
    simp [Form.layout, Form.uncomment, reductionLayout, uncomment_whole hs.1,
      uncomment_tight hs.2.1]
  | tuple exprs => exact uncomment_tuple hk
  | zip actuals => simp [Form.layout, Form.uncomment]
  | beginTask clause body => exact uncomment_begin clause
  | block body => exact body.uncomment_plainLayout
  | indexedLoop kind loop => exact IndexedLoop.uncomment_layout hs hk
  | jump kind target => exact uncomment_jump kind target
  | catchClause handler => exact CatchClause.uncomment_layout hs
  | cobegin clause tasks => exact uncomment_cobegin clause tasks
  | comment text => exact absurd rfl (hcomment text)
  | conditional condition thenBody elseBody =>
    exact uncomment_conditional (noComments_cons.1 hs).1
  | deferred body => simp [Form.layout, Form.uncomment, Body.uncomment_plainLayout]
  | delete exprs => simp [Form.layout, Form.uncomment]
  | doWhile body condition =>
    simp [Form.layout, Form.uncomment, doWhileLayout, Body.uncomment_plainLayout,
      uncomment_whole (noComments_cons.1 hs).1]
  | forLoop index iterand isParam body => exact uncomment_for hs
  | moduleAccess kind visibility clauses => exact uncomment_access hs hk
  | includeModule visibility isPrototype name => exact uncomment_include
  | label name loop => exact uncomment_label (noComments_cons.1 hs).1
  | guardedBlock kind condition body => exact uncomment_guarded hs
  | manage managers body =>
    simp [Form.layout, Form.uncomment, manageLayout, Body.uncomment_layout]
  | onLocale destination body =>
    simp [Form.layout, Form.uncomment, onLayout, Body.uncomment_layout,
      uncomment_whole (noComments_cons.1 hs).1]
  | require exprs => simp [Form.layout, Form.uncomment]
  | returnStmt value =>
    have hv : (ifSome value (" " ++ whole ·)).uncomment =
        ifSome (value.map Node.uncomment) (" " ++ whole ·) :=
      uncomment_ifSome fun n hn => by
        rw [uncomment_append, uncomment_atom, uncomment_whole (noComments_toList.1 hs n hn)]
    simp only [Form.layout, Form.uncomment, uncomment_append, uncomment_atom, hv]
  | select scrutinee arms => exact uncomment_select (noComments_cons.1 hs).1 hk
  | sync body => simp [Form.layout, Form.uncomment, Body.uncomment_plainLayout]
  | throw error =>
    simp [Form.layout, Form.uncomment, uncomment_whole (noComments_cons.1 hs).1]
  | tryStmt attempt => exact TryStmt.uncomment_layout hs
  | whenArm arm => exact WhenArm.uncomment_layout hk
  | whileLoop condition body =>
    simp [Form.layout, Form.uncomment, whileLayout, Body.uncomment_layout,
      uncomment_whole (noComments_cons.1 hs).1]
  | yield value =>
    simp [Form.layout, Form.uncomment, uncomment_whole (noComments_cons.1 hs).1]
  | classDecl linkage name parent members => exact uncomment_class hs
  | aggregateDecl kind linkage name members => exact uncomment_aggregate hs
  | enumDecl name elements => exact uncomment_enum hs
  | enumElement element => exact EnumElement.uncomment_layout hs
  | formal decl => exact Formal.uncomment_layout hs
  | forwarding expr =>
    simp [Form.layout, Form.uncomment, uncomment_whole (noComments_cons.1 hs).1]
  | function decl => exact FunctionDecl.uncomment_layout hs hk
  | moduleDecl visibility kind name stmts => exact uncomment_module
  | multiDecl decls => exact uncomment_multiDecl hk hc
  | taskVar decl => exact TaskVar.uncomment_layout hs
  | tupleDecl decl =>
    simp only [Form.layout, Form.uncomment, TupleDecl.layout, uncomment_append, uncomment_intent,
      TupleDecl.uncomment_contents hk hs]
    rfl
  | typeDecl linkage name =>
    simp [Form.layout, Form.uncomment, LinkageClause.uncomment_layout hs]
  | varArgFormal decl => exact VarArgFormal.uncomment_layout hs
  | varDecl decl => exact VarDecl.uncomment_layout hs
  | visibilityClause clause =>
    exact VisibilityClause.uncomment_layout (noComments_cons.1 hs).1 hk
  | withClause clause => exact clause.uncomment_layout
  | boolLiteral _ | quotedLiteral _ _ | erroneous | identifier _ | numericLiteral _ _
  | typeQuery _ | emptyStmt | foreignBlock _ => rfl

theorem uncomment_componentLayout {n : Node} (h : n.Steady) :
    (componentLayout n).uncomment = componentLayout n.uncomment := by
  obtain ⟨hs, hk⟩ := h
  unfold componentLayout
  rw [Node.form_uncomment, Node.kind_uncomment]
  cases hf : n.form with
  | tupleDecl t =>
    rw [hf] at hs hk
    exact TupleDecl.uncomment_contents hk hs
  | varDecl v =>
    rw [hf] at hs
    exact Binding.uncomment_layout (noComments_append.1 hs).2
  | formal f =>
    rw [hf] at hs
    exact Binding.uncomment_layout hs
  | varArgFormal f =>
    rw [hf] at hs
    exact Binding.uncomment_layout (noComments_append.1 hs).1
  | taskVar t =>
    rw [hf] at hs
    exact Binding.uncomment_layout hs
  | _ => rfl

/-- **A node that keeps its shape is laid out without its comments as the node that has lost them.** -/
theorem Node.uncomment_layout {n : Node} {role : Role} (hn : n.isComment = false) (h : n.Steady)
    (hc : ∀ r m, Item.child r m ∈ n.layout false role → m.Steady) :
    (n.layout false role).uncomment = n.uncomment.layout true role := by
  have hcomment : ∀ text, n.form ≠ .comment text := by
    intro text hf
    rw [Node.isComment_iff.2 ⟨text, hf⟩] at hn
    contradiction
  have hform : (∀ r m, Item.child r m ∈ n.form.layout false → m.Steady) →
      (n.form.layout false).uncomment = n.uncomment.form.layout true := by
    intro hc
    rw [Node.form_uncomment]
    exact Form.uncomment_layout hcomment h.1 h.2 hc
  cases role with
  | whole => exact hform hc
  | typeExpr => exact hform hc
  | component => exact uncomment_componentLayout h

end ChapelSource
