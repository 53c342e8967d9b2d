import Mathlib.Tactic.ByContra
import ChapelSource.Proofs.Comments.Construct
import ChapelSource.Proofs.Comments.Width

/-!
# Choices that show

A construct that makes a choice by the comments in a list is written wider or narrower for it. So if
it is as wide without its comments as what it becomes when it loses them, no choice depends on them.

* `keepsTuple_of_width`, `keepsDomain_of_width`, `noComments_of_actuals_width`,
  `noComments_of_prim_width`, `keepsBracket_of_width`, `keepsFormals_of_width`: single choices.
* `WhenArm.width_le`, `VisibilityClause.le_width`: an arm can only become wider and a clause only
  narrower, so no two choices in a row make up for each other.
* **`Form.keepsShape_of_width`**: any construct.
-/

namespace ChapelSource

open Layout

/-! ## Expressions -/

section Expressions

variable {exprs : List Node}

theorem keepsTuple_of_width (ha : (tupleLayout false exprs).Agrees)
    (hw : width false (tupleLayout false exprs) =
      width true (tupleLayout true (uncommentList Node.uncomment exprs))) :
    exprs.length = 1 ↔ (kept false exprs).length = 1 := by
  have hlist := width_commaList_eq ha.of_parenthesized.left
  have hcomma : ",".length = 1 := by decide
  simp only [tupleLayout, width_parenthesized, width_append, width_ifTrue, width_text, hlist,
    uncommentList, List.length_map, beq_iff_eq, hcomma] at hw
  split at hw <;> split at hw <;> simp_all

theorem agrees_commaList_of_domain (ha : (domainLayout false exprs).Agrees) :
    (commaList false exprs).Agrees := by
  match exprs with
  | [] => exact agrees_nil
  | [query] =>
    by_cases hq : query.typeQuery?.isSome
    · have hn := isComment_of_typeQuery? hq
      simpa [domainLayout, hq, commaList, listing, kept, hn, join_singleton] using ha
    · simp only [domainLayout, hq] at ha
      exact ha.left.right
  | a :: b :: rest => exact ha.left.right

theorem commaList_singleton (n : Node) : commaList true [n] = whole n := by
  rw [commaList, listing, kept_true, List.map_singleton, join_singleton]

theorem keepsDomain_of_width (ha : (domainLayout false exprs).Agrees)
    (hw : width false (domainLayout false exprs) =
      width true (domainLayout true (uncommentList Node.uncomment exprs))) :
    KeepsDomain exprs := by
  have hlist := width_commaList_eq (agrees_commaList_of_domain ha)
  have hbrace : "\x7b".length = 1 ∧ "\x7d".length = 1 := by decide
  constructor
  · intro hkept
    by_contra hne
    -- Braces are written around comments alone, but not around nothing.
    have hbraces : domainLayout false exprs = "\x7b" ++ commaList false exprs ++ "\x7d" := by
      refine domainLayout_of_two hne fun query hone => ?_
      rw [Bool.eq_false_iff]
      intro hq
      rw [hone, kept_false_of_noComments (by simp [isComment_of_typeQuery? hq])] at hkept
      exact absurd hkept (List.cons_ne_nil query [])
    rw [hbraces, uncommentList_eq_nil.2 hkept] at hw
    simp only [width_append, width_text, domainLayout, width_nil] at hw
    omega
  · intro query hkept hq
    by_contra hne
    -- A query is in braces beside comments, but not alone.
    have hbraces : domainLayout false exprs = "\x7b" ++ commaList false exprs ++ "\x7d" := by
      refine domainLayout_of_two (fun hnil => ?_) fun other hone => ?_
      · rw [hnil] at hkept
        exact absurd hkept.symm (List.cons_ne_nil query [])
      · rw [Bool.eq_false_iff]
        intro ho
        rw [hone, kept_false_of_noComments (by simp [isComment_of_typeQuery? ho])] at hkept
        exact hne (hone.trans hkept)
    have hbare : uncommentList Node.uncomment exprs = [query.uncomment] := by
      rw [uncommentList, hkept, List.map_singleton]
    have hquery : domainLayout true [query.uncomment] = whole query.uncomment := by
      simp [domainLayout, hq]
    rw [hbare, commaList_singleton] at hlist
    rw [hbraces, hbare, hquery] at hw
    simp only [width_append, width_text, hlist] at hw
    omega

theorem noComments_of_length {nodes : List Node} (h : (kept false nodes).length = nodes.length) :
    NoComments nodes := by
  have hkept : kept false nodes = nodes :=
    List.filter_eq_self.2 (List.length_filter_eq_length_iff.1 h)
  intro n hn
  rw [← hkept] at hn
  exact noComments_kept nodes n hn

/-- Every comment among the actuals of a primitive is written with a comma of its own. -/
theorem width_furtherActuals {actuals : List Node} (ha : (furtherActuals actuals).Agrees) :
    width false (furtherActuals actuals) + 2 * (kept false actuals).length =
      width true (furtherActuals (uncommentList Node.uncomment actuals)) + 2 * actuals.length := by
  have hcomma : ", ".length = 2 := by decide
  induction actuals with
  | nil => rfl
  | cons a actuals ih =>
    have hcons : ∀ (x : Node) (l : List Node),
        furtherActuals (x :: l) = ", " ++ whole x ++ furtherActuals l := fun _ _ => rfl
    rw [hcons] at ha
    have hrest := ih ha.right
    have hfirst := width_uncomment ha.left.right
    cases hc : a.isComment with
    | true =>
      have hkept : kept false (a :: actuals) = kept false actuals := by simp [kept, hc]
      rw [uncomment_whole_comment hc, width_nil] at hfirst
      rw [hcons, uncommentList, hkept]
      simp only [width_append, width_text, List.length_cons]
      rw [uncommentList] at hrest
      omega
    | false =>
      have hkept : kept false (a :: actuals) = a :: kept false actuals := by simp [kept, hc]
      rw [uncomment_whole hc] at hfirst
      rw [hcons, uncommentList, hkept, List.map_cons, hcons]
      simp only [width_append, width_text, List.length_cons]
      rw [uncommentList] at hrest
      omega

theorem noComments_of_prim_width {prim : Primitive} {actuals : List Node}
    (ha : (primCallLayout prim actuals).Agrees)
    (hw : width false (primCallLayout prim actuals) =
      width true (primCallLayout prim (uncommentList Node.uncomment actuals))) :
    NoComments actuals := by
  have hrest := width_furtherActuals ha.right.of_parenthesized.right
  have hname : width false (literal "" prim.name) = width true (literal "" prim.name) := rfl
  refine noComments_of_length ?_
  simp only [primCallLayout, width_append, width_text, width_parenthesized, hname] at hw
  omega

theorem le_width_actuals {args : List (Actual Node)} (ha : ∀ a ∈ args, a.layout.Agrees) :
    total (width true) ((uncommentActuals Node.uncomment args).map Actual.layout) ≤
      total (width false) (args.map Actual.layout) := by
  induction args with
  | nil => exact Nat.le_refl _
  | cons a args ih =>
    obtain ⟨hfirst, hrest⟩ := List.forall_mem_cons.1 ha
    have hle := ih hrest
    cases hc : a.value.isComment with
    | true =>
      have hgone : uncommentActuals Node.uncomment (a :: args) =
          uncommentActuals Node.uncomment args := by simp [uncommentActuals, hc]
      rw [hgone, List.map_cons, total]
      omega
    | false =>
      have hstays : uncommentActuals Node.uncomment (a :: args) =
          ⟨a.name, a.value.uncomment⟩ :: uncommentActuals Node.uncomment args := by
        simp [uncommentActuals, hc]
      have hsame := width_uncomment hfirst
      rw [Actual.uncomment_layout hc] at hsame
      rw [hstays]
      simp only [List.map_cons, total]
      omega

theorem length_uncommentActuals (args : List (Actual Node)) :
    (uncommentActuals Node.uncomment args).length =
      (kept false (args.map Actual.value)).length := by
  induction args with
  | nil => rfl
  | cons a args ih =>
    cases hc : a.value.isComment <;> simp_all [uncommentActuals, kept]

/-- The separators give every comment among the actuals away, unless it is the only one. -/
theorem noComments_of_actuals_width {args : List (Actual Node)} {inBrackets : Bool}
    (ha : (actualsLayout args inBrackets).Agrees)
    (hw : width false (actualsLayout args inBrackets) =
      width true (actualsLayout (uncommentActuals Node.uncomment args) inBrackets)) :
    NoComments (args.map Actual.value) ∨ ∃ c, c.isComment ∧ args = [⟨none, c⟩] := by
  have hjoin : (join ", " (args.map Actual.layout)).Agrees ∧
      width false (join ", " (args.map Actual.layout)) =
        width true (join ", " ((uncommentActuals Node.uncomment args).map Actual.layout)) := by
    cases inBrackets with
    | true =>
      simp only [actualsLayout, if_true, width_append, width_text] at hw ha
      exact ⟨ha.left.right, by omega⟩
    | false =>
      simp only [actualsLayout, Bool.false_eq_true, if_false, width_parenthesized] at hw ha
      exact ⟨ha.of_parenthesized, by omega⟩
  obtain ⟨hagrees, hsame⟩ := hjoin
  have hparts : ∀ a ∈ args, a.layout.Agrees :=
    fun a hmem => hagrees.of_join a.layout (List.mem_map_of_mem hmem)
  have hle := le_width_actuals hparts
  have hcomma : ", ".length = 2 := by decide
  simp only [width_join, width_text, List.length_map, length_uncommentActuals, hcomma] at hsame
  have hlen : (kept false (args.map Actual.value)).length ≤ args.length := by
    have := List.length_filter_le (fun n : Node => false || !n.isComment) (args.map Actual.value)
    rwa [List.length_map] at this
  by_cases hall : (kept false (args.map Actual.value)).length = args.length
  · exact .inl (noComments_of_length (by rw [hall, List.length_map]))
  -- A comment was left out, so nothing is left and nothing else was there.
  have hone : args.length = 1 := by omega
  obtain ⟨a, rfl⟩ := List.length_eq_one_iff.1 hone
  obtain ⟨name, c⟩ := a
  have hc : c.isComment := by
    by_contra hc
    rw [Bool.not_eq_true] at hc
    exact hall (by simp [kept, hc])
  cases name with
  | none => exact .inr ⟨c, hc, rfl⟩
  | some name =>
    have hkept : kept false [c] = [] := by simp [kept, hc]
    have hgone : uncommentActuals Node.uncomment [⟨some name, c⟩] = [] := by
      simp [uncommentActuals, hc]
    have hnamed : width false (Actual.mk (some name) c).layout =
        name.length + " = ".length + width false (whole c) := by
      simp only [Actual.layout, ifSome, Option.elim_some, width_append, width_text]
    have hequals : " = ".length = 3 := by decide
    simp only [hgone, List.map_cons, List.map_nil, total, List.length_cons, List.length_nil, hkept,
      hnamed] at hsame
    omega

end Expressions

/-! ## Statements

A construct whose list holds comments alone becomes the same as the construct whose list is empty, and
that one keeps its shape. -/

section Statements

theorem commaList_of_kept_nil {nodes : List Node} (h : kept false nodes = []) :
    commaList false nodes = [] := by
  rw [commaList, listing, h]
  rfl

theorem uncommentList_of_kept_nil {nodes : List Node} (h : kept false nodes = []) :
    uncommentList Node.uncomment nodes = uncommentList Node.uncomment [] := by
  rw [uncommentList, h]
  rfl

theorem keepsBracket_of_width {l : IndexedLoop Node}
    (hs : NoComments (l.index.toList ++ [l.iterand])) (ha : (l.bracketLayout false).Agrees)
    (hw : width false (l.bracketLayout false) =
      width true ((l.uncomment Node.uncomment).bracketLayout true)) :
    (Form.indexedLoop .bracketLoop l).KeepsShape := by
  obtain ⟨index, iterand, withClause, style, stmts⟩ := l
  intro hstyle hkept
  change style = .implicit at hstyle
  change kept false stmts = [] at hkept
  show stmts = []
  by_contra hne
  subst hstyle
  have hbare : IndexedLoop.uncomment Node.uncomment ⟨index, iterand, withClause, .implicit, []⟩ =
      IndexedLoop.uncomment Node.uncomment ⟨index, iterand, withClause, .implicit, stmts⟩ := by
    simp only [IndexedLoop.uncomment, Body.uncomment, uncommentList_of_kept_nil hkept]
  have hagrees : Agrees (IndexedLoop.bracketLayout false
      ⟨index, iterand, withClause, .implicit, []⟩) :=
    agrees_append.2 ⟨ha.left, agrees_nil⟩
  have hsame := width_uncomment hagrees
  rw [IndexedLoop.uncomment_bracket (l := ⟨index, iterand, withClause, .implicit, []⟩) hs
    (fun _ _ => rfl), hbare] at hsame
  have hlines : lines false stmts = [] := by
    rw [lines, listing, hkept]
    rfl
  have hwritten : (BlockStyle.implicit != .implicit || !stmts.isEmpty) = true := by
    rw [List.isEmpty_eq_false_iff.2 hne]
    rfl
  have hunwritten : (BlockStyle.implicit != .implicit || !([] : List Node).isEmpty) = false := rfl
  have hwide : width false (IndexedLoop.bracketLayout false
      ⟨index, iterand, withClause, .implicit, stmts⟩) =
      width false (IndexedLoop.bracketLayout false ⟨index, iterand, withClause, .implicit, []⟩) +
        1 := by
    have hspace : " ".length = 1 ∧ "".length = 0 := by decide
    simp only [IndexedLoop.bracketLayout, IndexedLoop.headLayout, Body.plainLayout, Body.layout,
      width_append, width_text, width_ifTrue, hwritten, hunwritten, hlines, if_true,
      Bool.false_eq_true, if_false, width_nil]
    omega
  omega

/-- An arm is written narrower if comments are its only cases: `when` is shorter than `otherwise`. -/
theorem WhenArm.width_le {arm : WhenArm Node} (ha : (arm.layout false).Agrees) :
    width false (arm.layout false) ≤ width true ((arm.uncomment Node.uncomment).layout true) ∧
      (width false (arm.layout false) = width true ((arm.uncomment Node.uncomment).layout true) →
        arm.KeepsShape) := by
  by_cases hk : arm.KeepsShape
  · have hsame := width_uncomment ha
    rw [WhenArm.uncomment_layout hk] at hsame
    exact ⟨Nat.le_of_eq hsame, fun _ => hk⟩
  obtain ⟨cases, body⟩ := arm
  obtain ⟨hkept, hne⟩ : kept false cases = [] ∧ cases ≠ [] := Classical.not_imp.1 hk
  have hbare : WhenArm.uncomment Node.uncomment ⟨[], body⟩ =
      WhenArm.uncomment Node.uncomment ⟨cases, body⟩ := by
    simp only [WhenArm.uncomment, uncommentList_of_kept_nil hkept]
  have hagrees : Agrees (WhenArm.layout false ⟨[], body⟩) :=
    agrees_append.2 ⟨List.forall_mem_singleton.2 trivial, ha.right⟩
  have hsame := width_uncomment hagrees
  rw [WhenArm.uncomment_layout (fun _ => rfl), hbare] at hsame
  have hcases : WhenArm.isOtherwise ⟨cases, body⟩ = false := List.isEmpty_eq_false_iff.2 hne
  have hotherwise : WhenArm.isOtherwise ⟨([] : List Node), body⟩ = true := rfl
  have hwide : width false (WhenArm.layout false ⟨cases, body⟩) + 4 =
      width false (WhenArm.layout false ⟨[], body⟩) := by
    have hwords : "when ".length = 5 ∧ " ".length = 1 ∧ "otherwise ".length = 10 := by decide
    simp only [WhenArm.layout, WhenArm.headLayout, hcases, hotherwise, commaList_of_kept_nil hkept,
      if_true, Bool.false_eq_true, if_false, width_append, width_text, width_nil]
    omega
  exact ⟨by omega, fun h => by omega⟩

/-- Located parts that differ in one direction only do not differ if a row of them does not. -/
theorem width_eq_of_join {β : Type} {f f' : β → Layout} {c : β → β} {parts : List (Located β)}
    {separator : Layout} (hsep : width false separator = width true separator)
    (hle : (∀ p ∈ parts, width false (f p.part) ≤ width true (f' (c p.part))) ∨
      ∀ p ∈ parts, width true (f' (c p.part)) ≤ width false (f p.part))
    (hw : width false (join separator (parts.map fun p => f p.part)) =
      width true (join separator ((parts.map (Located.map c)).map fun p => f' p.part))) :
    ∀ p ∈ parts, width false (f p.part) = width true (f' (c p.part)) := by
  rw [width_join, width_join, hsep] at hw
  simp only [List.length_map, Nat.add_right_cancel_iff, total_map] at hw
  intro p hp
  rcases hle with hle | hle
  · exact eq_of_total_eq_of_le hle hw p hp
  · exact (eq_of_total_eq_of_le hle hw.symm p hp).symm

theorem keepsArms_of_width {scrutinee : Node} {arms : List (Located (WhenArm Node))}
    (hn : scrutinee.isComment = false) (ha : (selectLayout false scrutinee arms).Agrees)
    (hw : width false (selectLayout false scrutinee arms) = width true (selectLayout true
      scrutinee.uncomment (arms.map (Located.map (WhenArm.uncomment Node.uncomment))))) :
    ∀ a ∈ arms, a.part.KeepsShape := by
  have hscrutinee := width_uncomment ha.left.left.left.right
  rw [uncomment_whole hn] at hscrutinee
  have hparts : ∀ a ∈ arms, (a.part.layout false).Agrees := fun a hmem =>
    ha.left.right.of_join _ (List.mem_map_of_mem (f := fun a => a.part.layout false) hmem)
  have hjoin : width false (join lineBreak (arms.map fun a => a.part.layout false)) =
      width true (join lineBreak ((arms.map (Located.map (WhenArm.uncomment Node.uncomment))).map
        fun a => a.part.layout true)) := by
    simp only [selectLayout, width_append, width_text] at hw
    omega
  intro a hmem
  refine (WhenArm.width_le (hparts a hmem)).2 (width_eq_of_join rfl (.inl ?_) hjoin a hmem)
  exact fun a hmem => (WhenArm.width_le (hparts a hmem)).1

end Statements

/-! ## Declarations -/

section Declarations

/-- A clause is written wider if comments are the only names after its keyword. -/
theorem VisibilityClause.le_width {c : VisibilityClause Node} (hn : c.symbol.isComment = false)
    (hf : c.fault? = none) (ha : (c.layout false).Agrees) :
    width true ((c.uncomment Node.uncomment).layout true) ≤ width false (c.layout false) ∧
      (width false (c.layout false) = width true ((c.uncomment Node.uncomment).layout true) →
        c.KeepsShape) := by
  by_cases hk : c.KeepsShape
  · have hsame := width_uncomment ha
    rw [VisibilityClause.uncomment_layout hn hk] at hsame
    exact ⟨Nat.le_of_eq hsame.symm, fun _ => hk⟩
  obtain ⟨symbol, kind, limitations⟩ := c
  have hkeyword : ∀ kind, kind = .onlyListed ∨ kind = .exceptListed →
      (kept false limitations = [] ∧ limitations ≠ []) →
      Agrees (VisibilityClause.layout false ⟨symbol, kind, limitations⟩) →
      width true ((VisibilityClause.uncomment Node.uncomment
        ⟨symbol, kind, limitations⟩).layout true) + 1 =
      width false (VisibilityClause.layout false ⟨symbol, kind, limitations⟩) := by
    rintro kind hkind ⟨hkept, hne⟩ ha
    have hbare : VisibilityClause.uncomment Node.uncomment ⟨symbol, kind, []⟩ =
        VisibilityClause.uncomment Node.uncomment ⟨symbol, kind, limitations⟩ := by
      simp only [VisibilityClause.uncomment, uncommentList_of_kept_nil hkept]
    have hkeeps : VisibilityClause.KeepsShape ⟨symbol, kind, []⟩ := by
      rcases hkind with rfl | rfl <;> exact fun _ => rfl
    have hwritten : limitations.isEmpty = false := List.isEmpty_eq_false_iff.2 hne
    have hagrees : Agrees (VisibilityClause.layout false ⟨symbol, kind, []⟩) := by
      refine agrees_append.2 ⟨ha.left, ?_⟩
      rcases hkind with rfl | rfl <;> simp [limitationLayout, Agrees, Item.Agrees, wordOrFault,
        PrintError.required, LimitationKind.keyword?, ifTrue]
    have hsame := width_uncomment hagrees
    rw [VisibilityClause.uncomment_layout (c := ⟨symbol, kind, []⟩) hn hkeeps, hbare] at hsame
    have hspace : " ".length = 1 := by decide
    rw [← hsame]
    rcases hkind with rfl | rfl <;>
      simp only [VisibilityClause.layout, limitationLayout, width_append, width_text, width_ifTrue,
        hwritten, commaList_of_kept_nil hkept, List.isEmpty_nil, Bool.not_true, Bool.not_false,
        if_true, Bool.false_eq_true, if_false, width_nil] <;>
      omega
  cases kind with
  | braces => exact absurd trivial hk
  | onlyListed =>
    have hwide := hkeyword .onlyListed (.inl rfl) (Classical.not_imp.1 hk) ha
    exact ⟨by omega, fun h => by omega⟩
  | exceptListed =>
    have hwide := hkeyword .exceptListed (.inr rfl) (Classical.not_imp.1 hk) ha
    exact ⟨by omega, fun h => by omega⟩
  | bare =>
    -- At most one name is allowed here, and it is an identifier.
    refine absurd ?_ hk
    cases limitations with
    | nil => exact noComments_nil
    | cons limitation rest =>
      cases rest with
      | nil =>
        refine noComments_cons.2 ⟨isComment_of_identifier? ?_, noComments_nil⟩
        by_contra hid
        simp [VisibilityClause.fault?, hid] at hf
      | cons second rest => simp [VisibilityClause.fault?] at hf

theorem keepsClauses_of_width {kind : AccessKind} {visibility : Option Visibility}
    {clauses : List (Located (VisibilityClause Node))}
    (hn : NoComments (clauses.map fun c => c.part.symbol))
    (hf : ∀ c ∈ clauses, c.part.fault? = none)
    (ha : (accessLayout false kind visibility clauses).Agrees)
    (hw : width false (accessLayout false kind visibility clauses) =
      width true (accessLayout true kind visibility
        (clauses.map (Located.map (VisibilityClause.uncomment Node.uncomment))))) :
    ∀ c ∈ clauses, c.part.KeepsShape := by
  have hvisibility : width false (visibilityLayout visibility) =
      width true (visibilityLayout visibility) := by cases visibility <;> rfl
  have hparts : ∀ c ∈ clauses, (c.part.layout false).Agrees := fun c hmem =>
    ha.right.of_join _ (List.mem_map_of_mem (f := fun c => c.part.layout false) hmem)
  have heach : ∀ c ∈ clauses,
      width true ((c.part.uncomment Node.uncomment).layout true) ≤
          width false (c.part.layout false) ∧
        (width false (c.part.layout false) =
            width true ((c.part.uncomment Node.uncomment).layout true) → c.part.KeepsShape) :=
    fun c hmem => VisibilityClause.le_width (noComments_map.1 hn c hmem) (hf c hmem)
      (hparts c hmem)
  have hjoin : width false (join ", " (clauses.map fun c => c.part.layout false)) =
      width true (join ", " ((clauses.map
        (Located.map (VisibilityClause.uncomment Node.uncomment))).map
          fun c => c.part.layout true)) := by
    simp only [accessLayout, width_append, width_text] at hw
    omega
  intro c hmem
  refine (heach c hmem).2 (width_eq_of_join rfl (.inr ?_) hjoin c hmem)
  exact fun c hmem => (heach c hmem).1

/-- What stands before and after the formals of a function does not depend on them. -/
theorem FunctionDecl.exists_layout_formals (f : FunctionDecl Node) :
    ∃ before after : Layout, ∀ formals, FunctionDecl.layout false { f with formals := formals } =
      before ++ (ifTrue (!(formals.isEmpty && f.isParenless))
        (parenthesized (commaList false formals)) ++ after) := by
  refine ⟨leadLayout f.pragmas f.linkage ++ visibilityLayout f.visibility ++
    f.flagText ++ f.kind.keyword ++ " " ++
    (ifSome f.receiver (fun r => receiverLayout f.isPrimaryMethod r.part) ++ f.nameText),
    endLayout false f.returnIntent f.returnType f.whereClause f.isThrowing f.body,
    fun formals => ?_⟩
  rw [FunctionDecl.layout, FunctionDecl.headLayout]
  simp only [List.append_assoc]
  rfl

theorem keepsFormals_of_width {f : FunctionDecl Node} (hs : NoComments f.singles)
    (ha : (f.layout false).Agrees)
    (hw : width false (f.layout false) =
      width true ((f.uncomment Node.uncomment).layout true)) :
    (Form.function f).KeepsShape := by
  intro hp hkept
  by_contra hne
  obtain ⟨before, after, hsplit⟩ := f.exists_layout_formals
  have hfull : f.layout false = _ := hsplit f.formals
  have hempty := hsplit []
  have hwritten : (!(f.formals.isEmpty && f.isParenless)) = true := by
    rw [List.isEmpty_eq_false_iff.2 hne]
    rfl
  have hunwritten : (!(([] : List Node).isEmpty && f.isParenless)) = false := by
    rw [hp]
    rfl
  rw [hwritten] at hfull
  rw [hunwritten] at hempty
  have hbare : ({ f with formals := [] } : FunctionDecl Node).uncomment Node.uncomment =
      f.uncomment Node.uncomment := by
    simp only [FunctionDecl.uncomment, uncommentList_of_kept_nil hkept]
  have hagrees : (({ f with formals := [] } : FunctionDecl Node).layout false).Agrees := by
    rw [hempty]
    rw [hfull] at ha
    exact agrees_append.2 ⟨ha.left, ha.right.right⟩
  have hsame := width_uncomment hagrees
  rw [FunctionDecl.uncomment_layout (f := { f with formals := [] }) hs (fun _ _ => rfl), hbare,
    ← hw, hempty, hfull] at hsame
  simp only [width_append, width_ifTrue, width_parenthesized, if_true, Bool.false_eq_true,
    if_false] at hsame
  omega

theorem isComment_of_componentFault {n : Node} (h : componentFault? n.form = none) :
    n.isComment = false := by
  by_contra hc
  obtain ⟨text, hform⟩ := Node.isComment_iff.1 ((Bool.not_eq_false _).mp hc)
  rw [hform] at h
  contradiction

theorem noComments_of_components {decls : List Node}
    (h : ∀ v ∈ Visit.components decls, v.fault? = none) : NoComments decls := by
  intro n hn
  have hv := h ⟨.component, n⟩ (List.mem_map.2 ⟨n, hn, rfl⟩)
  exact isComment_of_componentFault hv

end Declarations

/-! ## Any construct -/

/-- **A construct that is as wide without its comments as when it has lost them keeps its shape.** Its
children are written the same, no comment is an operand, and nothing is malformed. -/
theorem Form.keepsShape_of_width {f : Form Node} (hs : NoComments f.singles)
    (ho : f.KeepsOperands) (hf : f.fault? = none) (hv : ∀ v ∈ f.visits, v.fault? = none)
    (ha : (f.layout false).Agrees)
    (hw : width false (f.layout false) = width true ((f.uncomment Node.uncomment).layout true)) :
    f.KeepsShape := by
  cases f with
  | tuple exprs => exact keepsTuple_of_width ha hw
  | domain exprs => exact keepsDomain_of_width ha hw
  | opCall op actuals => exact ho
  | fnCall callee actuals inBrackets =>
    refine ⟨ho, fun hr => ?_⟩
    have hcallee := width_uncomment ha.left
    rw [uncomment_tight (noComments_cons.1 hs).1] at hcallee
    have hargs := ha.right
    rw [hr, if_neg Bool.false_ne_true] at hargs
    refine noComments_of_actuals_width hargs ?_
    simp only [Form.layout, Form.uncomment, fnCallLayout, width_append, Node.isReserved_uncomment,
      hr, Bool.false_eq_true, if_false] at hw
    omega
  | primCall prim actuals => exact noComments_of_prim_width ha hw
  | indexedLoop kind loop =>
    cases kind with
    | bracketLoop => exact keepsBracket_of_width hs ha hw
    | _ => exact trivial
  | whenArm arm => exact (WhenArm.width_le ha).2 hw
  | select scrutinee arms => exact keepsArms_of_width (noComments_cons.1 hs).1 ha hw
  | visibilityClause clause =>
    exact (VisibilityClause.le_width (noComments_cons.1 hs).1 hf ha).2 hw
  | moduleAccess kind visibility clauses =>
    refine keepsClauses_of_width hs (fun c hc => ?_) ha hw
    exact hv ⟨.whole, c.node .visibilityClause⟩
      (List.mem_map.2 ⟨c.node .visibilityClause, List.mem_map_of_mem hc, rfl⟩)
  | function decl => exact keepsFormals_of_width hs ha hw
  | multiDecl decls => exact noComments_of_components hv
  | tupleDecl decl =>
    refine noComments_of_components fun v hmem => hv v ?_
    exact List.mem_append_left _ (List.mem_append_left _ hmem)
  | _ => exact trivial

theorem Form.keepsShape_of_component {f : Form Node} (hf : componentFault? f = none)
    (hv : ∀ v ∈ componentVisits f, v.fault? = none) : f.KeepsShape := by
  cases f with
  | tupleDecl decl =>
    refine noComments_of_components fun v hmem => hv v ?_
    exact List.mem_append_left _ (List.mem_append_left _ hmem)
  | varDecl decl => exact trivial
  | formal decl => exact trivial
  | varArgFormal decl => exact trivial
  | taskVar decl => exact trivial
  | _ => exact nomatch hf

end ChapelSource
