import Mathlib.Data.List.Forall2
import ChapelSource.Builder
import ChapelSource.Node.Children
import ChapelSource.Proofs.StringPool

/-!
# Names and operands of a construction

* **`Construction.exists_mapNamesM_enter`**: the names of a construction are entered into a pool,
  and any later pool gives them back.
* `Construction.mapOperandsM_congr`, `Construction.exists_mapOperandsM`: operands are found one by
  one.
* **`Construction.children_form`**: the operands of a construction are the children of its construct.
-/

namespace ChapelSource

open StringPool

/-! ## Names -/

namespace Construction

section

variable {τ : Type} [StringPool τ] [LawfulStringPool τ] {α : Type}

theorem exists_mapM_enter (actuals : List (Option String × α)) (t : τ) :
    ∃ stored : List (Option Nat × α),
      (actuals.mapM (renameActualM Builder.enter)).run t =
        (stored, internAll t (actuals.filterMap Prod.fst)) ∧
      ∀ u : τ, Consistent u → Within (internAll t (actuals.filterMap Prod.fst)) u →
        stored.mapM (renameActualM (resolve? u)) = some actuals := by
  induction actuals generalizing t with
  | nil => exact ⟨[], rfl, fun u hu hwithin => rfl⟩
  | cons a actuals ih =>
    obtain ⟨name, value⟩ := a
    cases name with
    | none =>
      obtain ⟨stored, hrun, hback⟩ := ih t
      refine ⟨(none, value) :: stored, ?_, fun u hu hwithin => ?_⟩
      · rw [List.mapM_cons]
        exact congrArg (fun r : _ × τ => ((none, value) :: r.1, r.2)) hrun
      · rw [List.mapM_cons, hback u hu hwithin]
        rfl
    | some s =>
      obtain ⟨stored, hrun, hback⟩ := ih (intern t s).2
      refine ⟨(some (intern t s).1, value) :: stored, ?_, fun u hu hwithin => ?_⟩
      · rw [List.mapM_cons]
        exact congrArg (fun r : _ × τ => ((some (intern t s).1, value) :: r.1, r.2)) hrun
      · have hs : resolve? u (intern t s).1 = some s :=
          ((within_internAll (intern t s).2 _).trans hwithin).resolve? hu (lookup?_intern_self t s)
        rw [List.mapM_cons, hback u hu hwithin]
        simp [renameActualM, hs]

/-- **The names of a construction are entered into a pool, and any later pool gives them back.** -/
theorem exists_mapNamesM_enter (c : Construction String α) (t : τ) :
    ∃ stored : Construction Nat α, (c.mapNamesM Builder.enter).run t =
        (stored, internAll t c.names) ∧
      ∀ u : τ, Consistent u → Within (internAll t c.names) u →
        stored.mapNamesM (resolve? u) = some c := by
  have hback {s : String} {u : τ} (hu : Consistent u) (hwithin : Within (internAll t [s]) u) :
      resolve? u (intern t s).1 = some s := hwithin.resolve? hu (lookup?_intern_self t s)
  cases c with
  | identifier | typeQuery | numericLiteral | opCall | dot | taskVar | varDecl | formal
  | function =>
    exact ⟨_, rfl, fun u hu hwithin => Option.bind_eq_some_iff.2 ⟨_, hback hu hwithin, rfl⟩⟩
  | fnCall callee actuals inBrackets =>
    obtain ⟨stored, hrun, hall⟩ := exists_mapM_enter actuals t
    refine ⟨.fnCall callee stored inBrackets, ?_, fun u hu hwithin => ?_⟩
    · exact congrArg (fun r : _ × τ => (Construction.fnCall callee r.1 inBrackets, r.2)) hrun
    · rw [mapNamesM, hall u hu hwithin]
      rfl
  | emptyStmt | boolLiteral | quotedLiteral | primCall | range | tuple | block | returnStmt
  | withClause | visibilityClause => exact ⟨_, rfl, fun _ _ _ => rfl⟩

end

/-! ## Operands -/

section

variable {σ α β : Type} {g g' : α → Option β}

theorem mapM_list_congr {l : List α} (h : ∀ a ∈ l, g a = g' a) : l.mapM g = l.mapM g' := by
  induction l with
  | nil => rfl
  | cons a l ih =>
    obtain ⟨ha, hl⟩ := List.forall_mem_cons.1 h
    rw [List.mapM_cons, List.mapM_cons, ha, ih hl]

theorem mapM_option_congr {o : Option α} (h : ∀ a ∈ o.toList, g a = g' a) :
    o.mapM g = o.mapM g' := by
  cases o with
  | none => rfl
  | some a => rw [Option.mapM_some, Option.mapM_some, h a (List.mem_singleton_self a)]

theorem mapOperandsM_congr {c : Construction σ α} (h : ∀ a ∈ c.operands, g a = g' a) :
    c.mapOperandsM g = c.mapOperandsM g' := by
  cases c with
  | opCall | primCall | tuple | block | withClause =>
    exact congrArg (Option.bind · _) (mapM_list_congr h)
  | fnCall callee actuals inBrackets =>
    obtain ⟨hcallee, hvalues⟩ := List.forall_mem_cons.1 h
    have hactuals : ∀ a ∈ actuals, replaceActualM g a = replaceActualM g' a := by
      intro a ha
      rw [replaceActualM, replaceActualM, hvalues _ (List.mem_map_of_mem ha)]
    simp only [mapOperandsM, hcallee, mapM_list_congr hactuals]
  | dot receiver field => simp only [mapOperandsM, h receiver (List.mem_singleton_self _)]
  | range bound lower upper =>
    obtain ⟨hlower, hupper⟩ := List.forall_mem_append.1 h
    simp only [mapOperandsM, mapM_option_congr hlower, mapM_option_congr hupper]
  | returnStmt value => exact congrArg (Option.bind · _) (mapM_option_congr h)
  | varDecl kind name typeExpr initExpr | formal intent name typeExpr initExpr =>
    obtain ⟨htype, hinit⟩ := List.forall_mem_append.1 h
    simp only [mapOperandsM, mapM_option_congr htype, mapM_option_congr hinit]
  | visibilityClause symbol limitationKind limitations =>
    obtain ⟨hsymbol, hlimitations⟩ := List.forall_mem_cons.1 h
    simp only [mapOperandsM, hsymbol, mapM_list_congr hlimitations]
  | emptyStmt | identifier | typeQuery | numericLiteral | boolLiteral | quotedLiteral | taskVar
  | function => rfl

/-- Something is found for each. -/
abbrev Found (g : α → Option β) : List α → List β → Prop := List.Forall₂ fun a b => g a = some b

theorem Found.append {l k : List α} {bs ds : List β} (h : Found g l bs) (h' : Found g k ds) :
    Found g (l ++ k) (bs ++ ds) := List.rel_append h h'

theorem exists_mapM_list {l : List α} (h : ∀ a ∈ l, ∃ b, g a = some b) :
    ∃ bs, l.mapM g = some bs ∧ Found g l bs := by
  induction l with
  | nil => exact ⟨[], rfl, .nil⟩
  | cons a l ih =>
    obtain ⟨⟨b, hb⟩, hl⟩ := List.forall_mem_cons.1 h
    obtain ⟨bs, hbs, hfound⟩ := ih hl
    exact ⟨b :: bs, by simp [List.mapM_cons, hb, hbs], .cons hb hfound⟩

theorem exists_mapM_option {o : Option α} (h : ∀ a ∈ o.toList, ∃ b, g a = some b) :
    ∃ ob, o.mapM g = some ob ∧ Found g o.toList ob.toList := by
  cases o with
  | none => exact ⟨none, rfl, .nil⟩
  | some a =>
    obtain ⟨b, hb⟩ := h a (List.mem_singleton_self a)
    exact ⟨some b, by simp [hb], .cons hb .nil⟩

theorem exists_mapM_actuals {actuals : List (Option σ × α)}
    (h : ∀ a ∈ actuals.map Prod.snd, ∃ b, g a = some b) :
    ∃ bs, actuals.mapM (replaceActualM g) = some bs ∧
      Found g (actuals.map Prod.snd) (bs.map Prod.snd) := by
  induction actuals with
  | nil => exact ⟨[], rfl, .nil⟩
  | cons a actuals ih =>
    obtain ⟨⟨b, hb⟩, hl⟩ := List.forall_mem_cons.1 h
    obtain ⟨bs, hbs, hfound⟩ := ih hl
    exact ⟨(a.1, b) :: bs, by simp [List.mapM_cons, replaceActualM, hb, hbs], .cons hb hfound⟩

/-- A construction is found if each of its operands is. -/
theorem exists_mapOperandsM {c : Construction σ α} (h : ∀ a ∈ c.operands, ∃ b, g a = some b) :
    ∃ d, c.mapOperandsM g = some d ∧ Found g c.operands d.operands := by
  cases c with
  | opCall | primCall | tuple | block | withClause =>
    obtain ⟨bs, hbs, hfound⟩ := exists_mapM_list h
    exact ⟨_, Option.bind_eq_some_iff.2 ⟨bs, hbs, rfl⟩, hfound⟩
  | fnCall callee actuals inBrackets =>
    obtain ⟨⟨b, hb⟩, hvalues⟩ := List.forall_mem_cons.1 h
    obtain ⟨bs, hbs, hfound⟩ := exists_mapM_actuals hvalues
    exact ⟨.fnCall b bs inBrackets, by simp [mapOperandsM, hb, hbs], .cons hb hfound⟩
  | dot receiver field =>
    obtain ⟨b, hb⟩ := h receiver (List.mem_singleton_self _)
    exact ⟨.dot b field, by simp [mapOperandsM, hb], .cons hb .nil⟩
  | range bound lower upper =>
    obtain ⟨hlower, hupper⟩ := List.forall_mem_append.1 h
    obtain ⟨l, hl, hfound⟩ := exists_mapM_option hlower
    obtain ⟨u, hu, hfound'⟩ := exists_mapM_option hupper
    exact ⟨.range bound l u, by simp [mapOperandsM, hl, hu], hfound.append hfound'⟩
  | returnStmt value =>
    obtain ⟨v, hv, hfound⟩ := exists_mapM_option h
    exact ⟨_, Option.bind_eq_some_iff.2 ⟨v, hv, rfl⟩, hfound⟩
  | varDecl kind name typeExpr initExpr =>
    obtain ⟨htype, hinit⟩ := List.forall_mem_append.1 h
    obtain ⟨t, ht, hfound⟩ := exists_mapM_option htype
    obtain ⟨i, hi, hfound'⟩ := exists_mapM_option hinit
    exact ⟨.varDecl kind name t i, by simp [mapOperandsM, ht, hi], hfound.append hfound'⟩
  | formal intent name typeExpr initExpr =>
    obtain ⟨htype, hinit⟩ := List.forall_mem_append.1 h
    obtain ⟨t, ht, hfound⟩ := exists_mapM_option htype
    obtain ⟨i, hi, hfound'⟩ := exists_mapM_option hinit
    exact ⟨.formal intent name t i, by simp [mapOperandsM, ht, hi], hfound.append hfound'⟩
  | visibilityClause symbol limitationKind limitations =>
    obtain ⟨⟨b, hb⟩, hlimitations⟩ := List.forall_mem_cons.1 h
    obtain ⟨bs, hbs, hfound⟩ := exists_mapM_list hlimitations
    exact ⟨.visibilityClause b limitationKind bs, by simp [mapOperandsM, hb, hbs], .cons hb hfound⟩
  | emptyStmt | identifier | typeQuery | numericLiteral | boolLiteral | quotedLiteral | taskVar
  | function => exact ⟨_, rfl, .nil⟩

end

/-- **The operands of a construction are the children of its construct.** -/
theorem children_form (c : Construction String Node) : c.form.children = c.operands := by
  cases c with
  | fnCall callee actuals inBrackets =>
    rw [form, Form.children, operands, List.map_map]
    rfl
  | varDecl kind name typeExpr initExpr =>
    rw [form, Form.children, VarDecl.children, operands]
    exact List.nil_append _
  | emptyStmt | identifier | typeQuery | numericLiteral | boolLiteral | quotedLiteral | opCall
  | primCall | dot | range | tuple | block | returnStmt | withClause | taskVar | formal | function
  | visibilityClause => rfl

end Construction

end ChapelSource
