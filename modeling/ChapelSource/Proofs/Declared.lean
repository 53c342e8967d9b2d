import Mathlib.Data.List.Forall2
import ChapelSource.Declared

/-!
# Declarations of several names

A declaration of several names has the modifiers of its first component, and then the names of all.
So it is written like the first component, and after it the others without their modifiers.

* `Node.layout_of_modifiers`: a variable or a tuple of names is its modifiers and its names.
* `multiDeclLayout_eq`: so is a declaration of several names.
* `Node.Declares.pieces_eq`: what is declared tells the text of a component.
* `Node.print_multiDecl_eq_ok_iff`, `Node.print_multiDecl_singleton`, `Node.print_multiDecl_congr`:
  the text of several names, of a single one, and what it depends on.
* **`Node.print_multiDecl`**, `Node.print_multiDecl_config`: the text of a declaration of several
  names.
-/

namespace ChapelSource

open Layout

/-! ## Modifiers -/

/-- Modifiers in the order of their text. -/
def Modifiers.layout (m : Modifiers) : Layout :=
  pragmasLayout m.pragmas ++ (if m.isConfig then "config " else m.linkage.layout : Layout) ++
    intentLayout m.kind

namespace Node

variable {n : Node} {m : Modifiers}

theorem layout_of_modifiers (h : n.modifiers? = some m) (comments : Bool) :
    n.layout comments .whole = m.layout ++ n.layout comments .component := by
  obtain ⟨info, form⟩ := n
  cases form with
  | varDecl v =>
    cases h
    rfl
  | tupleDecl t =>
    cases h
    rfl
  | _ => exact nomatch h

theorem layout_stripped (h : n.modifiers?.isSome) (comments : Bool) :
    n.stripped.layout comments .whole = n.layout comments .component := by
  rw [layout_of_modifiers (modifiers?_stripped h)]
  obtain ⟨info, form⟩ := n
  cases form with
  | varDecl v => rfl
  | tupleDecl t => rfl
  | _ => exact nomatch h

end Node

/-- The components after a first one. -/
def nextComponents (ns : List Node) : Layout := ns.flatMap fun n => ", " ++ component n

theorem multiDeclLayout_eq {d : Node} {m : Modifiers} (hd : d.modifiers? = some m)
    (hkind : m.kind.isSome) (ds : List Node) :
    multiDeclLayout (d :: ds) = m.layout ++ (component d ++ nextComponents ds) := by
  have hjoin : join ", " ((d :: ds).map component) = component d ++ nextComponents ds := by
    rw [List.map_cons, join_cons, List.flatMap_map]
    rfl
  -- The kind of the first component is required, so it is written as if it were optional.
  have hrequired : ∀ intent : Option Intent, intent.isSome →
      requiredIntent intent ++ (" " : Layout) = intentLayout intent := by
    intro intent h
    cases intent with
    | none => exact nomatch h
    | some i => rfl
  rw [← hjoin]
  obtain ⟨info, form⟩ := d
  cases form with
  | varDecl v =>
    cases hd
    show v.decorationLayout ++ requiredIntent v.kind ++ (" " ++ join ", " _) = _
    rw [← List.append_assoc, List.append_assoc v.decorationLayout, hrequired v.kind hkind]
    rfl
  | tupleDecl t =>
    cases hd
    show requiredIntent t.intent ++ (" " ++ join ", " _) = _
    rw [← List.append_assoc, hrequired t.intent hkind]
    rfl
  | _ => exact nomatch hd

/-! ## Names -/

namespace Node

section

variable {comments inType : Bool}

theorem pieces_component (n : Node) :
    (component n).pieces comments inType = n.pieces comments inType .component := by
  rw [component, pieces_cons, pieces_nil, List.append_nil]
  rfl

/-- All components are those after a first one without the first comma. -/
theorem pieces_join (ns : List Node) : (join ", " (ns.map component)).pieces comments inType =
    ((nextComponents ns).pieces comments inType).tail := by
  cases ns with
  | nil => rfl
  | cons n ns =>
    rw [List.map_cons, join_cons, List.flatMap_map]
    rfl

theorem AllDeclare.length_eq : ∀ {ns : List Node} {ts : List NameTree}, AllDeclare ns ts →
    ns.length = ts.length
  | _, _, .nil => rfl
  | _, _, .cons _ hs => congrArg Nat.succ hs.length_eq

mutual

theorem Declares.pieces_eq : ∀ {n n' : Node} {t : NameTree}, n.Declares t → n'.Declares t →
    n.pieces comments inType .component = n'.pieces comments inType .component
  | _, _, _, .name _ _ _ _ _ binding, .name _ _ _ _ _ _ => by
    rw [Node.pieces_eq, Node.pieces_eq]
    rfl
  | _, _, _, .tuple info intent typeExpr initExpr hs, .tuple info' intent' _ _ hs' => by
    rw [Node.pieces_eq, Node.pieces_eq]
    show (TupleDecl.contentsLayout _).pieces _ _ = (TupleDecl.contentsLayout _).pieces _ _
    simp only [TupleDecl.contentsLayout, parenthesized, pieces_append, pieces_join, hs.length_eq,
      hs'.length_eq, hs.pieces_eq hs']

theorem AllDeclare.pieces_eq : ∀ {ns ns' : List Node} {ts : List NameTree}, AllDeclare ns ts →
    AllDeclare ns' ts → (nextComponents ns).pieces comments inType =
      (nextComponents ns').pieces comments inType
  | _, _, _, .nil, .nil => rfl
  | _, _, _, .cons h hs, .cons h' hs' => by
    rw [nextComponents, nextComponents, List.flatMap_cons, List.flatMap_cons, ← nextComponents,
      ← nextComponents]
    simp only [pieces_append, pieces_component, h.pieces_eq h', hs.pieces_eq hs']

end

end

/-! ## Printing -/

theorem exists_forall₂_iff {α β : Type} {P : α → β → Prop} {l : List α} :
    (∃ l', List.Forall₂ P l l') ↔ ∀ a ∈ l, ∃ b, P a b := by
  induction l with
  | nil => exact ⟨fun _ => nofun, fun _ => ⟨[], .nil⟩⟩
  | cons a l ih =>
    rw [List.forall_mem_cons, ← ih]
    constructor
    · rintro ⟨_, h⟩
      cases h with
      | cons hb hl => exact ⟨⟨_, hb⟩, ⟨_, hl⟩⟩
    · rintro ⟨⟨b, hb⟩, ⟨l', hl⟩⟩
      exact ⟨b :: l', .cons hb hl⟩

variable {o : PrintOptions} {d : Node} {ds : List Node} {m : Modifiers}

theorem print_component (h : d.modifiers?.isSome) (o : PrintOptions) :
    (component d).print o = d.stripped.print o := by
  rw [print_eq_layout, layout_stripped h, Layout.print, Layout.print, pieces_component,
    Node.pieces_eq]

theorem print_of_modifiers (h : d.modifiers? = some m) (o : PrintOptions) :
    d.print o = (m.layout ++ component d).print o := by
  rw [print_eq_layout, layout_of_modifiers h, Layout.print, Layout.print, pieces_append,
    pieces_append, pieces_component, Node.pieces_eq]

theorem print_multiDecl_eq (hd : d.modifiers? = some m) (hkind : m.kind.isSome) (info : NodeInfo)
    (o : PrintOptions) : (mk info (.multiDecl (d :: ds))).print o =
      (m.layout ++ component d ++ nextComponents ds).print o := by
  rw [print_eq_layout, List.append_assoc, ← multiDeclLayout_eq hd hkind]
  rfl

theorem print_nextComponents_eq_ok_iff (hds : ∀ e ∈ ds, e.modifiers?.isSome) {text : String} :
    (nextComponents ds).print o = .ok text ↔
      ∃ ss, List.Forall₂ (fun e s => e.stripped.print o = .ok s) ds ss ∧
        text = String.join (ss.map (", " ++ ·)) := by
  induction ds generalizing text with
  | nil =>
    constructor
    · rintro ⟨⟩
      exact ⟨[], .nil, rfl⟩
    · rintro ⟨_, ⟨⟩, rfl⟩
      rfl
  | cons e ds ih =>
    have he := print_component (hds e List.mem_cons_self) o
    have hsplit : nextComponents (e :: ds) = ", " ++ component e ++ nextComponents ds := rfl
    simp only [hsplit, print_append_eq_ok_iff, print_text, he,
      ih fun e' he' => hds e' (List.mem_cons_of_mem _ he')]
    constructor
    · rintro ⟨_, _, ⟨_, s, ⟨⟩, hs, rfl⟩, ⟨ss, hss, rfl⟩, rfl⟩
      exact ⟨s :: ss, .cons hs hss, by rw [List.map_cons, String.join_cons]⟩
    · rintro ⟨_, h, rfl⟩
      cases h with
      | cons hs hss =>
        exact ⟨_, _, ⟨_, _, rfl, hs, rfl⟩, ⟨_, hss, rfl⟩, by rw [List.map_cons, String.join_cons]⟩

/-- A declaration of several names has a text if its first component has one, and the others without
their modifiers. -/
theorem print_multiDecl_eq_ok_iff (hd : d.modifiers? = some m) (hkind : m.kind.isSome)
    (hds : ∀ e ∈ ds, e.modifiers?.isSome) (info : NodeInfo) {text : String} :
    (mk info (.multiDecl (d :: ds))).print o = .ok text ↔
      ∃ s ss, d.print o = .ok s ∧ List.Forall₂ (fun e s => e.stripped.print o = .ok s) ds ss ∧
        text = s ++ String.join (ss.map (", " ++ ·)) := by
  rw [print_multiDecl_eq hd hkind, print_append_eq_ok_iff, ← print_of_modifiers hd]
  simp only [print_nextComponents_eq_ok_iff hds]
  constructor
  · rintro ⟨s, _, hs, ⟨ss, hss, rfl⟩, rfl⟩
    exact ⟨s, ss, hs, hss, rfl⟩
  · rintro ⟨s, ss, hs, hss, rfl⟩
    exact ⟨s, _, hs, ⟨ss, hss, rfl⟩, rfl⟩

theorem print_multiDecl_singleton (hd : d.modifiers? = some m) (hkind : m.kind.isSome)
    (info : NodeInfo) (o : PrintOptions) : (mk info (.multiDecl [d])).print o = d.print o := by
  rw [print_multiDecl_eq hd hkind, print_of_modifiers hd]
  exact congrArg (Layout.print o) (List.append_nil _)

/-- What is declared, and the modifiers of the first component, tell the text of a declaration of
several names. -/
theorem print_multiDecl_congr {d' : Node} {ds' : List Node} {ts : List NameTree}
    (hd : d.modifiers? = some m) (hd' : d'.modifiers? = some m) (hkind : m.kind.isSome)
    (h : AllDeclare (d :: ds) ts) (h' : AllDeclare (d' :: ds') ts) (info info' : NodeInfo)
    (o : PrintOptions) :
    (mk info' (.multiDecl (d' :: ds'))).print o = (mk info (.multiDecl (d :: ds))).print o := by
  rw [print_multiDecl_eq hd hkind, print_multiDecl_eq hd' hkind, Layout.print, Layout.print]
  cases h with
  | cons hfirst hrest =>
    cases h' with
    | cons hfirst' hrest' =>
      simp only [pieces_append, pieces_component, hfirst.pieces_eq hfirst', hrest.pieces_eq hrest']

/-- **A declaration of several names is written like its first component, and after it the others
without their modifiers.** So a single name is written as it is alone, and beside the modifiers of
the first component only the names count, with their types and initializers. -/
theorem print_multiDecl (hd : d.modifiers? = some m) (hkind : m.kind.isSome)
    (hds : ∀ e ∈ ds, e.modifiers?.isSome) (info : NodeInfo) (o : PrintOptions) :
    ((∃ text, (mk info (.multiDecl (d :: ds))).print o = .ok text) ↔
      (∃ s, d.print o = .ok s) ∧ ∀ e ∈ ds, ∃ s, e.stripped.print o = .ok s) ∧
    (∀ text, (mk info (.multiDecl (d :: ds))).print o = .ok text ↔
      ∃ s ss, d.print o = .ok s ∧ List.Forall₂ (fun e s => e.stripped.print o = .ok s) ds ss ∧
        text = s ++ String.join (ss.map (", " ++ ·))) ∧
    (mk info (.multiDecl [d])).print o = d.print o ∧
    ∀ info' d' ds' ts, d'.modifiers? = some m → AllDeclare (d :: ds) ts →
      AllDeclare (d' :: ds') ts →
      (mk info' (.multiDecl (d' :: ds'))).print o = (mk info (.multiDecl (d :: ds))).print o := by
  refine ⟨?_, fun _ => print_multiDecl_eq_ok_iff hd hkind hds info,
    print_multiDecl_singleton hd hkind info o,
    fun info' _ _ _ hd' h h' => print_multiDecl_congr hd hd' hkind h h' info info' o⟩
  simp only [print_multiDecl_eq_ok_iff hd hkind hds info]
  constructor
  · rintro ⟨_, s, ss, hs, hss, rfl⟩
    exact ⟨⟨s, hs⟩, exists_forall₂_iff.1 ⟨ss, hss⟩⟩
  · rintro ⟨⟨s, hs⟩, hrest⟩
    obtain ⟨ss, hss⟩ := exists_forall₂_iff.2 hrest
    exact ⟨_, s, ss, hs, hss, rfl⟩

/-- A name with a type and all modifiers, and a pair of names with kinds of their own. -/
theorem print_multiDecl_config :
    let info : NodeInfo := .sourceless ⟨0⟩
    let T : Node := mk info (.identifier "T")
    let name (kind : Option Intent) (s : String) : Node :=
      mk info (.varDecl ⟨[], ⟨none, none⟩, false, kind, ⟨s, none, none⟩⟩)
    let pair (i j k : Option Intent) : Node :=
      mk info (.tupleDecl ⟨i, [name j "b", name k "c"], some T, none⟩)
    let d : Node :=
      mk info (.varDecl ⟨[.noDoc], ⟨none, none⟩, true, some .const, ⟨"a", some T, none⟩⟩)
    (∀ e ∈ [pair none none none], e.modifiers?.isSome) ∧
      (mk info (.multiDecl [d])).print {} = d.print {} ∧
      (mk info (.multiDecl [d, pair none none none])).print {} =
        .ok "pragma \"no doc\" config const a: T, (b, c): T" ∧
      (mk info (.multiDecl [d, pair (some .var) (some .ref) none])).print {} =
        (mk info (.multiDecl [d, pair none none none])).print {} := by
  intro info T name pair d
  have hds : ∀ e ∈ [pair none none none], e.modifiers?.isSome := by
    rintro _ (_ | ⟨_, ⟨⟩⟩)
    rfl
  have hd : d.print {} = .ok "pragma \"no doc\" config const a: T" := by cbv
  have hpair : (pair none none none).stripped.print {} = .ok "(b, c): T" := by cbv
  obtain ⟨-, htext, hone, hsame⟩ := print_multiDecl (d := d) rfl rfl hds info {}
  have hdeclares : ∀ i j k, AllDeclare [d, pair i j k]
      [.name ⟨"a", some T, none⟩, .tuple [.name ⟨"b", none, none⟩, .name ⟨"c", none, none⟩] (some T)
        none] :=
    fun i _ _ => .cons (.name ..) (.cons (.tuple info i _ _
      (.cons (.name ..) (.cons (.name ..) .nil))) .nil)
  exact ⟨hds, hone, (htext _).2 ⟨_, _, hd, .cons hpair .nil, rfl⟩,
    hsame info d _ _ rfl (hdeclares _ _ _) (hdeclares _ _ _)⟩

end Node

end ChapelSource
