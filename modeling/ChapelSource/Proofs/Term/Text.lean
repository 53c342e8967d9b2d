import ChapelSource.Proofs.NameList
import ChapelSource.Proofs.Term.Reading

/-!
# The text of a term

* `Node.IsTerm.writes`: a node that is a term is written as the term.
* **`Node.IsTerm.print_termOfText`**: the text of a term is read as the term.
-/

namespace ChapelSource

open Layout

variable {newLine : String} {comments inType : Bool}

namespace Node

/-! ## Terms as nodes -/

theorem IsTerm.tight_eq {n : Node} {t : TermTree} (h : n.IsTerm t) : tight n = whole n := by
  cases h <;> rfl

theorem IsTerm.isComment_eq {n : Node} {t : TermTree} (h : n.IsTerm t) : n.isComment = false := by
  cases h <;> rfl

theorem IsTerm.isReserved_eq {n : Node} {t : TermTree} (h : n.IsTerm t) :
    n.isReserved = t.isReserved := by
  cases h <;> rfl

theorem AreTerms.length_eq : ∀ {ns : List Node} {ts : List TermTree}, AreTerms ns ts →
    ns.length = ts.length
  | _, _, .nil => rfl
  | _, _, .cons _ hs => congrArg Nat.succ hs.length_eq

theorem AreTerms.kept_eq : ∀ {ns : List Node} {ts : List TermTree}, AreTerms ns ts →
    kept comments ns = ns
  | _, _, .nil => rfl
  | _, _, .cons h hs => by
    have hkept := hs.kept_eq
    unfold kept at hkept ⊢
    rw [List.filter_cons_of_pos (by rw [h.isComment_eq, Bool.not_false, Bool.or_true]), hkept]

theorem writes_actual {n : Node} {cs : List Char} (label : Option Word)
    (h : n.Writes newLine comments inType .whole cs) :
    (Actual.layout ⟨label.map Word.text, n⟩).Writes newLine comments inType
      (itemChars label cs) := by
  cases label with
  | none => exact writes_whole h
  | some w =>
    show Layout.Writes _ _ _ (w.text ++ " = " ++ whole n) _
    rw [List.append_assoc]
    exact (writes_ofList w.chars).append ((writes_text " = ").append (writes_whole h))

/-! ## Writing -/

mutual

/-- **A node that is a term is written as the term.** -/
theorem IsTerm.writes : ∀ {n : Node} {t : TermTree}, n.IsTerm t → t.PlainCallees →
    n.Writes newLine comments inType .whole t.chars
  | _, _, .name info w, _ => by
    rw [writes_iff, TermTree.chars]
    exact writes_ofList w.chars
  | _, _, .literal info bytes, _ => by
    rw [writes_iff, TermTree.chars]
    exact writes_literal "" (Literal.quote bytes)
  | _, _, .tuple info hs, hplain => by
    have hlist := writes_commaJoin (hs.writes hplain)
    have hcomma : ∀ b, (ifTrue b ",").Writes newLine comments inType (lastComma b)
      | false => writes_nil
      | true => writes_text ","
    rw [← hs.kept_eq] at hlist
    rw [writes_iff, TermTree.chars, ← hs.length_eq, listChars, ← List.append_assoc]
    exact (hlist.append (hcomma _)).parenthesized
  | _, _, .array info hs, hplain => by
    have hlist := writes_commaJoin (hs.writes hplain)
    rw [← hs.kept_eq] at hlist
    rw [writes_iff, TermTree.chars, listChars]
    exact hlist.bracketed
  | _, _, .dot info field h, hplain => by
    rw [writes_iff, TermTree.chars]
    show (tight _ ++ "." ++ field.text).Writes _ _ _ _
    rw [h.tight_eq, List.append_assoc]
    exact (writes_whole (h.writes hplain)).append
      ((writes_text ".").append (writes_ofList field.chars))
  | _, _, .call info inBrackets h hs, hplain => by
    obtain ⟨hreserved, hcallee, hactuals⟩ := hplain
    have hlist := writes_commaJoin (hs.writes hactuals)
    rw [writes_iff, TermTree.chars]
    show (tight _ ++ _).Writes _ _ _ _
    rw [h.tight_eq, h.isReserved_eq, hreserved]
    refine (writes_whole (h.writes hcallee)).append ?_
    cases inBrackets with
    | false => exact hlist.parenthesized
    | true => exact hlist.bracketed

theorem AreTerms.writes : ∀ {ns : List Node} {ts : List TermTree}, AreTerms ns ts →
    TermTree.ElementsPlain ts → List.Forall₂ (Layout.Writes newLine comments inType) (ns.map whole)
      (TermTree.elementTexts ts)
  | _, _, .nil, _ => .nil
  | _, _, .cons h hs, hplain => .cons (writes_whole (h.writes hplain.1)) (hs.writes hplain.2)

theorem AreTermActuals.writes : ∀ {actuals : List (Actual Node)} {items : List TermItem},
    AreTermActuals actuals items → TermTree.ActualsPlain items →
    List.Forall₂ (Layout.Writes newLine comments inType) (actuals.map Actual.layout)
      (TermTree.actualTexts items)
  | _, _, .nil, _ => .nil
  | _, _, .cons label h hs, hplain =>
    .cons (writes_actual label (h.writes hplain.1)) (hs.writes hplain.2)

end

/-- **What a term is printed as is read as the term.** -/
theorem IsTerm.print_termOfText {n : Node} {t : TermTree} (h : n.IsTerm t) (ht : t.PlainCallees)
    (o : PrintOptions) : ∃ text, n.print o = .ok text ∧ termOfText? text = some t :=
  ⟨String.ofList t.chars, (h.writes ht).print_eq, t.termOfText?_chars⟩

end Node

namespace TermTree

/-- The term of `f.g[g = ("\"",), []]`. -/
theorem print_termOfText_access :
    let f : Word := .single 'f' (by decide)
    let g : Word := .single 'g' (by decide)
    let t : TermTree :=
      .call (.dot (.name f) g) [(some g, .tuple [.literal [34]]), (none, .array [])] true
    t.PlainCallees ∧
      ∃ text, (t.toNode (.sourceless ⟨0⟩)).print {} = .ok text ∧ termOfText? text = some t := by
  intro f g t
  have hplain : t.PlainCallees := ⟨rfl, trivial, ⟨trivial, trivial⟩, trivial, trivial⟩
  exact ⟨hplain, (isTerm_toNode _ t).print_termOfText hplain {}⟩

end TermTree

end ChapelSource
