import ChapelSource.Loose
import ChapelSource.Proofs.Writing

/-!
# The text of an expression and its phrase

A node that is a loose tree is written as the phrase of the tree.

* `Node.IsLoose.chars_tight`, `Node.IsLoose.chars_operand`: the printer and the phrase agree on
  parentheses.
* `Node.IsLoose.writes`, **`Node.IsLoose.print_eq`**: the text of a loose tree.
-/

namespace ChapelSource

open Layout

/-! ## The parts of a phrase in writing -/

theorem fieldChars_append_singleton (field : LooseName) :
    ∀ fields, fieldChars (fields ++ [field]) = fieldChars fields ++ '.' :: field.chars
  | [] => by rw [List.nil_append, fieldChars, fieldChars, fieldChars, List.append_nil,
      List.nil_append]
  | f :: fields => by
    rw [List.cons_append, fieldChars, fieldChars, fieldChars_append_singleton field fields,
      List.cons_append, List.append_assoc]

theorem Primary.chars_addField (field : LooseName) (p : Primary) :
    (p.addField field).chars = p.chars ++ '.' :: field.chars := by
  cases p with
  | name w fields => rw [addField, chars, chars, fieldChars_append_singleton, List.append_assoc]
  | parens inside fields =>
    rw [addField, chars, chars, fieldChars_append_singleton, List.cons_append, List.append_assoc,
      List.cons_append]

theorem Operations.chars_append : ∀ ps qs : Operations,
    (ps.append qs).chars = ps.chars ++ qs.chars
  | .done, qs => by rw [append, chars, List.nil_append]
  | .more o operand rest, qs => by
    rw [append, chars, chars, chars_append rest qs, List.append_assoc, List.append_assoc]

/-- An operand in writing, with the operators that come with it. -/
def operandChars (p : Primary × Operations) : List Char := p.1.chars ++ p.2.chars

namespace Phrase

theorem chars_join (o : BinaryOp) (l r : Primary × Operations) :
    (join o l r).chars = operandChars l ++ (Bracketed.symbolChars false o ++ operandChars r) := by
  rw [join, chars, Operations.chars_append, Operations.chars, ← List.append_assoc]
  rfl

/-- An operation binds no tighter than its operator. -/
theorem tight_join (o : BinaryOp) (l r : Primary × Operations) :
    (join o l r).tight = .parens (join o l r) [] := by
  obtain ⟨first, rest⟩ := l
  cases rest with
  | done => rfl
  | more p operand rest => rfl

theorem chars_parens (p : Phrase) : (Primary.parens p []).chars = '(' :: (p.chars ++ [')']) := by
  rw [Primary.chars, fieldChars]

theorem chars_operation_done (p : Primary) : (operation p .done).chars = p.chars := by
  rw [chars, Operations.chars, List.append_nil]

end Phrase

/-! ## Printing -/

namespace Node

/-- What stands in parentheses where it must bind tighter than any operator. -/
theorem IsLoose.chars_tight {n : Node} {t : LooseTree} (h : n.IsLoose t) :
    t.phrase.tight.chars =
      if n.opCall?.isSome || n.bindsLoosely then '(' :: (t.phrase.chars ++ [')'])
      else t.phrase.chars := by
  cases h with
  | name info w => exact (Phrase.chars_operation_done _).symm
  | dot info field h =>
    rw [LooseTree.phrase]
    exact (Phrase.chars_operation_done _).symm
  | binary info o hl hr =>
    rw [LooseTree.phrase, Phrase.tight_join]
    exact Phrase.chars_parens _
  | choice info hc ha hb => exact Phrase.chars_parens _
  | letIn info h => exact Phrase.chars_parens _
  | reduction info opInfo kind op h => exact Phrase.chars_parens _
  | range info bound hl hu => exact Phrase.chars_parens _

theorem IsLoose.chars_operand {n : Node} {t : LooseTree} (h : n.IsLoose t) (o : BinaryOp)
    (onRight : Bool) : operandChars (t.phrase.operand (t.needsParens o onRight)) =
      if operandNeedsParens o.operator n onRight then '(' :: (t.phrase.chars ++ [')'])
      else t.phrase.chars := by
  have hparens : ∀ p : Phrase, operandChars (.parens p [], .done) = '(' :: (p.chars ++ [')']) := by
    intro p
    rw [operandChars, Operations.chars, List.append_nil, Phrase.chars_parens]
  cases h with
  | name info w => rfl
  | dot info field h =>
    rw [LooseTree.phrase]
    rfl
  | @binary info p l r _ _ hl hr =>
    show operandChars (Phrase.operand (o.operator.needsParens p.operator onRight) _) =
      if o.operator.needsParens p.operator onRight then _ else _
    cases o.operator.needsParens p.operator onRight with
    | false => rfl
    | true => exact hparens _
  | choice info hc ha hb => exact hparens _
  | letIn info h => exact hparens _
  | reduction info opInfo kind op h => exact hparens _
  | range info bound hl hu => exact hparens _

section

variable {newLine : String} {comments : Bool}

theorem IsBound.writes {bound : Option Node} {w : Option LooseName} (h : IsBound bound w) :
    (ifSome bound whole).Writes newLine comments false (boundChars w) := by
  cases h with
  | absent => exact writes_nil
  | name info w => exact writes_whole (writes_iff.2 (writes_ofList w.chars))

theorem writes_initialized {keywords : List String} (w : PlainName keywords) {init : Node} {cs : List Char}
    (h : init.Writes newLine comments false .whole cs) :
    (VarDecl.initialized w.text init).binding.layout.Writes newLine comments false
      (w.chars ++ (" = ".toList ++ cs)) := by
  show Layout.Writes _ _ _ (w.text ++ ([] : Layout) ++ (" = " ++ whole init)) _
  rw [List.append_nil]
  exact (writes_ofList w.chars).append ((writes_text " = ").append (writes_whole h))

mutual

/-- **A node that is a loose tree is written as the phrase of the tree.** -/
theorem IsLoose.writes : ∀ {n : Node} {t : LooseTree}, n.IsLoose t →
    n.Writes newLine comments false .whole t.phrase.chars
  | _, _, .name info w => by
    rw [LooseTree.phrase, Phrase.chars_operation_done, Primary.chars, fieldChars, List.append_nil]
    exact writes_iff.2 (writes_ofList w.chars)
  | _, _, .dot info field h => by
    rw [writes_iff, LooseTree.phrase, Phrase.chars_operation_done, Primary.chars_addField,
      h.chars_tight]
    show (tight _ ++ "." ++ field.text).Writes _ _ _ _
    rw [List.append_assoc]
    exact (writes_grouped h.writes _).append ((writes_text ".").append (writes_ofList field.chars))
  | _, _, .binary info o hl hr => by
    rw [writes_iff, LooseTree.phrase, Phrase.chars_join, hl.chars_operand, hr.chars_operand]
    show (operand o.operator _ false ++ Layout.operator o.symbol ++
      operand o.operator _ true).Writes _ _ _ _
    rw [List.append_assoc]
    exact (writes_grouped hl.writes _).append
      ((writes_operator _).append (writes_grouped hr.writes _))
  | _, _, .choice info hc ha hb => by
    rw [writes_iff, LooseTree.phrase, Phrase.chars]
    show Layout.Writes _ _ _ ("if " ++ whole _ ++ " " ++ Body.layout comments "then " _ ++
      (" else " ++ Body.plainLayout comments _)) _
    rw [List.append_assoc, List.append_assoc, List.append_assoc]
    exact (writes_text "if ").append ((writes_whole hc.writes).append ((writes_text " ").append
      ((writes_branch ha.writes "then ").append ((writes_text " else ").append
        (writes_branch hb.writes "")))))
  | _, _, .letIn info h => by
    rw [writes_iff, LooseTree.phrase, Phrase.chars]
    show Layout.Writes _ _ _ ("let " ++ _ ++ " in " ++ whole _) _
    rw [List.append_assoc, List.append_assoc]
    exact (writes_text "let ").append h.writes
  | _, _, .reduction info opInfo kind op h => by
    rw [writes_iff, LooseTree.phrase, Phrase.chars, h.chars_tight]
    show (whole _ ++ " " ++ kind.keyword ++ " " ++ tight _).Writes _ _ _ _
    rw [List.append_assoc, List.append_assoc, List.append_assoc]
    exact (writes_whole (writes_iff.2 (writes_ofList op.chars))).append
      ((writes_text " ").append ((writes_text kind.keyword).append
        ((writes_text " ").append (writes_grouped h.writes _))))
  | _, _, .range info bound hl hu => by
    rw [writes_iff, LooseTree.phrase, Phrase.chars]
    show (ifSome _ whole ++ bound.symbol ++ ifSome _ whole).Writes _ _ _ _
    rw [List.append_assoc]
    exact hl.writes.append ((writes_text bound.symbol).append hu.writes)

theorem AreBindings.writes : ∀ {decls : List (Located (VarDecl Node))} {body : Node}
    {bs : LooseBindings}, AreBindings decls body bs →
    Layout.Writes newLine comments false
      (join ", " (decls.map fun d => d.part.binding.layout) ++ (" in " ++ whole body))
      bs.phrase.chars
  | _, _, _, .last info w hi hb => by
    rw [List.map_singleton, join_singleton, LooseBindings.phrase, PhraseBindings.chars,
      ← List.append_assoc " = ".toList, ← List.append_assoc w.chars]
    exact (writes_initialized w hi.writes).append
      ((writes_text " in ").append (writes_whole hb.writes))
  | _, _, _, @AreBindings.more info w _ _ _ decls bs hi hs => by
    have hrest := hs.writes
    rw [LooseBindings.phrase, PhraseBindings.chars, ← List.append_assoc " = ".toList,
      ← List.append_assoc w.chars]
    cases decls with
    | nil => exact nomatch hs
    | cons d decls =>
      rw [List.map_cons, List.map_cons, join_cons_cons, List.append_assoc, List.append_assoc]
      exact (writes_initialized w hi.writes).append ((writes_text ", ").append hrest)

end

/-- **The text of a loose tree is that of its phrase.** -/
theorem IsLoose.print_eq {n : Node} {t : LooseTree} (h : n.IsLoose t) (o : PrintOptions) :
    n.print o = .ok (String.ofList t.phrase.chars) := h.writes.print_eq

end

end Node

end ChapelSource
