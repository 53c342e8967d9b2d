import ChapelSource.Proofs.Comments.Construct
import ChapelSource.Proofs.Comments.Width
import ChapelSource.Proofs.Grouping.Text

/-!
# Comments as operands

An operator call that has a comment for an operand has another arity without it. Save for `**`, which
is written close to its operands, the spaces around a binary operator then show that it was one.

* `Layout.Writes.unique`: a layout is written in one way.
* `spaced_after_ne`, `spaced_before_ne`: a binary operator beside one operand is not a unary one.
* **`noComments_of_opCall_writes`**: an operator call that is written the same without its comments
  has none.
-/

namespace ChapelSource

open Layout

/-! ## Characters -/

section Characters

/-- Characters in parentheses on a condition. -/
def inParens (parens : Bool) (cs : List Char) : List Char :=
  if parens then '(' :: (cs ++ [')']) else cs

variable {p q : Bool} {cs s : List Char}

theorem length_inParens : (inParens p cs).length = cs.length + if p then 2 else 0 := by
  cases p <;> simp [inParens]

theorem spaced_after_ne : inParens p cs ++ ' ' :: (s ++ [' ']) ≠ s ++ inParens q cs := by
  intro h
  have hlen := congrArg List.length h
  simp only [List.length_append, List.length_cons, List.length_nil, length_inParens] at hlen
  obtain ⟨rfl, rfl⟩ : p = false ∧ q = true := by cases p <;> cases q <;> simp at hlen ⊢ <;> omega
  have hlast := congrArg List.getLast? h
  simp [inParens, List.getLast?_append, List.getLast?_cons] at hlast

theorem spaced_after_ne_trailing {c : Char} (hc : c ≠ ' ') :
    inParens p cs ++ ' ' :: (s ++ [' ']) ≠ inParens q cs ++ [c] := by
  intro h
  have hlast := congrArg List.getLast? h
  simp [List.getLast?_append, List.getLast?_cons] at hlast
  exact hc hlast.symm

theorem spaced_before_ne (hs : p = false → q = true → s.head? ≠ some ' ') :
    ' ' :: (s ++ [' ']) ++ inParens p cs ≠ s ++ inParens q cs := by
  intro h
  have hlen := congrArg List.length h
  simp only [List.length_append, List.length_cons, List.length_nil, length_inParens] at hlen
  obtain ⟨rfl, rfl⟩ : p = false ∧ q = true := by cases p <;> cases q <;> simp at hlen ⊢ <;> omega
  have hhead := congrArg List.head? h
  cases s with
  | nil => simp [inParens] at hhead
  | cons c s =>
    simp only [List.cons_append, List.head?_cons, Option.some.injEq] at hhead
    exact hs rfl rfl (by rw [List.head?_cons, hhead])

theorem spaced_before_ne_trailing {c : Char} (hs : p = false → q = true → s.length ≠ 1) :
    ' ' :: (s ++ [' ']) ++ inParens p cs ≠ inParens q cs ++ [c] := by
  intro h
  have hlen := congrArg List.length h
  simp only [List.length_append, List.length_cons, List.length_nil, length_inParens] at hlen
  obtain ⟨rfl, rfl⟩ : p = false ∧ q = true := by cases p <;> cases q <;> simp at hlen ⊢ <;> omega
  simp only [Bool.false_eq_true, if_false, if_true] at hlen
  exact hs rfl rfl (by omega)

end Characters

/-! ## Operands -/

section Operands

variable {op : String} {n c : Node} {newLine : String}

theorem Layout.Writes.unique {comments inType : Bool} {l : Layout} {cs ds : List Char}
    (h : l.Writes newLine comments inType cs) (h' : l.Writes newLine comments inType ds) :
    cs = ds := by
  have hsame := h.symm.trans h'
  rwa [Except.ok.injEq, String.ofList_inj] at hsame

theorem ofCall_one (op : String) :
    Operator.ofCall op 1 = ⟨op, true, false⟩ ∨
      op = "postfix!" ∧ Operator.ofCall op 1 = ⟨"!", true, true⟩ ∨
      op = "?" ∧ Operator.ofCall op 1 = ⟨"?", true, true⟩ := by
  unfold Operator.ofCall
  by_cases hp : op = "postfix!"
  · exact .inr (.inl ⟨hp, by simp [hp]⟩)
  by_cases hquery : op = "?"
  · exact .inr (.inr ⟨hquery, by simp [hquery]⟩)
  · exact .inl (by simp [hp, hquery])

/-- An operand that an operator without a rank leaves bare is one that no operator parenthesizes. -/
theorem precedence_of_parens {outer other : Operator} {onRight onRight' : Bool}
    (h : operandNeedsParens outer n onRight = false)
    (h' : operandNeedsParens other n.uncomment onRight' = true) : outer.precedence.isSome := by
  unfold operandNeedsParens at h h'
  rw [Node.opCall?_uncomment] at h'
  cases hcall : n.opCall? with
  | none =>
    rw [hcall] at h h'
    simp only [Option.map_none, Node.bindsLoosely_uncomment] at h h'
    rw [h] at h'
    contradiction
  | some call =>
    rw [hcall] at h
    cases hp : outer.precedence with
    | some rank => rfl
    | none => simp [Operator.needsParens, hp] at h

theorem head_of_precedence {outer : Operator} (h : outer.precedence.isSome) :
    outer.symbol.toList.head? ≠ some ' ' := by
  obtain ⟨symbol, unary, trailing⟩ := outer
  have hmem := mem_operatorSymbols_iff.2 ⟨unary, trailing, h⟩
  intro hhead
  exact ((head_of_mem_operatorSymbols symbol hmem).2 ' ' hhead).1 rfl

theorem writes_operand {outer : Operator} {onRight comments inType : Bool} {cs : List Char}
    (h : n.Writes newLine comments inType .whole cs) :
    (operand outer n onRight).Writes newLine comments inType
      (inParens (operandNeedsParens outer n onRight) cs) := writes_grouped h _

theorem writes_operand_comment {outer : Operator} {onRight inType : Bool} (hc : c.isComment) :
    (operand outer c onRight).Writes newLine false inType [] := by
  have hpieces : c.Writes newLine false inType .whole [] := by
    have hwhole : Role.whole ≠ .component := by decide
    rw [Node.Writes, Node.pieces_comment hc hwhole]
    rfl
  have hbare : operandNeedsParens outer c onRight = false := by
    obtain ⟨text, hform⟩ := Node.isComment_iff.1 hc
    rw [operandNeedsParens, Node.opCall?, Node.bindsLoosely, hform]
  have h : (operand outer c onRight).Writes newLine false inType
      (inParens (operandNeedsParens outer c onRight) []) := writes_operand hpieces
  rwa [hbare] at h

theorem writes_binary {a b : Node} {comments : Bool} {as bs : List Char} (hop : op ≠ "**")
    (ha : (operand ⟨op, false, false⟩ a false).Writes newLine comments false as)
    (hb : (operand ⟨op, false, false⟩ b true).Writes newLine comments false bs) :
    (opCallLayout op [a, b]).Writes newLine comments false
      (as ++ ' ' :: (op.toList ++ [' ']) ++ bs) := by
  have hspaced : Operator.spaced op false = true := by
    rw [Operator.spaced, bne_iff_ne.2 hop]
    rfl
  have h := (ha.append (writes_operator op)).append hb
  rwa [hspaced, if_pos rfl] at h

theorem writes_unary {a : Node} {comments : Bool} {as cs : List Char}
    (ha : a.Writes newLine comments false .whole as)
    (h : (opCallLayout op [a]).Writes newLine comments false cs) :
    cs = op.toList ++ inParens (operandNeedsParens (Operator.ofCall op 1) a true) as ∨
      ∃ c : Char, c ≠ ' ' ∧ (op = "postfix!" ∨ op = "?") ∧
        cs = inParens (operandNeedsParens (Operator.ofCall op 1) a false) as ++ [c] := by
  rcases ofCall_one op with ho | ⟨rfl, ho⟩ | ⟨rfl, ho⟩
  · refine .inl (h.unique ?_)
    rw [opCallLayout, List.length_singleton, ho]
    exact (writes_text op).append (writes_operand ha)
  · refine .inr ⟨'!', by decide, .inl rfl, h.unique ?_⟩
    rw [opCallLayout, List.length_singleton, ho]
    exact (writes_operand ha).append (writes_text "!")
  · refine .inr ⟨'?', by decide, .inr rfl, h.unique ?_⟩
    rw [opCallLayout, List.length_singleton, ho]
    exact (writes_operand ha).append (writes_text "?")

/-- A comment beside the operand of a spaced operator shows. -/
theorem false_of_binary_comment {a : Node} {as cs : List Char} (hop : op ≠ "**")
    (hc : c.isComment) (ha : a.Writes newLine false false .whole as)
    (ha' : a.uncomment.Writes newLine true false .whole as)
    (h : (opCallLayout op [a, c]).Writes newLine false false cs ∨
      (opCallLayout op [c, a]).Writes newLine false false cs)
    (h' : (opCallLayout op [a.uncomment]).Writes newLine true false cs) : False := by
  rcases h with h | h
  · have hbinary := h.unique (writes_binary hop (writes_operand ha) (writes_operand_comment hc))
    rw [List.append_nil] at hbinary
    rcases writes_unary ha' h' with hunary | ⟨d, hd, -, hunary⟩
    · exact spaced_after_ne (hbinary.symm.trans hunary)
    · exact spaced_after_ne_trailing hd (hbinary.symm.trans hunary)
  · have hbinary := h.unique (writes_binary hop (writes_operand_comment hc) (writes_operand ha))
    rw [List.nil_append] at hbinary
    rcases writes_unary ha' h' with hunary | ⟨d, -, hname, hunary⟩
    · refine spaced_before_ne (fun hp hq => ?_) (hbinary.symm.trans hunary)
      exact head_of_precedence (precedence_of_parens hp hq)
    · refine spaced_before_ne_trailing (fun hp hq => ?_) (hbinary.symm.trans hunary)
      rcases hname with rfl | rfl
      · decide
      · exact absurd (precedence_of_parens hp hq) Bool.false_ne_true

theorem not_writes_fault {comments inType : Bool} {e : PrintError} {cs : List Char} :
    ¬ (fault e).Writes newLine comments inType cs := by
  intro h
  contradiction

/-- **An operator call that is written the same without its comments has none**, unless it is a call of
`**`. -/
theorem noComments_of_opCall_writes {actuals : List Node} {cs : List Char} (hop : op ≠ "**")
    (hlen : actuals.length = 1 ∨ actuals.length = 2)
    (ha : ∀ a ∈ actuals, a.isComment = false → ∃ as, a.Writes newLine false false .whole as ∧
      a.uncomment.Writes newLine true false .whole as)
    (h : (opCallLayout op actuals).Writes newLine false false cs)
    (h' : (opCallLayout op (uncommentList Node.uncomment actuals)).Writes newLine true false cs) :
    NoComments actuals := by
  rcases hlen with hlen | hlen
  · obtain ⟨a, rfl⟩ := List.length_eq_one_iff.1 hlen
    cases hc : a.isComment with
    | false => exact noComments_cons.2 ⟨hc, noComments_nil⟩
    | true =>
      have hgone : uncommentList Node.uncomment [a] = [] := by simp [uncommentList, kept, hc]
      rw [hgone] at h'
      exact absurd h' not_writes_fault
  · obtain ⟨a, b, rfl⟩ : ∃ a b, actuals = [a, b] :=
      ⟨_, _, List.eq_getElem_of_length_eq_two actuals hlen⟩
    cases hca : a.isComment with
    | false =>
      cases hcb : b.isComment with
      | false => exact noComments_cons.2 ⟨hca, noComments_cons.2 ⟨hcb, noComments_nil⟩⟩
      | true =>
        have hleft : uncommentList Node.uncomment [a, b] = [a.uncomment] := by
          simp [uncommentList, kept, hca, hcb]
        rw [hleft] at h'
        obtain ⟨as, hwa, hwa'⟩ := ha a List.mem_cons_self hca
        exact (false_of_binary_comment hop hcb hwa hwa' (.inl h) h').elim
    | true =>
      cases hcb : b.isComment with
      | false =>
        have hright : uncommentList Node.uncomment [a, b] = [b.uncomment] := by
          simp [uncommentList, kept, hca, hcb]
        rw [hright] at h'
        obtain ⟨bs, hwb, hwb'⟩ := ha b (List.mem_cons_of_mem _ List.mem_cons_self) hcb
        exact (false_of_binary_comment hop hca hwb hwb' (.inr h) h').elim
      | true =>
        have hgone : uncommentList Node.uncomment [a, b] = [] := by
          simp [uncommentList, kept, hca, hcb]
        rw [hgone] at h'
        exact absurd h' not_writes_fault

end Operands

end ChapelSource
