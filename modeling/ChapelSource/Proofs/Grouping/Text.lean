import ChapelSource.Grouping.Bracketed
import ChapelSource.Proofs.Word
import ChapelSource.Proofs.Writing

/-!
# The text of an operator tree

A node that is an operator tree is printed as the text of the tree. The text has the tokens of the
tree, inside a type as long as no trailing `!` touches an `==`.

* `Node.Denotes.operandNeedsParens_eq`: the printer and the tree agree on parentheses.
* `Node.Denotes.writes`, **`Node.Denotes.print_eq`**: what a node is printed as.
* `StartsOperand`, `longestSymbol?_binary`, `longestSymbol?_trailing`: which symbols are lost in
  longer ones.
* `tokenize_chars`, `tokenize_whole`, **`tokenize_text`**: the tokens of a printed tree.
-/

namespace ChapelSource

open Layout

/-! ## Printing -/

theorem LeadingOp.ofCall_symbol (o : LeadingOp) : Operator.ofCall o.symbol 1 = o.operator := by
  cases o <;> rfl

theorem TrailingOp.ofCall_callName (o : TrailingOp) :
    Operator.ofCall o.callName 1 = o.operator := by
  cases o <;> rfl

theorem Node.Denotes.operandNeedsParens_eq {n : Node} {t : OpTree} (hn : n.Denotes t)
    (outer : Operator) (onRight : Bool) :
    operandNeedsParens outer n onRight = t.needsParens outer onRight := by
  cases hn with
  | name info w => rfl
  | leading info o h =>
    show outer.needsParens (Operator.ofCall o.symbol 1) onRight = _
    rw [o.ofCall_symbol]
    rfl
  | trailing info o h =>
    show outer.needsParens (Operator.ofCall o.callName 1) onRight = _
    rw [o.ofCall_callName]
    rfl
  | binary info o hl hr => rfl

theorem Bracketed.chars_group (inType b : Bool) (c : Bracketed) :
    (group b c).chars inType = if b then '(' :: (c.chars inType ++ [')']) else c.chars inType := by
  cases b <;> rfl

section Printing

variable {newLine : String} {comments inType : Bool}

theorem Node.Denotes.writes_operand {n : Node} {t : OpTree} (hn : n.Denotes t)
    (h : n.Writes newLine comments inType .whole (t.bracketed.chars inType)) (outer : Operator)
    (onRight : Bool) :
    (operand outer n onRight).Writes newLine comments inType
      ((Bracketed.group (t.needsParens outer onRight) t.bracketed).chars inType) := by
  rw [operand, hn.operandNeedsParens_eq, Bracketed.chars_group]
  exact writes_grouped h _

theorem Node.Denotes.writes {n : Node} {t : OpTree} (hn : n.Denotes t) :
    n.Writes newLine comments inType .whole (t.bracketed.chars inType) := by
  induction hn with
  | name info w =>
    rw [Node.writes_iff]
    have h : Layout.Writes newLine comments inType w.text w.text.toList := writes_text _
    rwa [Word.text, String.toList_ofList] at h
  | leading info o h ih =>
    rw [Node.writes_iff]
    show (opCallLayout o.symbol [_]).Writes _ _ _ _
    rw [opCallLayout, List.length_singleton, o.ofCall_symbol]
    exact (writes_text _).append (h.writes_operand ih _ _)
  | trailing info o h ih =>
    rw [Node.writes_iff]
    show (opCallLayout o.callName [_]).Writes _ _ _ _
    rw [opCallLayout, List.length_singleton, o.ofCall_callName]
    exact (h.writes_operand ih _ _).append (writes_text _)
  | binary info o hl hr ihl ihr =>
    rw [Node.writes_iff]
    show (operand o.operator _ false ++ Layout.operator o.symbol ++
      operand o.operator _ true).Writes _ _ _ _
    rw [List.append_assoc]
    exact (hl.writes_operand ihl _ _).append
      ((writes_operator _).append (hr.writes_operand ihr _ _))

/-- **A node that is an operator tree is printed as the text of the tree.** -/
theorem Node.Denotes.print_eq {n : Node} {t : OpTree} (hn : n.Denotes t) (o : PrintOptions) :
    n.print o = .ok (t.text false) :=
  hn.writes.print_eq

end Printing

/-! ## Tokens -/

theorem tokenize_nil : tokenize [] = some [] := by rw [tokenize]

theorem tokenize_space (cs : List Char) : tokenize (' ' :: cs) = tokenize cs := by
  rw [tokenize, if_pos rfl]

theorem tokenize_open (cs : List Char) :
    tokenize ('(' :: cs) = (tokenize cs).map (.openParen :: ·) := by
  rw [tokenize, if_neg (by decide), if_pos rfl]

theorem tokenize_close (cs : List Char) :
    tokenize (')' :: cs) = (tokenize cs).map (.closeParen :: ·) := by
  rw [tokenize, if_neg (by decide), if_neg (by decide), if_pos rfl]

theorem ne_of_isWordChar {c : Char} (h : isWordChar c = true) : c ≠ ' ' ∧ c ≠ '(' ∧ c ≠ ')' := by
  refine ⟨?_, ?_, ?_⟩ <;> rintro rfl <;> exact absurd h (by decide)

theorem tokenize_word (w : Word) {cs : List Char} (h : Parted cs) :
    tokenize (w.chars ++ cs) = (tokenize cs).map (.word w :: ·) := by
  obtain ⟨chars, hne, hall⟩ := w
  cases chars with
  | nil => exact absurd rfl hne
  | cons c rest =>
    have hc : isWordChar c = true := hall c List.mem_cons_self
    have hrest : ∀ d ∈ rest, isWordChar d = true := fun d hd => hall d (List.mem_cons_of_mem _ hd)
    obtain ⟨htake, hdrop⟩ := takeWhile_of_parted hrest h
    obtain ⟨h1, h2, h3⟩ := ne_of_isWordChar hc
    rw [List.cons_append, tokenize, if_neg h1, if_neg h2, if_neg h3, dif_pos hc, hdrop]
    have hw : Word.run c (rest ++ cs) hc = ⟨c :: rest, hne, hall⟩ :=
      Word.ext (congrArg (c :: ·) htake)
    rw [hw]

theorem head_of_mem_operatorSymbols :
    ∀ s ∈ operatorSymbols, s.toList ≠ [] ∧
      ∀ c ∈ s.toList.head?, c ≠ ' ' ∧ c ≠ '(' ∧ c ≠ ')' ∧ isWordChar c = false := by
  simp [operatorSymbols, isWordChar]

theorem tokenize_symbol {s : String} {cs : List Char}
    (h : longestSymbol? (s.toList ++ cs) = some s) :
    tokenize (s.toList ++ cs) = (tokenize cs).map (.symbol s :: ·) := by
  obtain ⟨hne, hhead⟩ := head_of_mem_operatorSymbols s (List.mem_of_find?_eq_some h)
  have hlen : s.length = s.toList.length := s.length_toList.symm
  cases hs : s.toList with
  | nil => exact absurd hs hne
  | cons c rest =>
    obtain ⟨h1, h2, h3, hw⟩ := hhead c (by rw [hs]; rfl)
    rw [hs, List.length_cons] at hlen
    rw [hs, List.cons_append] at h
    rw [List.cons_append, tokenize, if_neg h1, if_neg h2, if_neg h3, dif_neg (by simp [hw]), h]
    dsimp only
    rw [hlen, Nat.add_sub_cancel, List.drop_left]

/-! ## Symbols and what follows them -/

/-- An operand starts with a word, a parenthesis or a leading operator. -/
def StartsOperand (cs : List Char) : Prop :=
  ∀ c ∈ cs.head?, isWordChar c = true ∨ c ∈ ['(', '+', '-', '!', '~']

theorem StartsOperand.head_ne {cs : List Char} (h : StartsOperand cs) {c : Char}
    (hc : c ∈ ['*', '=', '<', '>', '&', '|']) : cs.head? ≠ some c := by
  have hall : (['*', '=', '<', '>', '&', '|'].all fun d =>
      !(isWordChar d || decide (d ∈ ['(', '+', '-', '!', '~']))) = true := by decide
  have hnone := List.all_eq_true.1 hall c hc
  rw [Bool.not_eq_true', Bool.or_eq_false_iff, decide_eq_false_iff_not] at hnone
  exact fun he => (h c he).elim (ne_true_of_eq_false hnone.1) hnone.2

theorem Bracketed.startsOperand (inType : Bool) (c : Bracketed) (cs : List Char) :
    StartsOperand (c.chars inType ++ cs) := by
  induction c generalizing cs with
  | name w =>
    obtain ⟨d, ds, hchars, hd⟩ := w.exists_chars
    rw [chars, hchars]
    rintro _ ⟨⟩
    exact .inl hd
  | parens c =>
    rintro _ ⟨⟩
    exact .inr (by decide)
  | leading o e => cases o <;> rintro _ ⟨⟩ <;> exact .inr (by decide)
  | trailing e o ih =>
    rw [chars, List.append_assoc]
    exact ih _
  | binary o l r ihl =>
    rw [chars, List.append_assoc]
    exact ihl _

/-- No tree starts with the sign that would make another symbol of a `!` before it. -/
theorem Bracketed.head_chars_ne (inType : Bool) (c : Bracketed) (cs : List Char) :
    (c.chars inType ++ cs).head? ≠ some '=' :=
  (c.startsOperand inType cs).head_ne (by decide)

theorem longestSymbol?_leading (o : LeadingOp) {cs : List Char} (h : cs.head? ≠ some '=') :
    longestSymbol? (o.symbol.toList ++ cs) = some o.symbol := by
  cases cs with
  | nil => cases o <;> rfl
  | cons c cs =>
    have hc : ('=' == c) = false := by simp at h ⊢; exact fun he => h he.symm
    cases o <;> simp [longestSymbol?, operatorSymbols, LeadingOp.symbol, List.isPrefixOf, hc]

/-- Only a trailing `!` is lost in a longer symbol. -/
theorem longestSymbol?_trailing (o : TrailingOp) {cs : List Char}
    (h : o = .bang → cs.head? ≠ some '=') :
    longestSymbol? (o.symbol.toList ++ cs) = some o.symbol := by
  cases o with
  | query => cases cs <;> rfl
  | bang => exact longestSymbol?_leading .not (h rfl)

theorem longestSymbol?_spaced (o : BinaryOp) (cs : List Char) :
    longestSymbol? (o.symbol.toList ++ ' ' :: cs) = some o.symbol := by
  cases o <;> rfl

/-- A binary symbol is not lost in a longer one, whatever operand comes right after it. -/
theorem longestSymbol?_binary (o : BinaryOp) {cs : List Char} (h : StartsOperand cs) :
    longestSymbol? (o.symbol.toList ++ cs) = some o.symbol := by
  cases cs with
  | nil => cases o <;> rfl
  | cons c cs =>
    have hne : ∀ d ∈ ['*', '=', '<', '>', '&', '|'], (d == c) = false := by
      intro d hd
      rw [beq_eq_false_iff_ne]
      rintro rfl
      exact h.head_ne hd rfl
    simp only [List.forall_mem_cons] at hne
    cases o <;> simp [longestSymbol?, operatorSymbols, BinaryOp.symbol, List.isPrefixOf, hne]

theorem tokenize_symbolChars (inType : Bool) (o : BinaryOp) {cs : List Char}
    (h : StartsOperand cs) :
    tokenize (Bracketed.symbolChars inType o ++ cs) =
      (tokenize cs).map (.symbol o.symbol :: ·) := by
  unfold Bracketed.symbolChars
  split
  · rw [List.cons_append, tokenize_space, List.append_assoc, List.singleton_append,
      tokenize_symbol (longestSymbol?_spaced o cs), tokenize_space]
  · exact tokenize_symbol (longestSymbol?_binary o h)

theorem parted_symbolChars (inType : Bool) (o : BinaryOp) (cs : List Char) :
    Parted (Bracketed.symbolChars inType o ++ cs) := by
  cases inType <;> cases o <;> exact parted_cons (by decide) _

/-- Only an `==` without spaces starts with the sign that would extend a `!`. -/
theorem head_symbolChars_ne {inType : Bool} {o : BinaryOp} (h : inType = true → o ≠ .equal)
    (cs : List Char) : (Bracketed.symbolChars inType o ++ cs).head? ≠ some '=' := by
  intro he
  cases inType with
  | false => cases o <;> exact absurd (Option.some.inj he) (by decide)
  | true => cases o <;> first | exact h rfl rfl | exact absurd (Option.some.inj he) (by decide)

/-! ## The tokens of a tree -/

/-- **A tree has its tokens in the text**, if nothing after it goes on with its last one. Inside a
type no `==` may come right after a trailing `!`. -/
theorem tokenize_chars {inType : Bool} {c : Bracketed} (hc : inType = true → c.Apart)
    {cs : List Char} (hcs : Parted cs) (hbang : c.EndsInBang → cs.head? ≠ some '=') :
    tokenize (c.chars inType ++ cs) = (tokenize cs).map (c.tokens ++ ·) := by
  induction c generalizing cs with
  | name w => exact tokenize_word w hcs
  | parens c ih =>
    have hclose : Parted (')' :: cs) := parted_cons (by decide) cs
    rw [Bracketed.chars, List.cons_append, tokenize_open, List.append_assoc, List.singleton_append,
      ih hc hclose fun _ => nofun, tokenize_close]
    simp [Option.map_map, Function.comp_def, Bracketed.tokens]
  | leading o e ih =>
    rw [Bracketed.chars, List.append_assoc,
      tokenize_symbol (longestSymbol?_leading o (e.head_chars_ne inType cs)), ih hc hcs hbang]
    simp [Option.map_map, Function.comp_def, Bracketed.tokens]
  | trailing e o ih =>
    have hparted : Parted (o.symbol.toList ++ cs) := by cases o <;> exact parted_cons (by decide) _
    have hhead : (o.symbol.toList ++ cs).head? ≠ some '=' := by cases o <;> exact nofun
    rw [Bracketed.chars, List.append_assoc, ih hc hparted fun _ => hhead,
      tokenize_symbol (longestSymbol?_trailing o hbang)]
    simp [Option.map_map, Function.comp_def, Bracketed.tokens]
  | binary o l r ihl ihr =>
    have hhead : l.EndsInBang → (Bracketed.symbolChars inType o ++
        (r.chars inType ++ cs)).head? ≠ some '=' :=
      fun hl => head_symbolChars_ne (fun h ho => (hc h).1 ⟨ho, hl⟩) _
    rw [Bracketed.chars, List.append_assoc, List.append_assoc,
      ihl (fun h => (hc h).2.1) (parted_symbolChars inType o _) hhead,
      tokenize_symbolChars inType o (r.startsOperand inType cs),
      ihr (fun h => (hc h).2.2) hcs hbang]
    simp [Option.map_map, Function.comp_def, Bracketed.tokens]

theorem tokenize_whole {inType : Bool} {c : Bracketed} (hc : inType = true → c.Apart) :
    tokenize (c.chars inType) = some c.tokens := by
  have h := tokenize_chars hc parted_nil fun _ => (Option.some_ne_none '=').symm
  rwa [List.append_nil, tokenize_nil, Option.map_some, List.append_nil] at h

/-- Outside types no two symbols touch in a way that matters. -/
theorem tokenize_spaced (c : Bracketed) : tokenize (c.chars false) = some c.tokens :=
  tokenize_whole fun h => absurd h Bool.false_ne_true

/-- **The tokens of the text of a tree are those of the tree with its parentheses.** -/
theorem tokenize_text (t : OpTree) :
    tokenize (t.text false).toList = some t.bracketed.tokens := by
  rw [OpTree.text, String.toList_ofList, tokenize_spaced]

end ChapelSource
