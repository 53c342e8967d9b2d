import ChapelSource.Proofs.Grouping.Text

/-!
# Symbols that touch

Around `**`, and around every symbol inside a type, no space keeps the tokens of an expression apart.
Split from left to right into the longest symbols, its text still has the tokens that were written,
save where an `==` comes right after a trailing `!`: there the reader sees a `!=`.

* `Layout.Spells`, `Node.Denotes.spells`: the tokens as which the pieces of an expression are
  written.
* `tokenize_bang_equal`, `tokenize_chars_of_not_apart`: where a `!=` is seen, the rest has no tokens.
* **`Node.Denotes.tokenize_iff_apart`**: the expressions whose tokens are found in their texts.
* **`OpTree.bang_before_equal`**: an expression whose tokens are lost.
-/

namespace ChapelSource

open Layout

/-! ## Tokens as they are written -/

/-- The pieces of a layout are written as some tokens, one each. -/
def Layout.Spells (comments inType : Bool) (l : Layout) (ts : List Token) : Prop :=
  (l.pieces comments inType).map Piece.token? = ts.map some

section Spells

variable {comments inType : Bool}

theorem Layout.Spells.append {l m : Layout} {ts us : List Token}
    (hl : l.Spells comments inType ts) (hm : m.Spells comments inType us) :
    Layout.Spells comments inType (l ++ m) (ts ++ us) := by
  unfold Spells at *
  rw [pieces_append, List.map_append, List.map_append, hl, hm]

theorem spells_operator (s : String) :
    Layout.Spells comments inType (Layout.operator s) [.symbol s] := rfl

theorem spells_symbol {s : String} (h : s ∈ operatorSymbols) :
    Layout.Spells comments inType s [.symbol s] := by
  have hparen : s ≠ "(" ∧ s ≠ ")" := by
    constructor <;> rintro rfl <;> exact absurd h (by decide)
  show [Piece.token? (.atom (.text s))] = [some (.symbol s)]
  rw [Piece.token?, if_neg hparen.1, if_neg hparen.2, if_pos h]

theorem spells_word (w : Word) : Layout.Spells comments inType w.text [.word w] := by
  have hchars : w.text.toList = w.chars := String.toList_ofList
  have hsymbol : ∀ s ∈ "(" :: ")" :: operatorSymbols, s.toList.all isWordChar = false := by decide
  have hall : w.text.toList.all isWordChar = true := by
    rw [hchars]
    exact List.all_eq_true.2 w.isWordChar_of_mem
  have hne : ∀ s ∈ "(" :: ")" :: operatorSymbols, w.text ≠ s := by
    rintro s hs rfl
    rw [hsymbol _ hs] at hall
    contradiction
  have hword : Word.ofText? w.text = some w := by
    rw [Word.ofText?, dif_pos ⟨hchars ▸ w.chars_ne_nil, hall⟩]
    exact congrArg some (Word.ext hchars)
  show [Piece.token? (.atom (.text w.text))] = [some (.word w)]
  rw [Piece.token?, if_neg (hne _ (by decide)), if_neg (hne _ (by decide)),
    if_neg fun h => hne _ (List.mem_cons_of_mem _ (List.mem_cons_of_mem _ h)) rfl, hword]
  rfl

theorem spells_whole {n : Node} {ts : List Token}
    (h : (n.pieces comments inType .whole).map Piece.token? = ts.map some) :
    (whole n).Spells comments inType ts := by
  rw [Layout.Spells, whole, pieces_cons, pieces_nil, List.append_nil]
  exact h

theorem Node.Denotes.spells_operand {n : Node} {t : OpTree} (hn : n.Denotes t)
    (h : (n.pieces comments inType .whole).map Piece.token? = t.bracketed.tokens.map some)
    (outer : Operator) (onRight : Bool) :
    (operand outer n onRight).Spells comments inType
      (Bracketed.group (t.needsParens outer onRight) t.bracketed).tokens := by
  rw [operand, hn.operandNeedsParens_eq]
  cases t.needsParens outer onRight with
  | false => exact spells_whole h
  | true =>
    have hopen : Layout.Spells comments inType "(" [.openParen] := rfl
    have hclose : Layout.Spells comments inType ")" [.closeParen] := rfl
    exact (hopen.append (spells_whole h)).append hclose

/-- **A node that is an operator tree is written as the tokens of the tree with its parentheses.** -/
theorem Node.Denotes.spells {n : Node} {t : OpTree} (hn : n.Denotes t) :
    (n.pieces comments inType .whole).map Piece.token? = t.bracketed.tokens.map some := by
  induction hn with
  | name info w =>
    rw [Node.pieces_eq]
    exact spells_word w
  | leading info o h ih =>
    have hsymbol : o.symbol ∈ operatorSymbols := by cases o <;> decide
    rw [Node.pieces_eq]
    show (opCallLayout o.symbol [_]).Spells _ _ _
    rw [opCallLayout, List.length_singleton, o.ofCall_symbol]
    exact (spells_symbol hsymbol).append (h.spells_operand ih _ _)
  | trailing info o h ih =>
    have hsymbol : o.symbol ∈ operatorSymbols := by cases o <;> decide
    rw [Node.pieces_eq]
    show (opCallLayout o.callName [_]).Spells _ _ _
    rw [opCallLayout, List.length_singleton, o.ofCall_callName]
    exact (h.spells_operand ih _ _).append (spells_symbol hsymbol)
  | binary info o hl hr ihl ihr =>
    rw [Node.pieces_eq]
    show (operand o.operator _ false ++ Layout.operator o.symbol ++
      operand o.operator _ true).Spells _ _ _
    rw [List.append_assoc]
    exact (hl.spells_operand ihl _ _).append
      ((spells_operator _).append (hr.spells_operand ihr _ _))

end Spells

/-! ## Tokens that are lost -/

/-- No symbol that starts with `=` stands at the front of an operand. -/
theorem tokenize_equal {cs : List Char} (h : StartsOperand cs) : tokenize ('=' :: cs) = none := by
  have hnone : longestSymbol? ('=' :: cs) = none := by
    cases cs with
    | nil => rfl
    | cons c cs =>
      have hc : ('=' == c) = false := by
        rw [beq_eq_false_iff_ne]
        rintro rfl
        exact h.head_ne (by decide) rfl
      simp [longestSymbol?, operatorSymbols, List.isPrefixOf, hc]
  rw [tokenize, if_neg (by decide), if_neg (by decide), if_neg (by decide), dif_neg (by decide),
    hnone]

/-- After a trailing `!` the signs of an `==` are read as a `!=` and one that is no symbol. -/
theorem tokenize_bang_equal {c : Bracketed} (hc : c.Apart) (hbang : c.EndsInBang) {cs : List Char}
    (h : StartsOperand cs) : tokenize (c.chars true ++ '=' :: '=' :: cs) = none := by
  induction c with
  | name w => exact hbang.elim
  | parens c => exact hbang.elim
  | leading o e ih =>
    rw [Bracketed.chars, List.append_assoc,
      tokenize_symbol (longestSymbol?_leading o (e.head_chars_ne true _)), ih hc hbang]
    rfl
  | trailing e o =>
    have hparted : Parted ('!' :: '=' :: '=' :: cs) := parted_cons (by decide) _
    have hsymbol : tokenize ("!=".toList ++ '=' :: cs) =
        (tokenize ('=' :: cs)).map (.symbol "!=" :: ·) := tokenize_symbol rfl
    obtain rfl : o = .bang := hbang
    rw [Bracketed.chars, List.append_assoc]
    show tokenize (e.chars true ++ '!' :: '=' :: '=' :: cs) = none
    have he : e.Apart := hc
    rw [tokenize_chars (fun _ => he) hparted fun _ => by simp]
    show (tokenize ("!=".toList ++ '=' :: cs)).map _ = none
    rw [hsymbol, tokenize_equal h]
    rfl
  | binary o l r ihl ihr =>
    have hhead : l.EndsInBang → (Bracketed.symbolChars true o ++
        (r.chars true ++ '=' :: '=' :: cs)).head? ≠ some '=' :=
      fun hl => head_symbolChars_ne (fun _ ho => hc.1 ⟨ho, hl⟩) _
    rw [Bracketed.chars, List.append_assoc, List.append_assoc,
      tokenize_chars (fun _ => hc.2.1) (parted_symbolChars true o _) hhead,
      tokenize_symbolChars true o (r.startsOperand true _), ihr hc.2.2 hbang]
    rfl

theorem tokenize_chars_of_not_apart {c : Bracketed} (hc : ¬ c.Apart) (cs : List Char) :
    tokenize (c.chars true ++ cs) = none := by
  induction c generalizing cs with
  | name w => exact absurd trivial hc
  | parens c ih =>
    rw [Bracketed.chars, List.cons_append, tokenize_open, List.append_assoc, ih hc]
    rfl
  | leading o e ih =>
    rw [Bracketed.chars, List.append_assoc,
      tokenize_symbol (longestSymbol?_leading o (e.head_chars_ne true _)), ih hc]
    rfl
  | trailing e o ih =>
    rw [Bracketed.chars, List.append_assoc]
    exact ih hc _
  | binary o l r ihl ihr =>
    rw [Bracketed.chars, List.append_assoc, List.append_assoc]
    by_cases hl : l.Apart
    · by_cases hbang : o = .equal ∧ l.EndsInBang
      · obtain ⟨rfl, hbang⟩ := hbang
        exact tokenize_bang_equal hl hbang (r.startsOperand true cs)
      · have hr : ¬ r.Apart := fun hr => hc ⟨hbang, hl, hr⟩
        have hhead : l.EndsInBang → (Bracketed.symbolChars true o ++
            (r.chars true ++ cs)).head? ≠ some '=' :=
          fun hl => head_symbolChars_ne (fun _ ho => hbang ⟨ho, hl⟩) _
        rw [tokenize_chars (fun _ => hl) (parted_symbolChars true o _) hhead,
          tokenize_symbolChars true o (r.startsOperand true cs), ihr hr]
        rfl
    · exact ihl hl _

/-- Inside a type the tokens of a tree are found in its text exactly if no `==` comes right after a
trailing `!`. -/
theorem tokenize_type_iff (t : OpTree) :
    tokenize (t.text true).toList = some t.bracketed.tokens ↔ t.bracketed.Apart := by
  have htext : (t.text true).toList = t.bracketed.chars true ++ [] := by
    rw [OpTree.text, String.toList_ofList, List.append_nil]
  rw [htext]
  constructor
  · intro h
    refine Classical.byContradiction fun hc => ?_
    rw [tokenize_chars_of_not_apart hc] at h
    contradiction
  · intro h
    rw [List.append_nil, tokenize_whole fun _ => h]

/-! ## Expressions and types -/

namespace Node

/-- A variable of a given type. -/
def typedVariable (info : NodeInfo) (name : String) (typeExpr : Node) : Node :=
  .mk info (.varDecl ⟨[], ⟨none, none⟩, false, some .var, ⟨name, some typeExpr, none⟩⟩)

theorem Writes.typedVariable {o : PrintOptions} {n : Node} {cs : List Char}
    (h : n.Writes o.newLine o.comments true .whole cs) (info : NodeInfo) (name : String) :
    (typedVariable info name n).print o =
      .ok ("var " ++ name ++ ": " ++ String.ofList cs) := by
  have hvar : Layout.Writes o.newLine o.comments false ("var" ++ " ") "var ".toList :=
    (writes_text "var").append (writes_text " ")
  have hbinding : (Binding.layout ⟨name, some n, none⟩).Writes o.newLine o.comments false
      (name.toList ++ (": ".toList ++ cs) ++ []) :=
    ((writes_text name).append ((writes_text ": ").append (writes_asType h))).append writes_nil
  rw [(writes_iff.2 (hvar.append hbinding)).print_eq]
  simp only [String.ofList_append, String.ofList_toList, List.append_nil, String.append_assoc]

/-- **The tokens of an expression are found in its text**, split from left to right into words,
parentheses and the longest symbols. They are the tokens as which its pieces are written. Where the
expression is a type, as that of a variable, they are found exactly if no `==` comes right after a
trailing `!`. -/
theorem Denotes.tokenize_iff_apart {n : Node} {t : OpTree} (hn : n.Denotes t) (o : PrintOptions) :
    ∃ tokens text typeText,
      n.print o = .ok text ∧ n.printType o = .ok typeText ∧
      (∀ info name,
        (typedVariable info name n).print o = .ok ("var " ++ name ++ ": " ++ typeText)) ∧
      (n.pieces o.comments false .whole).map Piece.token? = tokens.map some ∧
      (n.pieces o.comments true .typeExpr).map Piece.token? = tokens.map some ∧
      tokenize text.toList = some tokens ∧
      (tokenize typeText.toList = some tokens ↔ t.bracketed.Apart) := by
  refine ⟨t.bracketed.tokens, t.text false, t.text true, hn.print_eq o, hn.writes.printType_eq,
    hn.writes.typedVariable, hn.spells, ?_, tokenize_text t, tokenize_type_iff t⟩
  rw [pieces_of_ne (by decide)]
  exact hn.spells

end Node

namespace OpTree

/-- The expression `a! < !b`, whose symbols touch inside a type without being lost. -/
theorem tokenize_iff_apart_less :
    let a := name (.single 'a' (by decide))
    let b := name (.single 'b' (by decide))
    let t := binary .less (trailing a .bang) (leading .not b)
    let n := t.toNode (.sourceless ⟨0⟩)
    n.Denotes t ∧ ∃ tokens text typeText,
      n.print {} = .ok text ∧ n.printType {} = .ok typeText ∧
      (∀ info name,
        (Node.typedVariable info name n).print {} = .ok ("var " ++ name ++ ": " ++ typeText)) ∧
      (n.pieces false false .whole).map Piece.token? = tokens.map some ∧
      (n.pieces false true .typeExpr).map Piece.token? = tokens.map some ∧
      tokenize text.toList = some tokens ∧
      (tokenize typeText.toList = some tokens ↔ t.bracketed.Apart) := by
  intro a b t n
  have hn : n.Denotes t := denotes_toNode _ t
  exact ⟨hn, hn.tokenize_iff_apart {}⟩

/-- **The tokens of `a! == b` are lost inside a type**: it is written `a!==b`, which starts with `a`
and `!=`. -/
theorem bang_before_equal :
    let a := Word.single 'a' (by decide)
    let b := Word.single 'b' (by decide)
    let n := (binary .equal (trailing (name a) .bang) (name b)).toNode (.sourceless ⟨0⟩)
    let tokens := [.word a, .symbol "!", .symbol "==", .word b]
    (Node.typedVariable (.sourceless ⟨0⟩) "x" n).print {} = .ok "var x: a!==b" ∧
      n.printType {} = .ok "a!==b" ∧
      (n.pieces false true .typeExpr).map Piece.token? = tokens.map some ∧
      tokenize "a!==b".toList ≠ some tokens := by
  intro a b n tokens
  have hn : n.Denotes _ := denotes_toNode _ _
  refine ⟨?_, ?_, ?_, ?_⟩
  · exact hn.writes.typedVariable _ "x"
  · exact hn.writes.printType_eq
  · rw [Node.pieces_of_ne (by decide)]
    exact hn.spells
  · have hlost : ¬ (bracketed (binary .equal (trailing (name a) .bang) (name b))).Apart :=
      fun h => h.1 ⟨rfl, rfl⟩
    have hnone := tokenize_chars_of_not_apart hlost []
    have hchars : "a!==b".toList = Bracketed.chars true
        (bracketed (binary .equal (trailing (name a) .bang) (name b))) ++ [] := rfl
    rw [hchars, hnone]
    exact nofun

end OpTree

end ChapelSource
