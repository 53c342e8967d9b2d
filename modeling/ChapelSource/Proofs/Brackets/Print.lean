import ChapelSource.Proofs.Brackets.Construct

/-!
# Printed text is well bracketed

If the texts in a tree and the separator of statements are plain, then all brackets and literals in
the text of the tree are closed, however deep they are nested and whatever bytes the literals hold.

* `Node.steadyPieces`: the text of a node in a role leaves the open brackets as they are.
* **`PrintCall.wellBracketed`**: the answers of the printer are well bracketed.
-/

namespace ChapelSource

open Layout

variable {newLine : String} (hn : PlainText newLine)

include hn

/-- The text of a node in a role leaves the open brackets as they are. -/
theorem Node.steadyPieces {comments inType : Bool} {role : Role} {n : Node}
    (h : ∀ s, n.Mentions comments role s → PlainText s) :
    SteadyPieces newLine (n.pieces comments inType role) := by
  induction n using Node.inductionOnLayout generalizing inType role with
  | step n ih =>
    rw [Node.pieces_eq]
    exact (n.balanced_layout hn comments role fun s hs => h s (.own hs)).steadyPieces
      fun r m hm => ih comments role r m hm fun s hs => h s (.child hm hs)

omit hn

theorem wellBracketed_of_openAfter {text : String} (h : openAfter text [] = some []) :
    WellBracketed text :=
  openAfter_eq_some_iff.1 h

/-- **Printed text is well bracketed.** -/
theorem PrintCall.wellBracketed {o : PrintOptions} {c : PrintCall} {text : String}
    (hn : PlainText o.newLine) (hc : ∀ s, c.Mentions o.comments s → PlainText s)
    (h : c.run o = .ok text) : WellBracketed text := by
  refine wellBracketed_of_openAfter ?_
  cases c with
  | node n => exact n.steadyPieces hn hc text h []
  | signature f =>
    have hbalanced : (f.signatureLayout o.comments).Balanced o.newLine :=
      balanced_signature o.comments (hc f.name (.inl List.mem_cons_self))
    exact hbalanced.steadyPieces
      (fun role n hi => n.steadyPieces hn fun s hs => hc s (.inr ⟨role, n, hi, hs⟩)) text h []

/-- An array of a name and a literal that holds a closing parenthesis and a quote. -/
theorem PrintCall.wellBracketed_array :
    let x : Node := .mk (.sourceless ⟨0⟩) (.identifier "x")
    let q : Node := .mk (.sourceless ⟨1⟩) (.quotedLiteral .string [41, 34])
    let c : PrintCall := .node (.mk (.sourceless ⟨2⟩) (.array [x, q]))
    (∀ s, c.Mentions false s → PlainText s) ∧ c.run {} = .ok "[x, \")\\\"\"]" ∧
      WellBracketed "[x, \")\\\"\"]" := by
  intro x q c
  have hlayout : (Node.mk (.sourceless ⟨2⟩) (.array [x, q])).layout false .whole =
      "[" ++ (whole x ++ ", " ++ whole q) ++ "]" := rfl
  have hplain : ∀ s, c.Mentions false s → PlainText s := by
    rintro s (hown | ⟨hmem, hrest⟩)
    · contradiction
    · rw [hlayout] at hmem
      obtain ⟨rfl, rfl⟩ | ⟨rfl, rfl⟩ : (_ = Role.whole ∧ _ = x) ∨ (_ = Role.whole ∧ _ = q) := by
        simpa [whole] using hmem
      · rcases hrest with hown | ⟨hmem, -⟩
        · rw [List.mem_singleton.1 hown]
          decide
        · simp [x, Node.layout, Form.layout] at hmem
      · rcases hrest with hown | ⟨hmem, -⟩
        · contradiction
        · simp [q, Node.layout, Form.layout, quotedLayout, literal] at hmem
  have hprint : c.run {} = .ok "[x, \")\\\"\"]" := by
    show write "\n" "" (Node.pieces false false .whole _) = _
    have hx : x.pieces false false .whole = [.atom (.text "x")] := by
      rw [Node.pieces_eq]
      rfl
    have hq : q.pieces false false .whole = [.atom (.literal "" (Literal.quote [41, 34]))] := by
      rw [Node.pieces_eq]
      rfl
    rw [Node.pieces_eq, hlayout]
    simp only [Layout.pieces_append, whole, Layout.pieces_cons, Layout.pieces_nil, Item.pieces,
      Role.inType, hx, hq]
    rfl
  exact ⟨hplain, hprint, wellBracketed (by decide) hplain hprint⟩

end ChapelSource
