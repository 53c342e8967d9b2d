import ChapelSource.Proofs.Comments.Choice
import ChapelSource.Proofs.Comments.Operand
import ChapelSource.Proofs.Tally.Faults

/-!
# Printing without comments

Printing without comments should be printing the tree that has lost them. It is for the trees in which
no choice depends on a comment, and of the trees that can be printed for no others.

* `Node.agrees_of_steady`: a tree that keeps its shape throughout is written the same without its
  comments.
* `Node.keepsShape_of_print`: a tree of which every part is printed the same keeps its shape
  throughout.
* **`Node.print_uncomment`**: both.
* `Node.print_uncomment_tuple`: a tuple that keeps its shape.
* `Node.lone_element_comma`: a tuple that does not.
-/

namespace ChapelSource

open Layout

/-! ## Keeping the shape is enough -/

namespace Node

theorem Holds.trans {r s t : Role} {n m k : Node} (h : Holds r n s m) (h' : Holds s m t k) :
    Holds r n t k := by
  induction h with
  | self => exact h'
  | child hmem _ ih => exact .child hmem (ih h')

theorem Holds.of_mem {role r : Role} {n m : Node} (h : Item.child r m ∈ n.layout false role) :
    Holds role n r m := .child h (.self r m)

/-- **A tree that keeps its shape throughout is written the same without its comments.** -/
theorem agrees_of_steady {role : Role} {n : Node} (hn : n.isComment = false)
    (h : ∀ r m, Holds role n r m → m.Steady) : n.Agrees role := by
  intro inType
  have hlayout := uncomment_layout hn (h role n (.self role n)) fun r m hm => h r m (.of_mem hm)
  rw [pieces_eq, pieces_eq, ← hlayout]
  refine pieces_uncomment (fun i hi => ?_) inType
  cases i with
  | atom a => exact trivial
  | operator symbol => exact trivial
  | child r m =>
    intro hm
    have hlt : sizeOf m < sizeOf n := n.below_layout false role r m hi
    exact agrees_of_steady hm fun s k hk => h s k (.child hi hk)
termination_by sizeOf n

theorem print_of_agrees {n : Node} (h : n.Agrees .whole) (newLine : String) :
    n.print ⟨false, newLine⟩ = n.uncomment.print ⟨true, newLine⟩ := by
  rw [print, print]
  exact congrArg (write newLine "") (h false)

end Node

/-! ## Only what keeps its shape is printed the same -/

namespace Node

variable {n : Node}

theorem keepsShape_of_isComment (h : n.isComment) : n.form.KeepsShape := by
  obtain ⟨text, hform⟩ := isComment_iff.1 h
  rw [hform]
  exact trivial

theorem length_of_print {comments : Bool} {text : String}
    (h : n.print ⟨comments, "\n"⟩ = .ok text) :
    text.length = (n.form.layout comments).width comments := by
  rw [print] at h
  have hlen := write_length h
  have hlayout : n.pieces comments false .whole = (n.form.layout comments).pieces comments false :=
    n.pieces_eq comments false .whole
  rw [hlayout] at hlen
  rw [hlen, width, String.length_empty, Nat.zero_add]

theorem exists_print {role : Role} (hr : role ≠ .component)
    (hf : Visit.firstFault? ⟨role, n⟩ = none) : ∃ text, n.print ⟨false, "\n"⟩ = .ok text := by
  have hp := n.fault?_pieces false false role
  rw [hf, pieces_of_ne hr] at hp
  exact write_of_no_fault hp ""

theorem writes_of_print {o : PrintOptions} {text : String} (h : n.print o = .ok text) :
    n.Writes o.newLine o.comments false .whole text.toList := by
  rwa [Writes, WritesPieces, String.ofList_toList]

/-- A construct that is printed the same without its comments has none for an operand, where that
shows. -/
theorem keepsOperands_of_print {text : String} (hf : n.form.fault? = none)
    (ho : n.form.ShowsOperands) (ha : (n.form.layout false).Agrees)
    (hchildren : ∀ r m, Item.child r m ∈ n.form.layout false → Visit.firstFault? ⟨r, m⟩ = none)
    (ht : n.print ⟨false, "\n"⟩ = .ok text) (ht' : n.uncomment.print ⟨true, "\n"⟩ = .ok text) :
    n.form.KeepsOperands := by
  have hwrites := writes_iff.1 (writes_of_print ht)
  have hwrites' := writes_iff.1 (writes_of_print ht')
  change (n.form.layout false).Writes "\n" false false text.toList at hwrites
  change (n.uncomment.form.layout true).Writes "\n" true false text.toList at hwrites'
  rw [form_uncomment] at hwrites'
  cases hform : n.form with
  | opCall op actuals =>
    rw [hform] at hf ho ha hchildren hwrites hwrites'
    by_cases hop : op = "**"
    · exact ho hop
    have hlen : actuals.length = 1 ∨ actuals.length = 2 := by
      by_contra hlen
      rw [Form.fault?, if_neg hlen] at hf
      contradiction
    refine noComments_of_opCall_writes hop hlen (fun a hmem hc => ?_) hwrites hwrites'
    have hchild : Item.child .whole a ∈ opCallLayout op actuals := mem_opCall hlen hmem
    have hwhole : Role.whole ≠ .component := by decide
    obtain ⟨as, has⟩ := exists_print hwhole (hchildren .whole a hchild)
    refine ⟨as.toList, writes_of_print has, ?_⟩
    have hagrees := ha _ hchild hc false
    have hwritten := writes_of_print has
    rwa [Writes, hagrees] at hwritten
  | fnCall callee actuals inBrackets =>
    rw [hform] at ho
    exact ho
  | _ => exact trivial

/-- **If what is written of a tree without faults is printed the same part by part, it keeps its
shape.** Of the parts only constructs of their own are asked for, and operands that need not show may
not be comments. -/
theorem keepsShape_of_print {role : Role} {n : Node} (hf : Visit.firstFault? ⟨role, n⟩ = none)
    (hs : ∀ r m, Holds role n r m → NoComments m.form.singles)
    (ho : ∀ r m, Holds role n r m → m.form.ShowsOperands)
    (hp : ∀ r m, Holds role n r m → r ≠ .component → m.isComment = false →
      ∀ newLine, m.print ⟨false, newLine⟩ = m.uncomment.print ⟨true, newLine⟩) :
    ∀ r m, Holds role n r m → m.form.KeepsShape := by
  have hchildren : ∀ r m, Item.child r m ∈ n.layout false role →
      ∀ s k, Holds r m s k → k.form.KeepsShape := by
    intro r m hm
    have hlt : sizeOf m < sizeOf n := n.below_layout false role r m hm
    exact keepsShape_of_print (Visit.firstFault?_of_mem hf hm) (fun s k hk => hs s k (.child hm hk))
      (fun s k hk => ho s k (.child hm hk)) fun s k hk => hp s k (.child hm hk)
  have hself : n.form.KeepsShape := by
    have hfault := Visit.fault?_of_firstFault? hf
    have hafter := Visit.after_of_firstFault? hf
    by_cases hr : role = .component
    · subst hr
      exact Form.keepsShape_of_component hfault hafter
    cases hn : n.isComment with
    | true => exact keepsShape_of_isComment hn
    | false =>
      obtain ⟨text, ht⟩ := exists_print hr hf
      have ht' : n.uncomment.print ⟨true, "\n"⟩ = .ok text := by
        rw [← hp role n (.self role n) hr hn, ht]
      have hwidth := (length_of_print ht).symm.trans (length_of_print ht')
      rw [form_uncomment] at hwidth
      have hagrees : (n.layout false role).Agrees := by
        intro i hi
        cases i with
        | atom a => exact trivial
        | operator symbol => exact trivial
        | child r m =>
          intro hm
          exact agrees_of_steady hm fun s k hk => ⟨hs s k (.child hi hk), hchildren r m hi s k hk⟩
      have hfaults : ∀ r m, Item.child r m ∈ n.layout false role →
          Visit.firstFault? ⟨r, m⟩ = none := fun r m hm => Visit.firstFault?_of_mem hf hm
      have hshows := ho role n (.self role n)
      have hsingles := hs role n (.self role n)
      cases role with
      | component => exact absurd rfl hr
      | whole =>
        have hoperands := keepsOperands_of_print hfault hshows hagrees hfaults ht ht'
        exact Form.keepsShape_of_width hsingles hoperands hfault hafter hagrees hwidth
      | typeExpr =>
        have hoperands := keepsOperands_of_print hfault hshows hagrees hfaults ht ht'
        exact Form.keepsShape_of_width hsingles hoperands hfault hafter hagrees hwidth
  intro r m hm
  cases hm with
  | self => exact hself
  | child hmem hrest => exact hchildren _ _ hmem _ _ hrest
termination_by sizeOf n

/-- **Where no choice depends on a comment, printing without comments is printing the tree that has
lost them, whatever separates the statements. Of a tree that can be printed every part is printed the
same only then**, where operands show. -/
theorem print_uncomment (hn : n.CommentsInLists) :
    ((∀ r m, Holds .whole n r m → m.form.KeepsShape) →
      ∀ newLine, n.print ⟨false, newLine⟩ = n.uncomment.print ⟨true, newLine⟩) ∧
    ((∃ text, n.print ⟨false, "\n"⟩ = .ok text) →
      (∀ r m, Holds .whole n r m → m.form.ShowsOperands) →
      ((∀ r m, Holds .whole n r m → r ≠ .component → m.isComment = false →
          ∀ newLine, m.print ⟨false, newLine⟩ = m.uncomment.print ⟨true, newLine⟩) ↔
        ∀ r m, Holds .whole n r m → m.form.KeepsShape)) := by
  obtain ⟨hcomment, hs⟩ := hn
  constructor
  · intro hk
    exact print_of_agrees (agrees_of_steady hcomment fun r m hm => ⟨hs r m hm, hk r m hm⟩)
  · intro hprints ho
    constructor
    · intro hp
      exact keepsShape_of_print (exists_print_iff.1 hprints) hs ho hp
    · intro hk r m hm hr hcm
      have hagrees : m.Agrees r :=
        agrees_of_steady hcm fun s k hk' => ⟨hs s k (hm.trans hk'), hk s k (hm.trans hk')⟩
      apply print_of_agrees
      intro inType
      have hpieces := hagrees inType
      rwa [pieces_of_ne hr, pieces_of_ne hr] at hpieces

theorem Holds.eq_of_name {r s : Role} {info : NodeInfo} {name : String} {m : Node}
    (h : Holds r (.mk info (.identifier name)) s m) : m = .mk info (.identifier name) := by
  cases h with
  | self => rfl
  | child hmem => cases r <;> simp [layout, componentLayout, Form.layout, fault] at hmem

/-- A tuple of two names with a comment between them keeps its shape, and so do its elements. -/
theorem print_uncomment_tuple :
    let x : Node := .mk (.sourceless ⟨0⟩) (.identifier "x")
    let c : Node := .mk (.sourceless ⟨1⟩) (.comment "// c")
    let y : Node := .mk (.sourceless ⟨2⟩) (.identifier "y")
    let t : Node := .mk (.sourceless ⟨3⟩) (.tuple [x, c, y])
    (∀ newLine, t.print ⟨false, newLine⟩ = t.uncomment.print ⟨true, newLine⟩) ∧
      ∀ r m, Holds .whole t r m → r ≠ .component → m.isComment = false →
        ∀ newLine, m.print ⟨false, newLine⟩ = m.uncomment.print ⟨true, newLine⟩ := by
  intro x c y t
  have hlayout : t.layout false .whole = "(" ++ whole x ++ ", " ++ whole y ++ ")" := by
    simp [t, x, c, y, layout, Form.layout, tupleLayout, commaList, listing, kept, isComment,
      join_cons_cons, join_singleton, parenthesized, ifTrue]
  -- Nothing is written but the tuple and its names.
  have hheld : ∀ r m, Holds .whole t r m → m = t ∨ m = x ∨ m = y := by
    intro r m hm
    cases hm with
    | self => exact .inl rfl
    | @child _ _ s k _ _ hmem hrest =>
      rw [hlayout] at hmem
      have hname : s = .whole ∧ k = x ∨ s = .whole ∧ k = y := by simpa [whole] using hmem
      rcases hname with ⟨-, rfl⟩ | ⟨-, rfl⟩
      · exact .inr (.inl hrest.eq_of_name)
      · exact .inr (.inr hrest.eq_of_name)
  have hlists : t.CommentsInLists := by
    refine ⟨rfl, fun r m hm => ?_⟩
    rcases hheld r m hm with rfl | rfl | rfl <;> exact noComments_nil
  have hprints : ∃ text, t.print ⟨false, "\n"⟩ = .ok text := by
    refine ⟨"(x, y)", ?_⟩
    rw [print, pieces_eq, hlayout]
    simp [x, y, whole, Item.pieces, pieces_eq, layout, Form.layout, write, Piece.text]
  have hkeeps : ∀ r m, Holds .whole t r m → m.form.KeepsShape := by
    intro r m hm
    rcases hheld r m hm with rfl | rfl | rfl
    · exact iff_of_false (by decide) (by decide)
    · exact trivial
    · exact trivial
  have hoperands : ∀ r m, Holds .whole t r m → m.form.ShowsOperands := by
    intro r m hm
    rcases hheld r m hm with rfl | rfl | rfl <;> exact trivial
  exact ⟨(print_uncomment hlists).1 hkeeps, ((print_uncomment hlists).2 hprints hoperands).2 hkeeps⟩

/-- **A tuple with one element left prints no comma after it**, though the comma is what tells it from
its element in parentheses. -/
theorem lone_element_comma :
    let x : Node := .mk (.sourceless ⟨0⟩) (.identifier "x")
    let c : Node := .mk (.sourceless ⟨1⟩) (.comment "// c")
    let t : Node := .mk (.sourceless ⟨2⟩) (.tuple [x, c])
    t.CommentsInLists ∧ t.print {} = .ok "(x)" ∧ t.uncomment.print ⟨true, "\n"⟩ = .ok "(x,)" := by
  intro x c t
  have hlayout : t.layout false .whole = "(" ++ whole x ++ ")" := by
    simp [t, x, c, layout, Form.layout, tupleLayout, commaList, listing, kept, isComment,
      join_singleton, parenthesized, ifTrue]
  have hbare : t.uncomment.layout true .whole = "(" ++ whole x ++ "," ++ ")" := by
    simp [t, x, c, uncomment_eq, Form.uncomment, uncommentList, layout, Form.layout, tupleLayout,
      commaList, listing, kept, isComment, join_singleton, parenthesized, ifTrue]
  refine ⟨⟨rfl, fun r m hm => ?_⟩, ?_, ?_⟩
  · cases hm with
    | self => exact noComments_nil
    | child hmem hrest =>
      rw [hlayout] at hmem
      obtain ⟨rfl, rfl⟩ := by simpa [whole] using hmem
      rw [hrest.eq_of_name]
      exact noComments_nil
  · rw [print, pieces_eq, hlayout]
    simp [x, whole, Item.pieces, pieces_eq, layout, Form.layout, write, Piece.text]
  · rw [print, pieces_eq, hbare]
    simp [x, whole, Item.pieces, pieces_eq, layout, Form.layout, write, Piece.text]

end Node

end ChapelSource
