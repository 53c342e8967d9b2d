import ChapelSource.Printer

/-!
# A printer carries nothing on

What a printer writes of a node is put after what is written already and depends on nothing of it;
whether it is inside a type is the same before and after, also when it stops at a fault. So a
printer answers every call like one that has not printed yet.

* `Printing.Writes`: a printer writes some pieces and is otherwise left as it is.
* `Printing.Writes.seq`, `Printing.Writes.inRole`, `Printing.writes_layout`: it does so step by
  step.
* **`Printing.writes_node`**: of a node it writes the pieces of the node.
* `Printing.runOn_call`: the answer to a call does not depend on the calls before it.
* **`Printer.session_eq_fresh`**: the answers of one printer, and what it does with a node.
-/

namespace ChapelSource

namespace Printing

/-! ## Steps -/

section Steps

variable (p : Printer)

/-- What goes on after a step starts from where the step ended; after an error nothing goes on. -/
theorem runOn_bind {α β : Type} (act : Printing α) (next : α → Printing β) :
    (act >>= next).runOn p =
      match act.runOn p with
      | (.ok a, q) => (next a).runOn q
      | (.error e, q) => (.error e, q) := by
  show ExceptT.bindCont next (act p).1 (act p).2 = match act p with
    | (.ok a, q) => (next a).runOn q
    | (.error e, q) => (.error e, q)
  cases act p with
  | mk result q => cases result <;> rfl

theorem runOn_asType (act : Printing Unit) :
    (asType act).runOn p =
      ((act.runOn { p with inType := true }).1,
        { (act.runOn { p with inType := true }).2 with inType := p.inType }) := rfl

end Steps

/-! ## Writing pieces -/

/-- Pieces are written after what is written already, up to their first fault. Nothing else of the
printer changes. -/
def Writes (act : Printing Unit) (pieces : Bool → Bool → List Piece) : Prop :=
  ∀ o out inType, ∃ more,
    act.runOn ⟨o, out, inType⟩ =
      ((write o.newLine "" (pieces o.comments inType)).map fun _ => (), ⟨o, out ++ more, inType⟩) ∧
    ∀ text, write o.newLine "" (pieces o.comments inType) = .ok text → more = text

section Writes

variable {act next : Printing Unit} {f g : Bool → Bool → List Piece}

theorem writes_nil : (pure () : Printing Unit).Writes fun _ _ => [] := by
  intro o out inType
  refine ⟨"", ?_, ?_⟩
  · rw [String.append_empty]
    rfl
  · rintro _ ⟨⟩
    rfl

theorem Writes.seq (hact : act.Writes f) (hnext : next.Writes g) :
    Writes (do act; next) fun comments inType => f comments inType ++ g comments inType := by
  intro o out inType
  obtain ⟨more, hrun, hmore⟩ := hact o out inType
  dsimp only
  rw [runOn_bind, hrun, write_append]
  cases hw : write o.newLine "" (f o.comments inType) with
  | error e => exact ⟨more, rfl, fun _ h => nomatch h⟩
  | ok text =>
    obtain rfl := hmore text hw
    obtain ⟨rest, hrest, htext⟩ := hnext o (out ++ more) inType
    refine ⟨more ++ rest, ?_, ?_⟩
    · show next.runOn _ = ((write o.newLine more (g o.comments inType)).map _, _)
      rw [hrest, write_eq_map _ _ more, String.append_assoc]
      cases write o.newLine "" (g o.comments inType) <;> rfl
    · intro all hall
      change write o.newLine more (g o.comments inType) = .ok all at hall
      rw [write_eq_map] at hall
      cases hg : write o.newLine "" (g o.comments inType) with
      | error e =>
        rw [hg] at hall
        contradiction
      | ok tail =>
        rw [hg] at hall
        rw [htext tail hg]
        exact Except.ok.inj hall

/-- One piece is put after all that is written, or is the fault at which the printer stops. -/
theorem writes_of_text {piece : Bool → Piece}
    (hok : ∀ o out inType s, (piece inType).text o.newLine = .ok s →
      act.runOn ⟨o, out, inType⟩ = (.ok (), ⟨o, out ++ s, inType⟩))
    (herror : ∀ o out inType e, (piece inType).text o.newLine = .error e →
      act.runOn ⟨o, out, inType⟩ = (.error e, ⟨o, out, inType⟩)) :
    act.Writes fun _ inType => [piece inType] := by
  intro o out inType
  cases h : (piece inType).text o.newLine with
  | ok s =>
    have hwrite : write o.newLine "" [piece inType] = .ok s := by
      rw [write, h]
      exact congrArg Except.ok String.empty_append
    exact ⟨s, by rw [hok o out inType s h, hwrite]; rfl, by rw [hwrite]; rintro _ ⟨⟩; rfl⟩
  | error e =>
    have hwrite : write o.newLine "" [piece inType] = .error e := by rw [write, h]
    refine ⟨"", ?_, fun _ htext => ?_⟩
    · rw [herror o out inType e h, hwrite, String.append_empty]
      rfl
    · rw [hwrite] at htext
      contradiction

theorem writes_atom (a : Atom) : (atom a).Writes fun _ _ => [.atom a] := by
  refine writes_of_text (fun o out inType s h => ?_) fun o out inType e h => ?_
  · cases a with
    | text t =>
      cases h
      rfl
    | literal marker body =>
      cases h
      simp only [← String.append_assoc]
      rfl
    | lineBreak =>
      cases h
      rfl
    | fault e => exact nomatch h
  · cases a with
    | fault e' =>
      cases h
      rfl
    | text t => exact nomatch h
    | literal marker body => exact nomatch h
    | lineBreak => exact nomatch h

theorem writes_operator (symbol : String) :
    (operator symbol).Writes fun _ inType =>
      [.operator symbol (Operator.spaced symbol inType)] := by
  have hrun : ∀ p : Printer, (operator symbol).runOn p =
      (if Operator.spaced symbol p.inType then do
          append " "
          append symbol
          append " "
        else append symbol : Printing Unit).runOn p := fun _ => rfl
  refine writes_of_text (fun o out inType s h => ?_) fun o out inType e h => ?_
  · rw [hrun]
    dsimp only
    cases hspaced : Operator.spaced symbol inType with
    | false =>
      rw [hspaced] at h
      cases h
      rfl
    | true =>
      rw [hspaced] at h
      cases h
      simp only [← String.append_assoc]
      rfl
  · cases hspaced : Operator.spaced symbol inType <;> rw [hspaced] at h <;> exact nomatch h

theorem Writes.inRole (h : act.Writes f) (role : Role) :
    (inRole role act).Writes fun comments inType => f comments (role.inType inType) := by
  cases role with
  | whole => exact h
  | component => exact h
  | typeExpr =>
    intro o out inType
    obtain ⟨more, hrun, hmore⟩ := h o out true
    refine ⟨more, ?_, hmore⟩
    show (asType act).runOn _ = _
    rw [runOn_asType, hrun]
    rfl

end Writes

/-! ## Nodes -/

theorem writes_layout {l : Layout}
    (h : ∀ i ∈ l, (item i).Writes fun comments inType => i.pieces comments inType) :
    (layout l).Writes fun comments inType => l.pieces comments inType := by
  induction l with
  | nil => exact writes_nil
  | cons i l ih =>
    exact (h i List.mem_cons_self).seq (ih fun j hj => h j (List.mem_cons_of_mem i hj))

theorem attach_forM (l : Layout) : l.attach.forM (fun i => item i.1) = layout l := by
  rw [layout, List.forM_eq_forM, List.forM_eq_forM]
  conv => rhs; rw [← List.attach_map_subtype_val l, List.forM_map]

theorem runOn_node (role : Role) (n : Node) (p : Printer) :
    (node role n).runOn p = (layout (n.layout p.options.comments role)).runOn p := by
  rw [node, ← attach_forM]
  show runOn (List.forM (n.layout p.options.comments role).attach _) p = _
  congr 2
  funext ⟨i, hi⟩
  cases i <;> rfl

/-- **Of a node a printer writes the pieces of the node.** -/
theorem writes_node (role : Role) (n : Node) :
    (node role n).Writes fun comments inType => n.pieces comments inType role := by
  intro o out inType
  dsimp only
  rw [runOn_node, n.pieces_eq]
  refine writes_layout (fun i hi => ?_) o out inType
  cases i with
  | atom a => exact writes_atom a
  | operator symbol => exact writes_operator symbol
  | child r m =>
    have hlt : sizeOf m < sizeOf n := n.below_layout o.comments role r m hi
    exact (writes_node r m).inRole r
termination_by sizeOf n

theorem writes_item (i : Item) :
    (item i).Writes fun comments inType => i.pieces comments inType := by
  cases i with
  | atom a => exact writes_atom a
  | operator symbol => exact writes_operator symbol
  | child role n => exact (writes_node role n).inRole role

/-! ## Calls -/

/-- What is written after a reset is the answer to a call, whatever there was before. -/
theorem Writes.answer {act : Printing Unit} {pieces : Bool → Bool → List Piece}
    (h : act.Writes pieces) (p : Printer) :
    ∃ out, (do reset; act; take : Printing String).runOn p =
      (write p.options.newLine "" (pieces p.options.comments false), ⟨p.options, out, false⟩) := by
  obtain ⟨more, hrun, hmore⟩ := h p.options "" false
  have hreset : (do reset; act; take : Printing String).runOn p =
      (do act; take : Printing String).runOn ⟨p.options, "", false⟩ := rfl
  rw [hreset, runOn_bind, hrun]
  cases hw : write p.options.newLine "" (pieces p.options.comments false) with
  | error e => exact ⟨_, rfl⟩
  | ok text =>
    obtain rfl := hmore text hw
    refine ⟨"", ?_⟩
    show (Except.ok ("" ++ more), Printer.mk p.options "" false) = _
    rw [String.empty_append]

/-- The answer to a call does not depend on what earlier calls left behind. -/
theorem runOn_call (c : PrintCall) (p : Printer) :
    ∃ out, (call c).runOn p = (c.run p.options, ⟨p.options, out, false⟩) := by
  cases c with
  | node n => exact (writes_node .whole n).answer p
  | signature f =>
    let l := f.signatureLayout p.options.comments
    have hcall : (call (.signature f)).runOn p =
        (do reset; layout l; take : Printing String).runOn p := rfl
    have hlayout : (layout l).Writes fun comments inType => l.pieces comments inType :=
      writes_layout fun i _ => writes_item i
    rw [hcall]
    exact hlayout.answer p

end Printing

namespace Printer

theorem session_eq (p : Printer) (calls : List PrintCall) :
    p.session calls = calls.map (PrintCall.run p.options) := by
  induction calls generalizing p with
  | nil => rfl
  | cons c calls ih =>
    obtain ⟨out, h⟩ := Printing.runOn_call c p
    rw [session, h, ih, List.map_cons]

/-- **A printer carries nothing from one call to the next, and printing a node only appends.** Its
answers are those of fresh printers and those of a session. What it writes of a node depends on the
node, the role, the options and the place where it stands, and on nothing that is written already;
the place is the same afterwards, also after an error. -/
theorem session_eq_fresh (p : Printer) (calls : List PrintCall) (role : Role) (n : Node) :
    (p.session calls = calls.map fun c => ((Printing.call c).runOn (fresh p.options)).1) ∧
    p.session calls = printAll p.options (calls.map (⟨·, none⟩)) ∧
    ∀ inType, ∃ result : Except PrintError String, ∀ out, ∃ more,
      (Printing.node role n).runOn ⟨p.options, out, inType⟩ =
        (result.map fun _ => (), ⟨p.options, out ++ more, inType⟩) ∧
      ∀ text, result = .ok text → more = text := by
  refine ⟨?_, ?_, fun inType => ?_⟩
  · rw [session_eq]
    refine List.map_congr_left fun c _ => ?_
    obtain ⟨out, h⟩ := Printing.runOn_call c (fresh p.options)
    rw [h]
    rfl
  · rw [session_eq, printAll, List.map_map]
    rfl
  · exact ⟨_, fun out => Printing.writes_node role n p.options out inType⟩

end Printer

end ChapelSource
