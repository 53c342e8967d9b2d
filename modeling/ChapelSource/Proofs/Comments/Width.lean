import ChapelSource.Print
import ChapelSource.Proofs.Comments.Layout

/-!
# Widths

The width of a layout is the number of characters that it is written as. It is the same for a layout
and for what is left of it without its comments, if each child is written the same without its own.

* `Node.Agrees`, `Layout.Agrees`: a node, and the children in a layout, are written the same without
  their comments.
* `Layout.pieces_uncomment`: a layout is written the same without its comments if its children are.
* `total`, `eq_of_total_eq_of_le`: the sum of a size over a list.
* `Layout.width`: the width of a layout.
* `write_length`: it is the length of the text, if there is one.
* `Layout.width_uncomment`, `Layout.width_commaList_eq`, `Layout.width_join`: the widths of the parts
  of a layout.
-/

namespace ChapelSource

/-! ## Children that are written the same -/

/-- A node is written the same without its comments, inside a type and elsewhere. -/
def Node.Agrees (role : Role) (n : Node) : Prop :=
  ∀ inType, n.pieces false inType role = n.uncomment.pieces true inType role

/-- A child is written the same without its comments if it is no comment itself. -/
def Item.Agrees : Item → Prop
  | .child role n => n.isComment = false → n.Agrees role
  | _ => True

namespace Layout

/-- All children are written the same without their comments. -/
def Agrees (l : Layout) : Prop := ∀ i ∈ l, i.Agrees

variable {l m : Layout}

theorem agrees_nil : Agrees [] := fun _ h => absurd h List.not_mem_nil

theorem agrees_append : Agrees (l ++ m) ↔ l.Agrees ∧ m.Agrees := List.forall_mem_append

theorem Agrees.left (h : Agrees (l ++ m)) : l.Agrees := (agrees_append.1 h).1

theorem Agrees.right (h : Agrees (l ++ m)) : m.Agrees := (agrees_append.1 h).2

theorem Agrees.of_cons {i : Item} (h : Agrees (i :: l)) : i.Agrees ∧ l.Agrees :=
  List.forall_mem_cons.1 h

theorem Agrees.of_parenthesized (h : Agrees (parenthesized l)) : l.Agrees := h.left.right

theorem Agrees.of_join {separator : Layout} {parts : List Layout}
    (h : Agrees (join separator parts)) : ∀ p ∈ parts, p.Agrees := by
  induction parts with
  | nil => exact fun p hp => absurd hp List.not_mem_nil
  | cons q parts ih =>
    cases parts with
    | nil =>
      rw [join_singleton] at h
      intro p hp
      rwa [List.mem_singleton.1 hp]
    | cons r parts =>
      rw [join_cons_cons] at h
      intro p hp
      rcases List.mem_cons.1 hp with rfl | hp
      · exact h.left.left
      · exact ih h.right p hp

end Layout

/-- Among components a comment is a fault, whether it is written or not. -/
theorem Node.agrees_component {n : Node} (h : n.isComment) : n.Agrees .component := by
  obtain ⟨text, hform⟩ := isComment_iff.1 h
  intro inType
  rw [pieces_eq, pieces_eq]
  simp only [layout, componentLayout, form_uncomment, kind_uncomment, hform, Form.uncomment]
  rfl

/-- **A layout is written the same without its comments if its children are.** -/
theorem Layout.pieces_uncomment {l : Layout} (h : l.Agrees) (inType : Bool) :
    l.pieces false inType = l.uncomment.pieces true inType := by
  induction l with
  | nil => rfl
  | cons i l ih =>
    obtain ⟨hi, hl⟩ := Agrees.of_cons h
    have hone : i.pieces false inType = pieces true inType (uncomment [i]) := by
      cases i with
      | atom a => rfl
      | operator symbol => rfl
      | child role n =>
        cases hn : n.isComment with
        | false =>
          rw [uncomment_child hn, pieces_cons, pieces_nil, List.append_nil]
          exact hi hn (role.inType inType)
        | true =>
          by_cases hr : role = .component
          · subst hr
            have hstays : uncomment [.child .component n] = [.child .component n.uncomment] :=
              uncomment_component
            rw [hstays, pieces_cons, pieces_nil, List.append_nil]
            exact Node.agrees_component hn (Role.component.inType inType)
          · have hgone : uncomment [.child role n] = [] := by
              simp [uncomment, Item.uncomment?, hn, hr]
            rw [hgone]
            exact Node.pieces_comment hn hr (role.inType inType)
    have happend : uncomment (i :: l) = uncomment [i] ++ uncomment l :=
      uncomment_append (l := [i]) (m := l)
    rw [pieces_cons, happend, pieces_append, hone, ih hl]

/-! ## Sums -/

/-- The sum of a size over a list. -/
def total {α : Type} (size : α → Nat) : List α → Nat
  | [] => 0
  | a :: l => size a + total size l

section Total

variable {α β : Type} {f g : α → Nat} {l m : List α}

theorem total_append : total f (l ++ m) = total f l + total f m := by
  induction l with
  | nil => exact (Nat.zero_add _).symm
  | cons a l ih => rw [List.cons_append, total, ih, total, Nat.add_assoc]

theorem total_map {h : β → α} {parts : List β} :
    total f (parts.map h) = total (fun b => f (h b)) parts := by
  induction parts with
  | nil => rfl
  | cons b parts ih => rw [List.map_cons, total, ih, total]

theorem total_le_total (hle : ∀ a ∈ l, f a ≤ g a) : total f l ≤ total g l := by
  induction l with
  | nil => exact Nat.le_refl _
  | cons a l ih =>
    obtain ⟨ha, hl⟩ := List.forall_mem_cons.1 hle
    exact Nat.add_le_add ha (ih hl)

theorem eq_of_total_eq_of_le (hle : ∀ a ∈ l, f a ≤ g a) (h : total f l = total g l) :
    ∀ a ∈ l, f a = g a := by
  induction l with
  | nil => exact fun a ha => absurd ha List.not_mem_nil
  | cons b l ih =>
    obtain ⟨hb, hl⟩ := List.forall_mem_cons.1 hle
    have hrest := total_le_total hl
    rw [total, total] at h
    intro a ha
    rcases List.mem_cons.1 ha with rfl | ha
    · omega
    · exact ih hl (by omega) a ha

end Total

/-! ## Widths -/

/-- The number of characters that a piece is written as. -/
def Piece.width (p : Piece) : Nat := (p.text "\n").toOption.elim 0 String.length

theorem write_length {ps : List Piece} {out text : String} (h : write "\n" out ps = .ok text) :
    text.length = out.length + total Piece.width ps := by
  induction ps generalizing out with
  | nil =>
    rw [write, Except.ok.injEq] at h
    rw [h, total, Nat.add_zero]
  | cons p ps ih =>
    rw [write] at h
    cases hp : p.text "\n" with
    | error e =>
      rw [hp] at h
      contradiction
    | ok s =>
      rw [hp] at h
      have hw : p.width = s.length := by
        rw [Piece.width, hp]
        rfl
      rw [ih h, String.length_append, total, hw]
      omega

namespace Layout

/-- The number of characters that a layout is written as. -/
def width (comments : Bool) (l : Layout) : Nat :=
  total Piece.width (l.pieces comments false)

variable {l m separator : Layout} {comments : Bool}

@[simp] theorem width_nil : width comments [] = 0 := rfl

@[simp] theorem width_append :
    width comments (l ++ m) = width comments l + width comments m := by
  rw [width, pieces_append, total_append]
  rfl

@[simp] theorem width_text (s : String) : width comments [.atom (.text s)] = s.length :=
  Nat.add_zero _

theorem width_parenthesized :
    width comments (parenthesized l) = width comments l + 2 := by
  simp only [parenthesized, width_append, width_text]
  have h : "(".length = 1 ∧ ")".length = 1 := by decide
  omega

theorem width_ifTrue (b : Bool) :
    width comments (ifTrue b l) = if b then width comments l else 0 := by
  cases b <;> rfl

/-- Layouts in a row are as wide as all of them and the separators between them. -/
theorem width_join (parts : List Layout) :
    width comments (join separator parts) =
      total (width comments) parts + (parts.length - 1) * width comments separator := by
  induction parts with
  | nil => simp [join, total]
  | cons p parts ih =>
    cases parts with
    | nil => simp [join_singleton, total]
    | cons q parts =>
      rw [join_cons_cons, width_append, width_append, ih]
      simp only [total, List.length_cons, Nat.add_sub_cancel, Nat.add_mul, Nat.one_mul]
      omega

theorem width_uncomment (h : l.Agrees) : width false l = width true l.uncomment := by
  rw [width, width, pieces_uncomment h]

theorem width_commaList_eq {nodes : List Node} (h : (commaList false nodes).Agrees) :
    width false (commaList false nodes) =
      width true (commaList true (uncommentList Node.uncomment nodes)) := by
  rw [← uncomment_commaList]
  exact width_uncomment h

end Layout

end ChapelSource
