import ChapelSource.Layout.Descent

/-!
# Pieces of text

The pieces of a tree are its layout with every child replaced by the pieces of the child, so that no
child is left. A type is laid out like any other construct; inside it the symbols of binary
operators have no spaces.

* `Piece`: a part of the text of a tree.
* `Node.pieces`: the pieces of a tree, by recursion through layouts.
* `Node.pieces_eq`: the equation between the pieces and the layout of a node.
* `Node.pieces_of_ne`: a type has the pieces of a construct of its own.
* `Node.pieces_comment`, `Layout.pieces_lines_singleton`: a comment that is not written, and a list
  of one node.
* `Piece.text`, `write`: pieces in writing, up to the first fault.
* `write_append`, **`write_eq_map`**, `write_cons`: writing goes piece by piece and only appends.
-/

namespace ChapelSource

/-- A part of the text of a tree. -/
inductive Piece where
  | atom (a : Atom)
  /-- The symbol of a binary operator, with or without a space on each side. -/
  | operator (symbol : String) (spaced : Bool)

/-- Inside a type everything is inside a type; elsewhere only the types are. -/
def Role.inType (role : Role) (outside : Bool) : Bool :=
  match role with
  | .typeExpr => true
  | .whole | .component => outside

/-- The pieces of a node in a role. -/
def Node.pieces (comments inType : Bool) (role : Role) (n : Node) : List Piece :=
  (n.layout comments role).attach.flatMap fun
    | ⟨.atom a, _⟩ => [.atom a]
    | ⟨.operator symbol, _⟩ => [.operator symbol (Operator.spaced symbol inType)]
    | ⟨.child r m, _⟩ => m.pieces comments (r.inType inType) r
termination_by sizeOf n
decreasing_by exact n.below_layout comments role r m ‹_›

/-- The pieces of an item of a layout. -/
def Item.pieces (comments inType : Bool) : Item → List Piece
  | .atom a => [.atom a]
  | .operator symbol => [.operator symbol (Operator.spaced symbol inType)]
  | .child role n => n.pieces comments (role.inType inType) role

/-- The pieces of a layout. -/
def Layout.pieces (comments inType : Bool) (l : Layout) : List Piece :=
  l.flatMap (Item.pieces comments inType)

/-- **The pieces of a node are the pieces of its layout.** -/
theorem Node.pieces_eq (comments inType : Bool) (role : Role) (n : Node) :
    n.pieces comments inType role = (n.layout comments role).pieces comments inType := by
  rw [Node.pieces, Layout.pieces]
  conv => rhs; rw [← List.attach_map_subtype_val (n.layout comments role), List.flatMap_map]
  congr 1
  funext ⟨i, hi⟩
  cases i <;> rfl

/-- Only as a component is a node laid out in another way. -/
theorem Node.layout_of_ne {n : Node} {role : Role} (hr : role ≠ .component) (comments : Bool) :
    n.layout comments role = n.layout comments .whole := by
  cases role with
  | component => exact absurd rfl hr
  | whole => rfl
  | typeExpr => rfl

theorem Node.pieces_of_ne {n : Node} {role : Role} (hr : role ≠ .component)
    (comments inType : Bool) : n.pieces comments inType role = n.pieces comments inType .whole := by
  rw [pieces_eq, pieces_eq, layout_of_ne hr]

namespace Layout

variable (comments inType : Bool)

@[simp] theorem pieces_nil : pieces comments inType [] = [] := rfl

@[simp] theorem pieces_cons (i : Item) (l : Layout) :
    pieces comments inType (i :: l) = i.pieces comments inType ++ pieces comments inType l := rfl

@[simp] theorem pieces_append (l m : Layout) :
    pieces comments inType (l ++ m) = pieces comments inType l ++ pieces comments inType m :=
  List.flatMap_append

end Layout

theorem Node.pieces_comment {n : Node} {role : Role} (h : n.isComment) (hr : role ≠ .component)
    (inType : Bool) : n.pieces false inType role = [] := by
  obtain ⟨text, hform⟩ := isComment_iff.1 h
  have hlayout : n.form.layout false = [] := by
    rw [hform]
    rfl
  rw [pieces_eq]
  cases role with
  | component => exact absurd rfl hr
  | whole => exact congrArg (Layout.pieces false inType) hlayout
  | typeExpr => exact congrArg (Layout.pieces false inType) hlayout

/-- A list of one node has the pieces of the node, also if it is a comment that is not written. -/
theorem Layout.pieces_lines_singleton (comments inType : Bool) (n : Node) :
    (lines comments [n]).pieces comments inType = n.pieces comments inType .whole := by
  cases h : comments || !n.isComment with
  | true =>
    have hkept : kept comments [n] = [n] := by simp [kept, h]
    rw [lines, listing, hkept, List.map_singleton, join_singleton, whole, pieces_cons, pieces_nil,
      List.append_nil]
    rfl
  | false =>
    have hkept : kept comments [n] = [] := by simp [kept, h]
    rw [Bool.or_eq_false_iff, Bool.not_eq_false'] at h
    obtain ⟨rfl, hcomment⟩ := h
    rw [lines, listing, hkept, Node.pieces_comment hcomment (by decide)]
    rfl

/-! ## Writing -/

/-- A piece in writing, or the fault that it is. -/
def Piece.text (newLine : String) : Piece → Except PrintError String
  | .atom (.text s) => .ok s
  | .atom (.literal marker body) => .ok (marker ++ "\"" ++ body ++ "\"")
  | .atom .lineBreak => .ok newLine
  | .atom (.fault e) => .error e
  | .operator symbol true => .ok (" " ++ symbol ++ " ")
  | .operator symbol false => .ok symbol

/-- Pieces written after `out`, up to the first fault. -/
def write (newLine : String) (out : String) : List Piece → Except PrintError String
  | [] => .ok out
  | p :: ps =>
    match p.text newLine with
    | .ok s => write newLine (out ++ s) ps
    | .error e => .error e

theorem write_append (newLine : String) (ps qs : List Piece) (out : String) :
    write newLine out (ps ++ qs) = (write newLine out ps).bind (write newLine · qs) := by
  induction ps generalizing out with
  | nil => rfl
  | cons p ps ih =>
    simp only [List.cons_append, write]
    cases p.text newLine with
    | ok s => exact ih _
    | error e => rfl

/-- **Writing only appends.** What is written does not depend on what stands before it. -/
theorem write_eq_map (newLine : String) (ps : List Piece) (out : String) :
    write newLine out ps = (write newLine "" ps).map (out ++ ·) := by
  induction ps generalizing out with
  | nil => simp [write, Except.map]
  | cons p ps ih =>
    simp only [write]
    cases p.text newLine with
    | ok s =>
      dsimp only
      rw [ih (out ++ s), ih ("" ++ s)]
      cases write newLine "" ps <;> simp [Except.map, String.append_assoc]
    | error e => rfl

theorem write_cons {newLine s text : String} {p : Piece} {ps : List Piece}
    (hp : p.text newLine = .ok s) (h : write newLine "" ps = .ok text) :
    write newLine "" (p :: ps) = .ok (s ++ text) := by
  rw [write, hp]
  dsimp only
  rw [write_eq_map, h, String.empty_append]
  rfl

end ChapelSource
