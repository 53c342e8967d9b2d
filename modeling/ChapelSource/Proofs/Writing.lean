import ChapelSource.Print

/-!
# What layouts are written as

A layout without a fault is written as some characters, which are those of its parts in order.

* `Layout.Writes`, `Node.Writes`: a layout or a node is written as given characters.
* `Node.writes_iff`: a node is written as its layout is.
* `Layout.Writes.append`, `Layout.writes_text`, `Layout.writes_literal`, `Layout.writes_operator`,
  `Layout.writes_grouped`: the characters of the parts of a layout.
* `Layout.writes_branch`: the characters of a body of one node.
* `Node.Writes.print_eq`, `Node.Writes.printType_eq`: what a node is written as is its source text.
-/

namespace ChapelSource

/-- Pieces that have no fault are written as some characters. -/
def WritesPieces (newLine : String) (ps : List Piece) (cs : List Char) : Prop :=
  write newLine "" ps = .ok (String.ofList cs)

/-- A layout is written as some characters. -/
def Layout.Writes (newLine : String) (comments inType : Bool) (l : Layout) (cs : List Char) : Prop :=
  WritesPieces newLine (l.pieces comments inType) cs

/-- A node in a role is written as some characters. -/
def Node.Writes (newLine : String) (comments inType : Bool) (role : Role) (n : Node)
    (cs : List Char) : Prop :=
  WritesPieces newLine (n.pieces comments inType role) cs

theorem WritesPieces.append {newLine : String} {ps qs : List Piece} {cs ds : List Char}
    (hp : WritesPieces newLine ps cs) (hq : WritesPieces newLine qs ds) :
    WritesPieces newLine (ps ++ qs) (cs ++ ds) := by
  unfold WritesPieces at *
  rw [write_append, hp, Except.bind, write_eq_map, hq, Except.map, String.ofList_append]

section

variable {newLine : String} {comments inType : Bool}

theorem Node.writes_iff {role : Role} {n : Node} {cs : List Char} :
    n.Writes newLine comments inType role cs ↔
      (n.layout comments role).Writes newLine comments inType cs := by
  rw [Node.Writes, Node.pieces_eq, Layout.Writes]

theorem Node.Writes.print_eq {o : PrintOptions} {n : Node} {cs : List Char}
    (h : n.Writes o.newLine o.comments false .whole cs) : n.print o = .ok (String.ofList cs) := h

theorem Node.Writes.printType_eq {o : PrintOptions} {n : Node} {cs : List Char}
    (h : n.Writes o.newLine o.comments true .whole cs) : n.printType o = .ok (String.ofList cs) := by
  rw [Node.printType, pieces_of_ne (by decide)]
  exact h

namespace Layout

theorem Writes.append {l m : Layout} {cs ds : List Char}
    (hl : l.Writes newLine comments inType cs) (hm : m.Writes newLine comments inType ds) :
    Writes newLine comments inType (l ++ m) (cs ++ ds) := by
  rw [Writes, pieces_append]
  exact WritesPieces.append hl hm

theorem writes_nil : Writes newLine comments inType [] [] := by
  simp [Writes, WritesPieces, write]

theorem writes_text (s : String) : Writes newLine comments inType s s.toList := by
  simp [Writes, WritesPieces, Item.pieces, write, Piece.text]

theorem writes_ofList (cs : List Char) : Writes newLine comments inType (String.ofList cs) cs := by
  have h : Writes newLine comments inType (String.ofList cs) (String.ofList cs).toList :=
    writes_text _
  rwa [String.toList_ofList] at h

theorem writes_literal (marker body : String) :
    Writes newLine comments inType (literal marker body)
      (marker.toList ++ '"' :: (body.toList ++ ['"'])) := by
  simp [Writes, WritesPieces, literal, Item.pieces, write, Piece.text, String.ofList_append,
    String.ofList_cons, String.append_assoc]

theorem writes_lineBreak : Writes newLine comments inType lineBreak newLine.toList := by
  simp [Writes, WritesPieces, lineBreak, Item.pieces, write, Piece.text]

theorem writes_operator (s : String) :
    Writes newLine comments inType (Layout.operator s)
      (if Operator.spaced s inType then ' ' :: (s.toList ++ [' ']) else s.toList) := by
  cases h : Operator.spaced s inType <;>
    simp [Writes, WritesPieces, Layout.operator, Item.pieces, write, Piece.text, h,
      String.ofList_append, String.append_assoc]

theorem writes_whole {n : Node} {cs : List Char}
    (h : n.Writes newLine comments inType .whole cs) :
    (whole n).Writes newLine comments inType cs := by
  rw [Writes, whole, pieces_cons, pieces_nil, List.append_nil]
  exact h

theorem writes_asType {n : Node} {cs : List Char}
    (h : n.Writes newLine comments true .whole cs) :
    (asType n).Writes newLine comments inType cs := by
  rw [Writes, asType, pieces_cons, pieces_nil, List.append_nil, Item.pieces, Role.inType,
    Node.pieces_of_ne (by decide)]
  exact h

theorem Writes.parenthesized {l : Layout} {cs : List Char}
    (h : l.Writes newLine comments inType cs) :
    (parenthesized l).Writes newLine comments inType ('(' :: (cs ++ [')'])) :=
  ((writes_text "(").append h).append (writes_text ")")

theorem Writes.bracketed {l : Layout} {cs : List Char}
    (h : l.Writes newLine comments inType cs) :
    Writes newLine comments inType ("[" ++ l ++ "]") ('[' :: (cs ++ [']'])) :=
  ((writes_text "[").append h).append (writes_text "]")

theorem writes_grouped {n : Node} {cs : List Char}
    (h : n.Writes newLine comments inType .whole cs) (parens : Bool) :
    (grouped parens n).Writes newLine comments inType
      (if parens then '(' :: (cs ++ [')']) else cs) := by
  cases parens with
  | false => exact writes_whole h
  | true => exact (writes_whole h).parenthesized

/-- A body of one node that nothing sets off is written as its keyword and the node. -/
theorem writes_branch {n : Node} {cs : List Char} (h : n.Writes newLine comments inType .whole cs)
    (keyword : String) :
    (Body.layout comments keyword ⟨.implicit, [n]⟩).Writes newLine comments inType
      (keyword.toList ++ cs) := by
  have hlines : (lines comments [n]).Writes newLine comments inType cs := by
    rw [Writes, pieces_lines_singleton]
    exact h
  exact (writes_text keyword).append hlines

end Layout

end

end ChapelSource
