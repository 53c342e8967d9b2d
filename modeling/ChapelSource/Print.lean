import ChapelSource.Piece

/-!
# Printing

* `PrintOptions`: whether comments are written, and what separates statements.
* `Layout.print`: the source text of a layout.
* `Node.print`, `Node.printType`: the source text of a tree, on its own and as a type.
* `FunctionDecl.printSignature`: the source text of the signature of a function.
* `Layout.print_append`, `Node.print_eq_layout`: the text of a layout in two parts, and of a node.
* `PrintCall`: something to be printed.
* `PrintStep`, `printAll`: a session of several calls under shared options, which a call may replace
  by its own; each is independent of the others.
-/

namespace ChapelSource

/-- How trees are printed. -/
structure PrintOptions where
  /-- Comments are written and not dropped. -/
  comments : Bool := false
  /-- What separates the statements of a list. -/
  newLine : String := "\n"

/-- The source text of a layout outside types, or the first cause why it has none. -/
def Layout.print (o : PrintOptions) (l : Layout) : Except PrintError String :=
  write o.newLine "" (l.pieces o.comments false)

/-- The source text of a tree, or the first cause why it has none. -/
def Node.print (o : PrintOptions) (n : Node) : Except PrintError String :=
  write o.newLine "" (n.pieces o.comments false .whole)

/-- The text of a tree where a type stands, or the first cause why it has none. -/
def Node.printType (o : PrintOptions) (n : Node) : Except PrintError String :=
  write o.newLine "" (n.pieces o.comments true .typeExpr)

/-- The source text of the signature of a function, or the first cause why it has none. -/
def FunctionDecl.printSignature (o : PrintOptions) (f : FunctionDecl Node) :
    Except PrintError String :=
  write o.newLine "" ((f.signatureLayout o.comments).pieces o.comments false)

theorem Node.print_eq_layout (o : PrintOptions) (n : Node) :
    n.print o = (n.layout o.comments .whole).print o := by
  rw [print, pieces_eq, Layout.print]

namespace Layout

variable (o : PrintOptions)

theorem print_append (l m : Layout) :
    (l ++ m).print o = (l.print o).bind fun s => (m.print o).map (s ++ ·) := by
  rw [print, pieces_append, write_append]
  exact congrArg _ (funext fun s => write_eq_map o.newLine _ s)

variable {o} {l m : Layout}

theorem print_append_eq_ok_iff {text : String} :
    (l ++ m).print o = .ok text ↔
      ∃ s t, l.print o = .ok s ∧ m.print o = .ok t ∧ text = s ++ t := by
  rw [print_append]
  cases l.print o with
  | error e => exact ⟨nofun, fun ⟨_, _, h, _⟩ => nomatch h⟩
  | ok s =>
    cases m.print o with
    | error e => exact ⟨nofun, fun ⟨_, _, _, h, _⟩ => nomatch h⟩
    | ok t =>
      constructor
      · rintro ⟨⟩
        exact ⟨s, t, rfl, rfl, rfl⟩
      · rintro ⟨_, _, ⟨⟩, ⟨⟩, rfl⟩
        rfl

/-- The second part has a say only if the first has a text. -/
theorem print_append_eq_error_iff {e : PrintError} :
    (l ++ m).print o = .error e ↔
      l.print o = .error e ∨ ∃ s, l.print o = .ok s ∧ m.print o = .error e := by
  rw [print_append]
  cases l.print o with
  | error e' => exact ⟨.inl, fun h => h.resolve_right fun ⟨_, h, _⟩ => nomatch h⟩
  | ok s =>
    constructor
    · intro h
      cases hm : m.print o with
      | error e' =>
        rw [hm] at h
        exact .inr ⟨s, rfl, h⟩
      | ok t =>
        rw [hm] at h
        contradiction
    · rintro (h | ⟨_, -, h⟩)
      · contradiction
      · rw [h]
        rfl

variable (o)

@[simp] theorem print_text (s : String) : print o s = .ok s := by
  rw [print]
  exact congrArg Except.ok String.empty_append

@[simp] theorem print_whole (n : Node) : (whole n).print o = n.print o := by
  rw [print, whole, pieces_cons, pieces_nil, List.append_nil]
  rfl

end Layout

/-- Something to be printed. -/
inductive PrintCall where
  | node (n : Node)
  | signature (f : FunctionDecl Node)

/-- The answer to one call. -/
def PrintCall.run (o : PrintOptions) : PrintCall → Except PrintError String
  | .node n => n.print o
  | .signature f => f.printSignature o

/-- A step of a session: a call, and the options that it brings in place of the shared ones. -/
structure PrintStep where
  /-- What is to be printed. -/
  call : PrintCall
  /-- Options of its own, if it brings any. -/
  ownOptions : Option PrintOptions

/-- The answer to a step under shared options. -/
def PrintStep.run (shared : PrintOptions) (step : PrintStep) : Except PrintError String :=
  step.call.run (step.ownOptions.getD shared)

/-- The answers to the steps of a session in order. -/
def printAll (shared : PrintOptions) (steps : List PrintStep) : List (Except PrintError String) :=
  steps.map (PrintStep.run shared)

end ChapelSource
