import ChapelSource.Print

/-!
# Printers

A printer writes the layout of a node item by item. What it has written so far, and whether it is
inside a type, go on from one item to the next and from one call to the next, also after an error.

* `Printer`: what a printer keeps.
* `Printing`: something that a printer does.
* `Printing.asType`: a type is printed in its own context, and the old one is taken up again.
* `Printing.node`, `Printing.item`: the items of a layout, nodes among them, one after the other.
* `Printing.call`: a call of the printer from outside.
* `Printer.session`: the answers of one printer to several calls.
-/

namespace ChapelSource

/-- What a printer keeps while it prints, and from one call to the next. -/
structure Printer where
  /-- How it prints. No call changes that. -/
  options : PrintOptions
  /-- What it has written so far. -/
  output : String
  /-- It is inside a type. -/
  inType : Bool

/-- A printer that has not printed yet. -/
def Printer.fresh (o : PrintOptions) : Printer := ⟨o, "", false⟩

/-- Something that a printer does. It may end in an error, and the printer goes on from what the
error left behind. -/
abbrev Printing (α : Type) := ExceptT PrintError (StateM Printer) α

/-- What comes of it, and the printer afterwards. -/
def Printing.runOn {α : Type} (act : Printing α) (p : Printer) : Except PrintError α × Printer :=
  act.run.run p

namespace Printing

/-! ## Writing -/

/-- A text is put after all that is written. -/
def append (s : String) : Printing Unit := modify fun p => { p with output := p.output ++ s }

/-- An atom of a layout. -/
def atom : Atom → Printing Unit
  | .text s => append s
  | .literal marker body => do
    append marker
    append "\""
    append body
    append "\""
  | .lineBreak => do append (← get).options.newLine
  | .fault e => throw e

/-- The symbol of a binary operator, set off by spaces outside types. -/
def operator (symbol : String) : Printing Unit := do
  if Operator.spaced symbol (← get).inType then
    append " "
    append symbol
    append " "
  else
    append symbol

/-- What is printed inside a type. Afterwards the printer is where it was before, whether there was
an error or not. -/
def asType (act : Printing Unit) : Printing Unit := ExceptT.mk do
  let outer := (← get).inType
  modify ({ · with inType := true })
  let result ← act.run
  modify ({ · with inType := outer })
  return result

/-- What is printed in a role. -/
def inRole (role : Role) (act : Printing Unit) : Printing Unit :=
  match role with
  | .typeExpr => asType act
  | .whole | .component => act

/-! ## Nodes -/

/-- A node in a role. -/
def node (role : Role) (n : Node) : Printing Unit := do
  let p ← get
  (n.layout p.options.comments role).attach.forM fun
    | ⟨.atom a, _⟩ => atom a
    | ⟨.operator symbol, _⟩ => operator symbol
    | ⟨.child r m, _⟩ => inRole r (node r m)
termination_by sizeOf n
decreasing_by exact n.below_layout p.options.comments role r m ‹_›

/-- An item of a layout. -/
def item : Item → Printing Unit
  | .atom a => atom a
  | .operator symbol => operator symbol
  | .child role n => inRole role (node role n)

/-- The items of a layout in order. -/
def layout (l : Layout) : Printing Unit := l.forM item

/-! ## Calls -/

/-- Whatever an earlier call left behind is forgotten. -/
def reset : Printing Unit := modify fun p => { p with output := "", inType := false }

/-- What is written, which is then the caller's. -/
def take : Printing String := do
  let text := (← get).output
  modify ({ · with output := "" })
  return text

/-- A call from outside. -/
def call : PrintCall → Printing String
  | .node n => do
    reset
    node .whole n
    take
  | .signature f => do
    reset
    layout (f.signatureLayout (← get).options.comments)
    take

end Printing

/-- The answers of one printer to some calls in order. -/
def Printer.session (p : Printer) : List PrintCall → List (Except PrintError String)
  | [] => []
  | c :: cs => ((Printing.call c).runOn p).1 :: session ((Printing.call c).runOn p).2 cs

end ChapelSource
