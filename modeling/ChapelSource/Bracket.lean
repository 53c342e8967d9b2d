import ChapelSource.Print

/-!
# Brackets

A reader of brackets goes through a text from left to right. Outside literals an opening bracket is
put on a stack and a closing one must match the top of it. A literal goes from a double quote to the
next one that is not skipped after a backslash, and no bracket in it counts.

* `Bracket`, `Nesting`, `Nesting.step`, `Nesting.scan`: the reader.
* `WellBracketed`: a text in which all brackets and all literals are closed.
* `PlainText`: a text without brackets and quotes.
* `Form.texts`, `Node.Mentions`, `PrintCall.Mentions`: the names and other texts in what is to be
  printed.
-/

namespace ChapelSource

/-! ## The reader -/

/-- The kinds of brackets. -/
inductive Bracket where
  | paren | square | curly
  deriving DecidableEq

/-- The bracket that a character opens. -/
def Bracket.opened? : Char → Option Bracket
  | '(' => some .paren
  | '[' => some .square
  | '\x7b' => some .curly
  | _ => none

/-- The bracket that a character closes. -/
def Bracket.closed? : Char → Option Bracket
  | ')' => some .paren
  | ']' => some .square
  | '\x7d' => some .curly
  | _ => none

/-- Where a reader stands with regard to literals. -/
inductive ScanMode where
  /-- Outside all literals. -/
  | code
  /-- Inside a literal. -/
  | literal
  /-- Right after a backslash in a literal. -/
  | escape
  deriving DecidableEq

/-- What a reader knows of the text before it. -/
structure Nesting where
  mode : ScanMode
  /-- The brackets that are not closed yet, the innermost first. -/
  opened : List Bracket
  deriving DecidableEq

namespace Nesting

/-- Nothing is open. -/
def start : Nesting := ⟨.code, []⟩

/-- A character outside literals. -/
def codeStep (opened : List Bracket) (c : Char) : Option Nesting :=
  if c = '"' then some ⟨.literal, opened⟩
  else match Bracket.opened? c, Bracket.closed? c with
    | some b, _ => some ⟨.code, b :: opened⟩
    | none, some b => if opened.head? = some b then some ⟨.code, opened.tail⟩ else none
    | none, none => some ⟨.code, opened⟩

/-- One character. A closing bracket that does not match is not read. -/
def step (s : Nesting) (c : Char) : Option Nesting :=
  match s.mode with
  | .code => codeStep s.opened c
  | .literal =>
    if c = '"' then some ⟨.code, s.opened⟩
    else if c = Literal.backslash then some ⟨.escape, s.opened⟩
    else some s
  | .escape => some ⟨.literal, s.opened⟩

/-- Characters in order. -/
def scan (s : Nesting) (cs : List Char) : Option Nesting := cs.foldlM step s

end Nesting

/-- A text is well bracketed when a reader gets through it and nothing is open at its end. -/
def WellBracketed (text : String) : Prop := Nesting.start.scan text.toList = some Nesting.start

instance (text : String) : Decidable (WellBracketed text) := inferInstanceAs (Decidable (_ = _))

/-! ## Texts in trees -/

/-- The characters that a reader of brackets takes note of outside literals. -/
def bracketMarks : List Char := ['(', ')', '[', ']', '\x7b', '\x7d', '"']

/-- A text without brackets and quotes. -/
def PlainText (s : String) : Prop := ∀ c ∈ s.toList, c ∉ bracketMarks

instance (s : String) : Decidable (PlainText s) :=
  List.decidableBAll (fun c => c ∉ bracketMarks) s.toList

def CatchClause.texts (c : CatchClause Node) : List String :=
  c.error.toList.map fun e => e.part.binding.name

def FunctionDecl.texts (f : FunctionDecl Node) : List String :=
  f.name :: f.receiver.toList.map fun r => r.part.binding.name

/-- The texts that stand in a construct itself: names, fields, operators, numbers, comments and
foreign code. The bytes of a literal are none of them. -/
def Form.texts : Form Node → List String
  | .dot _ field => [field]
  | .fnCall _ actuals _ => actuals.filterMap Actual.name
  | .identifier name => [name]
  | .numericLiteral _ text => [text]
  | .letIn decls _ => decls.map fun d => d.part.binding.name
  | .opCall op _ => [op]
  | .typeQuery name => [name]
  | .jump _ target => target.toList.map Located.part
  | .catchClause handler => handler.texts
  | .comment text => [text]
  | .foreignBlock code => [code]
  | .includeModule _ _ name => [name]
  | .label name _ => [name]
  | .tryStmt attempt => attempt.handlers.flatMap fun h => h.part.texts
  | .classDecl _ name _ _ => [name]
  | .aggregateDecl _ _ name _ => [name]
  | .enumDecl name elements => name :: elements.map fun e => e.part.name
  | .enumElement element => [element.name]
  | .formal decl => [decl.binding.name]
  | .function decl => decl.texts
  | .moduleDecl _ _ name _ => [name]
  | .taskVar decl => [decl.binding.name]
  | .typeDecl _ name => [name]
  | .varArgFormal decl => [decl.binding.name]
  | .varDecl decl => [decl.binding.name]
  | _ => []

/-- The texts in a node in a role: its own, and those in the children that are written. -/
inductive Node.Mentions (comments : Bool) : Role → Node → String → Prop where
  | own {role : Role} {n : Node} {s : String} : s ∈ n.form.texts → Mentions comments role n s
  | child {role r : Role} {n m : Node} {s : String} :
    Item.child r m ∈ n.layout comments role → Mentions comments r m s → Mentions comments role n s

/-- The texts in what is to be printed. -/
def PrintCall.Mentions (comments : Bool) (s : String) : PrintCall → Prop
  | .node n => n.Mentions comments .whole s
  | .signature f => s ∈ f.texts ∨
    ∃ role n, Item.child role n ∈ f.signatureLayout comments ∧ n.Mentions comments role s

end ChapelSource
