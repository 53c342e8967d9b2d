import ChapelSource.Kind

/-!
# Causes why a tree has no text

* `Expectation`: what a restricted position of the grammar asks for.
* `ModifierFamily`: the families of modifiers that some position requires.
* `PrintError`: a node of the wrong kind, or a modifier that was never settled.
* `PrintError.required`: a modifier, or the error that it is missing.
-/

namespace ChapelSource

/-- What a restricted position of the grammar asks for. -/
inductive Expectation where
  /-- A label stands before a loop. -/
  | loop
  /-- A reserved callee has an operand. -/
  | typeOperand
  /-- An operator has one operand or two. -/
  | operatorCall
  /-- A component of a declaration declares a name, or a tuple of them. -/
  | variableLike
  /-- A declaration of several names starts with a variable or a tuple. -/
  | variableOrTuple
  /-- A declaration of several names has a first one. -/
  | someDeclaration
  /-- A name after a dot is an identifier. -/
  | identifier
  /-- A method declared outside its type names the type. -/
  | receiverType
  deriving DecidableEq

/-- An expectation in words. -/
def Expectation.description : Expectation → String
  | .loop => "loop"
  | .typeOperand => "type operand"
  | .operatorCall => "unary or binary operator call"
  | .variableLike => "variable-like declaration"
  | .variableOrTuple => "variable or tuple declaration"
  | .someDeclaration => "at least one declaration"
  | .identifier => "identifier"
  | .receiverType => "receiver type expression"

/-- A family of modifiers that some position requires. -/
inductive ModifierFamily where
  | linkage | visibility | intent | moduleKind | management | limitation
  deriving DecidableEq

/-- A family of modifiers in words. -/
def ModifierFamily.description : ModifierFamily → String
  | .linkage => "linkage"
  | .visibility => "visibility"
  | .intent => "intent"
  | .moduleKind => "module kind"
  | .management => "management"
  | .limitation => "limitation kind"

/-- The cause why a tree has no text. -/
inductive PrintError where
  /-- A node of the wrong kind stands in a restricted position. -/
  | unexpectedNode (expected : Expectation) (found : Kind)
  /-- A modifier without a keyword stands where a keyword is required. -/
  | missingKeyword (family : ModifierFamily)
  deriving DecidableEq

namespace PrintError

/-- The message of an error. -/
def message : PrintError → String
  | .unexpectedNode expected found =>
    "unhandled uAST node: expected " ++ expected.description ++ ", found " ++ found.name
  | .missingKeyword family =>
    "unresolved " ++ family.description ++ " tag reached a position that requires a keyword"

/-- What a family gives, or the error that it gives nothing. -/
def required {α : Type} (family : ModifierFamily) : Option α → Except PrintError α
  | some a => .ok a
  | none => .error (.missingKeyword family)

end PrintError

end ChapelSource
