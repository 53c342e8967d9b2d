/-!
# Compiler primitives

A `__primitive` call names a primitive of the compiler by a string.

* `Primitive`: the primitives.
* `Primitive.name`: the string that names a primitive. No such name needs an escape between quotes.
-/

namespace ChapelSource

/-- A primitive of the compiler. -/
inductive Primitive where
  | noop | move | init | initField | initVar | initVarSplitDecl | assign | add | subtract | mult
  | divide | equal | notEqual | lessThan | greaterThan | logicalAnd | logicalOr | returnValue
  | yieldValue | deref | addrOf | getMember | getMemberValue | setMember | typeOf | staticTypeOf
  | isSubtype | callDestructor | numFields | fieldNumToName | getRealPart | getImagPart
  | stringLengthBytes | arrayGet | arraySet | commGet | commPut | error | warning
  | gpuKernelLaunch
  deriving DecidableEq

/-- The string that names a primitive. -/
def Primitive.name : Primitive → String
  | .noop => "noop"
  | .move => "move"
  | .init => "init"
  | .initField => "init field"
  | .initVar => "init var"
  | .initVarSplitDecl => "init var split decl"
  | .assign => "="
  | .add => "+"
  | .subtract => "-"
  | .mult => "*"
  | .divide => "/"
  | .equal => "=="
  | .notEqual => "!="
  | .lessThan => "<"
  | .greaterThan => ">"
  | .logicalAnd => "&&"
  | .logicalOr => "||"
  | .returnValue => "return"
  | .yieldValue => "yield"
  | .deref => "deref"
  | .addrOf => "addr of"
  | .getMember => "get member"
  | .getMemberValue => "get member value"
  | .setMember => "set member"
  | .typeOf => "typeof"
  | .staticTypeOf => "static typeof"
  | .isSubtype => "is_subtype"
  | .callDestructor => "call destructor"
  | .numFields => "num fields"
  | .fieldNumToName => "field num to name"
  | .getRealPart => "complex_get_real"
  | .getImagPart => "complex_get_imag"
  | .stringLengthBytes => "string_length_bytes"
  | .arrayGet => "array_get"
  | .arraySet => "array_set"
  | .commGet => "chpl_comm_get"
  | .commPut => "chpl_comm_put"
  | .error => "error"
  | .warning => "warning"
  | .gpuKernelLaunch => "gpu kernel launch"

end ChapelSource
