/-!
# Modifiers and their keywords

Declarations and statements carry modifiers, each of a small family. A modifier that was not
written is `none`; one that was written has a keyword.

* `Linkage`, `Visibility`, `Intent`, `ModuleKind`, `Management`, `LimitationKind`, `FunctionKind`:
  the families, each with its `keyword`.
* `BlockStyle`, `RangeBound`: marks that are written as punctuation.
* `isReservedCallee`: the names that are called without parentheses, as in `owned C`.
-/

namespace ChapelSource

/-- Linkage of a declaration with code outside the program. -/
inductive Linkage where
  | external | exported
  deriving DecidableEq

/-- The keyword of a linkage. -/
def Linkage.keyword : Linkage → String
  | .external => "extern"
  | .exported => "export"

/-- Visibility of a declaration, or of what a `use` or an `import` brings in. -/
inductive Visibility where
  | privateAccess | publicAccess
  deriving DecidableEq

/-- The keyword of a visibility. -/
def Visibility.keyword : Visibility → String
  | .privateAccess => "private"
  | .publicAccess => "public"

/-- Passing mode of a formal, storage kind of a variable, or mode of a returned value. -/
inductive Intent where
  | const | var | constVar | constRef | ref | inArg | constIn | outArg | inoutArg | param | type
  deriving DecidableEq

/-- The keyword of an intent. -/
def Intent.keyword : Intent → String
  | .const => "const"
  | .var => "var"
  | .constVar => "const var"
  | .constRef => "const ref"
  | .ref => "ref"
  | .inArg => "in"
  | .constIn => "const in"
  | .outArg => "out"
  | .inoutArg => "inout"
  | .param => "param"
  | .type => "type"

/-- Kind of a module. -/
inductive ModuleKind where
  /-- A module that stands for a file without a module of its own. -/
  | implicit
  | prototype
  deriving DecidableEq

/-- The keyword of a module kind; an implicit module is written as a plain one. -/
def ModuleKind.keyword? : ModuleKind → Option String
  | .implicit => none
  | .prototype => some "prototype"

/-- Who frees the object that a `new` expression makes. -/
inductive Management where
  | borrowed | owned | shared | unmanaged
  deriving DecidableEq

/-- The keyword of a management strategy. -/
def Management.keyword : Management → String
  | .borrowed => "borrowed"
  | .owned => "owned"
  | .shared => "shared"
  | .unmanaged => "unmanaged"

/-- How the names that a visibility clause brings in are limited. -/
inductive LimitationKind where
  /-- Not at all, or to one name after a dot. -/
  | bare
  /-- To the names listed after `only`. -/
  | onlyListed
  /-- To the names not listed after `except`. -/
  | exceptListed
  /-- To the names listed in braces after a dot. -/
  | braces
  deriving DecidableEq

/-- The keyword of a limitation; only two of the four kinds are written as a word. -/
def LimitationKind.keyword? : LimitationKind → Option String
  | .onlyListed => some "only"
  | .exceptListed => some "except"
  | .bare | .braces => none

/-- What a function-like declaration declares. -/
inductive FunctionKind where
  | proc | iter | operator | lambda
  deriving DecidableEq

/-- The keyword of a function kind. -/
def FunctionKind.keyword : FunctionKind → String
  | .proc => "proc"
  | .iter => "iter"
  | .operator => "operator"
  | .lambda => "lambda"

/-- How a statement list is set off from the statement around it. -/
inductive BlockStyle where
  /-- By braces. -/
  | explicit
  /-- By the keyword of the statement alone. -/
  | implicit
  /-- By the keyword and braces both. -/
  | keywordAndBraces
  deriving DecidableEq

/-- Whether a range includes its upper bound. -/
inductive RangeBound where
  | closed | openHigh
  deriving DecidableEq

/-- The symbol between the bounds of a range. -/
def RangeBound.symbol : RangeBound → String
  | .closed => ".."
  | .openHigh => "..<"

/-- The callees that are written before their operand without parentheses. -/
def reservedCallees : List String :=
  ["borrowed", "owned", "unmanaged", "shared", "sync", "single"]

/-- A name is reserved when a call of it is written without parentheses. -/
def isReservedCallee (name : String) : Bool := reservedCallees.contains name

end ChapelSource
