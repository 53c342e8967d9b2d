import ChapelSource.Layout.Basic
import ChapelSource.Operator
import ChapelSource.Literal

/-!
# Layouts of expressions

* `operand`, `opCallLayout`: operator calls, whose operands are parenthesized where they would
  regroup.
* `tight`: what binds tighter than any operator, as the receiver of a member access.
* `fnCallLayout`: calls, those of reserved names without parentheses.
* `domainLayout`, `rangeLayout`, `tupleLayout`: literals of several parts.
-/

namespace ChapelSource

open Layout

/-! ## Literals and names -/

/-- What stands before the quotes of a literal. -/
def QuotedKind.marker : QuotedKind → String
  | .string => ""
  | .bytes => "b"
  | .cString => "c"

/-- A quoted literal of bytes. -/
def quotedLayout (kind : QuotedKind) (bytes : List UInt8) : Layout :=
  literal kind.marker (Literal.quote bytes)

/-- A truth value in writing. -/
def boolText (b : Bool) : String := if b then "true" else "false"

/-! ## Operators -/

/-- Whether an operand of an operator is parenthesized. -/
def operandNeedsParens (outer : Operator) (n : Node) (onRight : Bool) : Bool :=
  match n.opCall? with
  | some (op, actuals) => outer.needsParens (Operator.ofCall op actuals.length) onRight
  | none => n.bindsLoosely

/-- An operand of an operator. -/
def operand (outer : Operator) (n : Node) (onRight : Bool) : Layout :=
  grouped (operandNeedsParens outer n onRight) n

/-- An operator call. -/
def opCallLayout (op : String) (actuals : List Node) : Layout :=
  let outer := Operator.ofCall op actuals.length
  match actuals with
  | [a] =>
    if outer.trailing then operand outer a false ++ outer.symbol
    else outer.symbol ++ operand outer a true
  | [a, b] => operand outer a false ++ Layout.operator outer.symbol ++ operand outer b true
  | _ => fault (.unexpectedNode .operatorCall .opCall)

/-- A child that binds tighter than any operator. -/
def tight (n : Node) : Layout := grouped (n.opCall?.isSome || n.bindsLoosely) n

/-! ## Calls -/

/-- An actual argument. -/
def Actual.layout (a : Actual Node) : Layout :=
  ifSome a.name (fun name => name ++ " = ") ++ whole a.value

/-- A callee is reserved when it is an identifier with a reserved name. -/
def Node.isReserved (n : Node) : Bool := n.identifier?.any isReservedCallee

/-- What follows a reserved callee: its first operand alone, which it must have. -/
def reservedOperand : List (Actual Node) → Layout
  | [] => fault (.unexpectedNode .typeOperand .fnCall)
  | a :: _ => " " ++ whole a.value

/-- What follows any other callee: the actuals in parentheses or in brackets. -/
def actualsLayout (actuals : List (Actual Node)) (inBrackets : Bool) : Layout :=
  if inBrackets then "[" ++ join ", " (actuals.map Actual.layout) ++ "]"
  else parenthesized (join ", " (actuals.map Actual.layout))

/-- A call. -/
def fnCallLayout (callee : Node) (actuals : List (Actual Node)) (inBrackets : Bool) : Layout :=
  tight callee ++
    if callee.isReserved then reservedOperand actuals else actualsLayout actuals inBrackets

/-- The actuals of a primitive, each after a comma. -/
def furtherActuals (actuals : List Node) : Layout := actuals.flatMap fun a => ", " ++ whole a

/-- A call of a primitive, whose name is the first of the things in its parentheses. -/
def primCallLayout (prim : Primitive) (actuals : List Node) : Layout :=
  "__primitive" ++ parenthesized (literal "" prim.name ++ furtherActuals actuals)

/-- An object made by `new`. -/
def newLayout (management : Option Management) (typeExpr : Node) : Layout :=
  "new " ++ ifSome management (fun m => m.keyword ++ " ") ++ whole typeExpr

/-! ## Compound literals -/

/-- A domain. One type query alone is written without braces. -/
def domainLayout (comments : Bool) (exprs : List Node) : Layout :=
  let inBraces := "\x7b" ++ commaList comments exprs ++ "\x7d"
  match exprs with
  | [] => []
  | [query] => if query.typeQuery?.isSome then whole query else inBraces
  | _ => inBraces

/-- A range with the bounds that it has. -/
def rangeLayout (bound : RangeBound) (lower upper : Option Node) : Layout :=
  ifSome lower whole ++ bound.symbol ++ ifSome upper whole

/-- A tuple. A single element is followed by a comma, which tells it from a parenthesized
expression. -/
def tupleLayout (comments : Bool) (exprs : List Node) : Layout :=
  parenthesized (commaList comments exprs ++ ifTrue (exprs.length == 1) ",")

/-! ## Reductions -/

/-- The keyword of a reduction. -/
def ReductionKind.keyword : ReductionKind → String
  | .reduce => "reduce"
  | .scan => "scan"

/-- A reduction of an iterand by an operator. -/
def reductionLayout (kind : ReductionKind) (op iterand : Node) : Layout :=
  whole op ++ " " ++ kind.keyword ++ " " ++ tight iterand

end ChapelSource
