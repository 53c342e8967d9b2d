import ChapelSource.Grouping.Symbol
import ChapelSource.Layout.Expression

/-!
# Terms

Expressions of names, string literals, tuples, arrays, members and calls. They have no operators, so
nothing but what is written says how they are read.

* `TermTree`: the expressions, as trees.
* `Node.IsTerm`, `TermTree.toNode`: the nodes that are such a tree, and one of them.
* `TermTree.PlainCallees`: the trees in which no callee is the name of a type constructor.
* `openingMark`, `closingMark`, `commaChars`: lists of parts in writing.
* `TermTree.chars`, `TermItem.chars`: a tree and an item of a list in writing.
-/

namespace ChapelSource

/-- An expression of names, string literals, tuples, arrays, members and calls. -/
inductive TermTree where
  | name (w : Word)
  | literal (bytes : List UInt8)
  | tuple (elements : List TermTree)
  | array (elements : List TermTree)
  | dot (receiver : TermTree) (field : Word)
  /-- A call or an access. An actual may have the name of its formal. -/
  | call (callee : TermTree) (actuals : List (Option Word × TermTree)) (inBrackets : Bool)

/-- An actual, or an element of a list, which has no name. -/
abbrev TermItem := Option Word × TermTree

mutual

/-- A node is a term, whatever its ids and spans are. -/
inductive Node.IsTerm : Node → TermTree → Prop where
  | name (info : NodeInfo) (w : Word) : IsTerm (.mk info (.identifier w.text)) (.name w)
  | literal (info : NodeInfo) (bytes : List UInt8) :
      IsTerm (.mk info (.quotedLiteral .string bytes)) (.literal bytes)
  | tuple (info : NodeInfo) {ns : List Node} {ts : List TermTree} : AreTerms ns ts →
      IsTerm (.mk info (.tuple ns)) (.tuple ts)
  | array (info : NodeInfo) {ns : List Node} {ts : List TermTree} : AreTerms ns ts →
      IsTerm (.mk info (.array ns)) (.array ts)
  | dot (info : NodeInfo) (field : Word) {n : Node} {t : TermTree} :
      IsTerm n t → IsTerm (.mk info (.dot n field.text)) (.dot t field)
  | call (info : NodeInfo) (inBrackets : Bool) {n : Node} {t : TermTree}
      {actuals : List (Actual Node)} {items : List (Option Word × TermTree)} :
      IsTerm n t → AreTermActuals actuals items →
      IsTerm (.mk info (.fnCall n actuals inBrackets)) (.call t items inBrackets)

/-- Nodes are terms, each one of its own. -/
inductive Node.AreTerms : List Node → List TermTree → Prop where
  | nil : AreTerms [] []
  | cons {n : Node} {t : TermTree} {ns : List Node} {ts : List TermTree} :
      IsTerm n t → AreTerms ns ts → AreTerms (n :: ns) (t :: ts)

/-- Actuals are terms, with the same names. -/
inductive Node.AreTermActuals : List (Actual Node) → List (Option Word × TermTree) → Prop where
  | nil : AreTermActuals [] []
  | cons (label : Option Word) {n : Node} {t : TermTree} {actuals : List (Actual Node)}
      {items : List (Option Word × TermTree)} : IsTerm n t → AreTermActuals actuals items →
      AreTermActuals (⟨label.map Word.text, n⟩ :: actuals) ((label, t) :: items)

end

namespace TermTree

mutual

/-- A node that is a term, with the given id and span throughout. -/
def toNode (info : NodeInfo) : TermTree → Node
  | name w => .mk info (.identifier w.text)
  | literal bytes => .mk info (.quotedLiteral .string bytes)
  | tuple elements => .mk info (.tuple (toNodes info elements))
  | array elements => .mk info (.array (toNodes info elements))
  | dot receiver field => .mk info (.dot (receiver.toNode info) field.text)
  | call callee actuals inBrackets =>
    .mk info (.fnCall (callee.toNode info) (toActuals info actuals) inBrackets)

/-- The nodes of some terms. -/
def toNodes (info : NodeInfo) : List TermTree → List Node
  | [] => []
  | t :: rest => t.toNode info :: toNodes info rest

/-- The actuals of some items. -/
def toActuals (info : NodeInfo) : List (Option Word × TermTree) → List (Actual Node)
  | [] => []
  | (label, t) :: rest => ⟨label.map Word.text, t.toNode info⟩ :: toActuals info rest

end

mutual

theorem isTerm_toNode (info : NodeInfo) : ∀ t : TermTree, (t.toNode info).IsTerm t
  | name w => .name info w
  | literal bytes => .literal info bytes
  | tuple elements => .tuple info (areTerms_toNodes info elements)
  | array elements => .array info (areTerms_toNodes info elements)
  | dot receiver field => .dot info field (isTerm_toNode info receiver)
  | call callee actuals inBrackets =>
    .call info inBrackets (isTerm_toNode info callee) (areTermActuals_toActuals info actuals)

theorem areTerms_toNodes (info : NodeInfo) : ∀ ts : List TermTree,
    Node.AreTerms (toNodes info ts) ts
  | [] => .nil
  | t :: rest => .cons (isTerm_toNode info t) (areTerms_toNodes info rest)

theorem areTermActuals_toActuals (info : NodeInfo) : ∀ items : List (Option Word × TermTree),
    Node.AreTermActuals (toActuals info items) items
  | [] => .nil
  | (label, t) :: rest => .cons label (isTerm_toNode info t) (areTermActuals_toActuals info rest)

end

/-- A term is the name of a type constructor, as in `owned C`. -/
def isReserved : TermTree → Bool
  | name w => isReservedCallee w.text
  | _ => false

mutual

/-- No callee is the name of a type constructor. -/
def PlainCallees : TermTree → Prop
  | name _ | literal _ => True
  | tuple elements | array elements => ElementsPlain elements
  | dot receiver _ => receiver.PlainCallees
  | call callee actuals _ => callee.isReserved = false ∧ callee.PlainCallees ∧ ActualsPlain actuals

/-- The same of some elements. -/
def ElementsPlain : List TermTree → Prop
  | [] => True
  | t :: rest => t.PlainCallees ∧ ElementsPlain rest

/-- The same of some actuals. -/
def ActualsPlain : List (Option Word × TermTree) → Prop
  | [] => True
  | (_, t) :: rest => t.PlainCallees ∧ ActualsPlain rest

end

end TermTree

/-! ## Terms in writing -/

/-- The mark before a list. -/
def openingMark (inBrackets : Bool) : Char := if inBrackets then '[' else '('

/-- The mark after a list. -/
def closingMark (inBrackets : Bool) : Char := if inBrackets then ']' else ')'

/-- Texts with commas between them. -/
def commaChars : List (List Char) → List Char
  | [] => []
  | [cs] => cs
  | cs :: ds :: rest => cs ++ ',' :: ' ' :: commaChars (ds :: rest)

/-- The comma after the last of some texts, if there is one. -/
def lastComma (present : Bool) : List Char := if present then [','] else []

/-- Texts as a list between its marks, and whether a comma follows the last one. -/
def listChars (inBrackets comma : Bool) (texts : List (List Char)) : List Char :=
  openingMark inBrackets :: (commaChars texts ++ (lastComma comma ++ [closingMark inBrackets]))

/-- An item in writing, where its term is written as `text`. The name of a formal stands before an
equality sign. -/
def itemChars (label : Option Word) (text : List Char) : List Char :=
  label.elim text fun w => w.chars ++ ' ' :: '=' :: ' ' :: text

mutual

/-- A term in writing. -/
def TermTree.chars : TermTree → List Char
  | .name w => w.chars
  | .literal bytes => '"' :: ((Literal.quote bytes).toList ++ ['"'])
  | .tuple elements => listChars false (elements.length == 1) (TermTree.elementTexts elements)
  | .array elements => listChars true false (TermTree.elementTexts elements)
  | .dot receiver field => receiver.chars ++ '.' :: field.chars
  | .call callee actuals inBrackets =>
    callee.chars ++ listChars inBrackets false (TermTree.actualTexts actuals)

/-- The elements of a tuple or an array, each in writing. -/
def TermTree.elementTexts : List TermTree → List (List Char)
  | [] => []
  | t :: rest => t.chars :: TermTree.elementTexts rest

/-- The actuals of a call, each in writing. -/
def TermTree.actualTexts : List (Option Word × TermTree) → List (List Char)
  | [] => []
  | (label, t) :: rest => itemChars label t.chars :: TermTree.actualTexts rest

end

/-- An item in writing. -/
def TermItem.chars (item : TermItem) : List Char := itemChars item.1 item.2.chars

theorem TermTree.elementTexts_eq (elements : List TermTree) :
    elementTexts elements = (elements.map fun t => (none, t)).map TermItem.chars := by
  induction elements with
  | nil => rfl
  | cons t rest ih => rw [elementTexts, ih, List.map_cons, List.map_cons]; rfl

theorem TermTree.actualTexts_eq (actuals : List TermItem) :
    actualTexts actuals = actuals.map TermItem.chars := by
  induction actuals with
  | nil => rfl
  | cons item rest ih => rw [actualTexts, ih, List.map_cons]; rfl

end ChapelSource
