import ChapelSource.Grouping.Symbol
import ChapelSource.Node.Basic

/-!
# Members, calls and leading words

Expressions of names, members and calls, and of operands after a leading word, `new` or the name of a
type constructor. What follows an expression, `.f` or `(a)`, is read as part of the operand when a
leading word stands before it.

* `Leader`: a word before its operand.
* `AccessTree`: the expressions, as trees.
* `Node.IsAccess`, `AccessTree.toNode`: the nodes that are such a tree, and one of them.
* `Chain`: such an expression as it is read: leading words, a name, and what follows the name.
* `Chain.chars`: a chain in writing.
* `AccessTree.chain`: the chain that is read from the text of a tree.
* `AccessTree.Settled`: the trees in which no leading word stands inside a receiver or a callee.
* `AccessTree.settle`: a tree with its leading words moved out of its receivers and callees.
-/

namespace ChapelSource

/-- The words that are no names of an expression. -/
def leadingWords : List String := "new" :: reservedCallees

/-- A name in an expression. -/
abbrev AccessName := PlainName leadingWords

/-- A word before its operand. -/
inductive Leader where
  | newObject
  /-- The name of a type constructor, as in `owned C`. -/
  | reserved (name : String) (mem : name ∈ reservedCallees)
  deriving DecidableEq

/-- A leading word in writing. -/
def Leader.text : Leader → String
  | newObject => "new"
  | reserved name _ => name

/-! ## Trees -/

/-- An expression of names, members, calls and leading words. -/
inductive AccessTree where
  | name (w : AccessName)
  | dot (receiver : AccessTree) (field : AccessName)
  | call (callee : AccessTree) (actuals : List AccessTree)
  | led (leader : Leader) (operand : AccessTree)

mutual

/-- A node is an access tree, whatever its ids and spans are. -/
inductive Node.IsAccess : Node → AccessTree → Prop where
  | name (info : NodeInfo) (w : AccessName) : IsAccess (.mk info (.identifier w.text)) (.name w)
  | dot (info : NodeInfo) (field : AccessName) {n : Node} {t : AccessTree} :
      IsAccess n t → IsAccess (.mk info (.dot n field.text)) (.dot t field)
  | call (info : NodeInfo) {n : Node} {t : AccessTree} {actuals : List (Actual Node)}
      {ts : List AccessTree} : IsAccess n t → AreActuals actuals ts →
      IsAccess (.mk info (.fnCall n actuals false)) (.call t ts)
  | newObject (info : NodeInfo) {n : Node} {t : AccessTree} :
      IsAccess n t → IsAccess (.mk info (.newObject none n)) (.led .newObject t)
  | reserved (info calleeInfo : NodeInfo) {name : String} (mem : name ∈ reservedCallees) {n : Node}
      {t : AccessTree} : IsAccess n t →
      IsAccess (.mk info (.fnCall (.mk calleeInfo (.identifier name)) [⟨none, n⟩] false))
        (.led (.reserved name mem) t)

/-- Actuals without names are access trees. -/
inductive Node.AreActuals : List (Actual Node) → List AccessTree → Prop where
  | nil : AreActuals [] []
  | cons {n : Node} {t : AccessTree} {actuals : List (Actual Node)} {ts : List AccessTree} :
      IsAccess n t → AreActuals actuals ts → AreActuals (⟨none, n⟩ :: actuals) (t :: ts)

end

mutual

/-- A node that is an access tree, with the given id and span throughout. -/
def AccessTree.toNode (info : NodeInfo) : AccessTree → Node
  | .name w => .mk info (.identifier w.text)
  | .dot receiver field => .mk info (.dot (receiver.toNode info) field.text)
  | .call callee actuals =>
    .mk info (.fnCall (callee.toNode info) (AccessTree.toActuals info actuals) false)
  | .led .newObject operand => .mk info (.newObject none (operand.toNode info))
  | .led (.reserved word _) operand =>
    .mk info (.fnCall (.mk info (.identifier word)) [⟨none, operand.toNode info⟩] false)

/-- Actuals without names that are access trees. -/
def AccessTree.toActuals (info : NodeInfo) : List AccessTree → List (Actual Node)
  | [] => []
  | t :: ts => ⟨none, t.toNode info⟩ :: AccessTree.toActuals info ts

end

mutual

theorem AccessTree.isAccess_toNode (info : NodeInfo) : ∀ t : AccessTree, (t.toNode info).IsAccess t
  | name w => .name info w
  | dot receiver field => .dot info field (isAccess_toNode info receiver)
  | call callee actuals => .call info (isAccess_toNode info callee) (areActuals_toActuals info actuals)
  | led .newObject operand => .newObject info (isAccess_toNode info operand)
  | led (.reserved _ mem) operand => .reserved info info mem (isAccess_toNode info operand)

theorem AccessTree.areActuals_toActuals (info : NodeInfo) : ∀ ts : List AccessTree,
    Node.AreActuals (toActuals info ts) ts
  | [] => .nil
  | t :: ts => .cons (isAccess_toNode info t) (areActuals_toActuals info ts)

end

/-! ## Chains -/

mutual

/-- An expression from left to right: leading words, a name, and what follows the name. -/
inductive Chain where
  | led (leader : Leader) (rest : Chain)
  | name (w : AccessName) (suffixes : Suffixes)

/-- What follows a name: members and calls. -/
inductive Suffixes where
  | done
  | dot (field : AccessName) (rest : Suffixes)
  | call (actuals : List Chain) (rest : Suffixes)

end

mutual

/-- A chain in writing. -/
def Chain.chars : Chain → List Char
  | .led leader rest => leader.text.toList ++ ' ' :: rest.chars
  | .name w suffixes => w.chars ++ suffixes.chars

/-- What follows a name in writing. -/
def Suffixes.chars : Suffixes → List Char
  | .done => []
  | .dot field rest => '.' :: (field.chars ++ rest.chars)
  | .call actuals rest => '(' :: (Chain.listChars actuals ++ ')' :: rest.chars)

/-- Actuals in writing. -/
def Chain.listChars : List Chain → List Char
  | [] => []
  | [c] => c.chars
  | c :: d :: rest => c.chars ++ ',' :: ' ' :: Chain.listChars (d :: rest)

end

/-- What follows a name, and more. -/
def Suffixes.append : Suffixes → Suffixes → Suffixes
  | done, more => more
  | dot field rest, more => dot field (rest.append more)
  | call actuals rest, more => call actuals (rest.append more)

/-- What follows a chain is read as following its name. -/
def Chain.extend (more : Suffixes) : Chain → Chain
  | led leader rest => led leader (rest.extend more)
  | name w suffixes => name w (suffixes.append more)

mutual

/-- The tree of a chain: the leading words are applied last. -/
def Chain.tree : Chain → AccessTree
  | .led leader rest => .led leader rest.tree
  | .name w suffixes => suffixes.onto (.name w)

/-- A tree followed by members and calls. -/
def Suffixes.onto (t : AccessTree) : Suffixes → AccessTree
  | .done => t
  | .dot field rest => rest.onto (.dot t field)
  | .call actuals rest => rest.onto (.call t (Chain.trees actuals))

/-- The trees of some chains. -/
def Chain.trees : List Chain → List AccessTree
  | [] => []
  | c :: rest => c.tree :: Chain.trees rest

end

/-! ## The chain of a tree -/

namespace AccessTree

mutual

/-- The chain that is read from the text of a tree. -/
def chain : AccessTree → Chain
  | name w => .name w .done
  | dot receiver field => receiver.chain.extend (.dot field .done)
  | call callee actuals => callee.chain.extend (.call (chains actuals) .done)
  | led leader operand => .led leader operand.chain

/-- The chains that are read from the texts of some trees. -/
def chains : List AccessTree → List Chain
  | [] => []
  | t :: ts => t.chain :: chains ts

end

/-- A tree starts with a leading word when one applies to all of it. -/
def isLed : AccessTree → Bool
  | led _ _ => true
  | _ => false

mutual

/-- No receiver or callee is an operand after a leading word. -/
def Settled : AccessTree → Prop
  | name _ => True
  | dot receiver _ => receiver.isLed = false ∧ receiver.Settled
  | call callee actuals => callee.isLed = false ∧ callee.Settled ∧ AllSettled actuals
  | led _ operand => operand.Settled

/-- The same of some trees. -/
def AllSettled : List AccessTree → Prop
  | [] => True
  | t :: ts => t.Settled ∧ AllSettled ts

end

/-- A tree with its leading words moved out of its receivers and callees. -/
def settle (t : AccessTree) : AccessTree := t.chain.tree

end AccessTree

end ChapelSource
