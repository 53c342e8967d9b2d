import ChapelSource.Grouping.Symbol
import ChapelSource.Node.Basic

/-!
# Operator trees

What is left of an expression of names and ranked operators when ids and spans are forgotten.

* `OpTree`: the trees.
* `Node.Denotes`: the nodes that are such a tree.
* `OpTree.Rotates`, `OpTree.normal`: the regrouping of operands of equal rank, one step and to the
  end.
* `OpTree.LeadingFits`: the trees in which no leading operator stands to the right of a tighter one.
* `OpTree.subtrees`: the operands at any depth.
-/

namespace ChapelSource

/-- An expression of names and ranked operators. -/
inductive OpTree where
  | name (w : Word)
  | leading (o : LeadingOp) (operand : OpTree)
  | trailing (operand : OpTree) (o : TrailingOp)
  | binary (o : BinaryOp) (left right : OpTree)
  deriving DecidableEq

/-- A node is an operator tree, whatever its ids and spans are. -/
inductive Node.Denotes : Node → OpTree → Prop where
  | name (info : NodeInfo) (w : Word) : Denotes (.mk info (.identifier w.text)) (.name w)
  | leading (info : NodeInfo) (o : LeadingOp) {n : Node} {t : OpTree} :
      Denotes n t → Denotes (.mk info (.opCall o.symbol [n])) (.leading o t)
  | trailing (info : NodeInfo) (o : TrailingOp) {n : Node} {t : OpTree} :
      Denotes n t → Denotes (.mk info (.opCall o.callName [n])) (.trailing t o)
  | binary (info : NodeInfo) (o : BinaryOp) {l r : Node} {t u : OpTree} :
      Denotes l t → Denotes r u → Denotes (.mk info (.opCall o.symbol [l, r])) (.binary o t u)

namespace OpTree

/-- The operator at the root of a tree. -/
def operator? : OpTree → Option Operator
  | name _ => none
  | leading o _ => some o.operator
  | trailing _ o => some o.operator
  | binary o _ _ => some o.operator

/-- The trees inside a tree, itself among them. -/
def subtrees : OpTree → List OpTree
  | name w => [name w]
  | leading o e => leading o e :: e.subtrees
  | trailing e o => trailing e o :: e.subtrees
  | binary o l r => binary o l r :: (l.subtrees ++ r.subtrees)

/-- A tree as a node, all of whose parts have the same id and span. -/
def toNode (info : NodeInfo) : OpTree → Node
  | name w => .mk info (.identifier w.text)
  | leading o e => .mk info (.opCall o.symbol [e.toNode info])
  | trailing e o => .mk info (.opCall o.callName [e.toNode info])
  | binary o l r => .mk info (.opCall o.symbol [l.toNode info, r.toNode info])

theorem denotes_toNode (info : NodeInfo) : ∀ t : OpTree, (t.toNode info).Denotes t
  | name w => .name info w
  | leading o e => .leading info o (denotes_toNode info e)
  | trailing e o => .trailing info o (denotes_toNode info e)
  | binary o l r => .binary info o (denotes_toNode info l) (denotes_toNode info r)

/-! ## Regrouping -/

/-- A right operand of the same rank changes sides, at one place of a tree. -/
inductive Rotates : OpTree → OpTree → Prop where
  | here {o p : BinaryOp} (a b c : OpTree) : o.regroups = true → o.rank = p.rank →
      Rotates (binary o a (binary p b c)) (binary p (binary o a b) c)
  | leading (o : LeadingOp) {e e' : OpTree} : Rotates e e' → Rotates (leading o e) (leading o e')
  | trailing (o : TrailingOp) {e e' : OpTree} :
      Rotates e e' → Rotates (trailing e o) (trailing e' o)
  | left (o : BinaryOp) {l l' : OpTree} (r : OpTree) :
      Rotates l l' → Rotates (binary o l r) (binary o l' r)
  | right (o : BinaryOp) (l : OpTree) {r r' : OpTree} :
      Rotates r r' → Rotates (binary o l r) (binary o l r')

/-- An operator on two operands, the right one of which changes sides as often as it can. -/
def attach (o : BinaryOp) (l : OpTree) : OpTree → OpTree
  | binary p b c =>
    if o.regroups ∧ o.rank = p.rank then binary p (attach o l b) c else binary o l (binary p b c)
  | r => binary o l r

/-- A tree with all right operands of equal rank on the other side. -/
def normal : OpTree → OpTree
  | name w => name w
  | leading o e => leading o e.normal
  | trailing e o => trailing e.normal o
  | binary o l r => attach o l.normal r.normal

/-! ## Leading operators on the right -/

/-- Whether a tree is a call of a leading operator that binds less tight than `rank`. -/
def LeadsBelow (rank : Nat) : OpTree → Prop
  | leading o _ => o.rank < rank
  | _ => False

/-- No leading operator is the right operand of a binary operator, or the operand of a leading one,
that binds tighter. -/
def LeadingFits : OpTree → Prop
  | name _ => True
  | leading o e => ¬ e.LeadsBelow o.rank ∧ e.LeadingFits
  | trailing e _ => e.LeadingFits
  | binary o l r => ¬ r.LeadsBelow o.rank ∧ l.LeadingFits ∧ r.LeadingFits

end OpTree

end ChapelSource
