import ChapelSource.Grouping.Reader

/-!
# Values of operator trees

Integer arithmetic on operator trees and on their texts.

* `BinaryOp.result?`: a binary operator on two integers.
* `OpTree.value?`, `textValue?`: the value of a tree, and of the tree that a text stands for.
* `OpTree.IsArithmetic`: the trees of `+`, `-`, `*`, `/` and `%` on names.
* `OpTree.shape`: a tree whose names are all the same.
* `OpTree.KeepsFactors`: the trees in which no right factor is a division.
-/

namespace ChapelSource

namespace BinaryOp

/-- The value of a binary operator on two integers. Division truncates toward zero, the remainder goes
with it, and there is no value where the divisor is zero. -/
def result? : BinaryOp → Int → Int → Option Int
  | .plus, x, y => some (x + y)
  | .minus, x, y => some (x - y)
  | .times, x, y => some (x * y)
  | .divide, x, y => if y = 0 then none else some (x.tdiv y)
  | .modulo, x, y => if y = 0 then none else some (x.tmod y)
  | _, _, _ => none

/-- The operators of integer arithmetic. -/
def isArithmetic : BinaryOp → Bool
  | .plus | .minus | .times | .divide | .modulo => true
  | _ => false

end BinaryOp

namespace OpTree

/-- The value of a tree whose names stand for integers, if no divisor in it is zero. -/
def value? (env : Word → Int) : OpTree → Option Int
  | name w => some (env w)
  | binary o l r => (l.value? env).bind fun x => (r.value? env).bind (o.result? x)
  | _ => none

/-- A tree of arithmetic operators between names. -/
def IsArithmetic : OpTree → Prop
  | name _ => True
  | binary o l r => o.isArithmetic = true ∧ l.IsArithmetic ∧ r.IsArithmetic
  | _ => False

/-- A tree with one name in the place of all. -/
def shape : OpTree → OpTree
  | name _ => name (.single 'x' (by decide))
  | leading o e => leading o e.shape
  | trailing e o => trailing e.shape o
  | binary o l r => binary o l.shape r.shape

/-- A division or a remainder, or a product whose left factors end in one. -/
def Divides : OpTree → Prop
  | binary .divide _ _ | binary .modulo _ _ => True
  | binary .times l _ => l.Divides
  | _ => False

/-- No right factor of a product is a division, so that all factors stay factors when the right
operands change sides. -/
def KeepsFactors : OpTree → Prop
  | binary o l r => (o = .times → ¬ r.Divides) ∧ l.KeepsFactors ∧ r.KeepsFactors
  | leading _ e => e.KeepsFactors
  | trailing e _ => e.KeepsFactors
  | name _ => True

end OpTree

/-- The value of the expression that a text stands for. -/
def textValue? (env : Word → Int) (s : String) : Option Int := (readText s).bind (OpTree.value? env)

end ChapelSource
