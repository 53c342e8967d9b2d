import ChapelSource.Grouping.Symbol
import ChapelSource.Node.Basic

/-!
# Names as nodes

* `Node.IsNamed`, `PlainName.toNode`: the nodes that are a given name, and one of them.
-/

namespace ChapelSource

variable {keywords : List String}

/-- A node is a name, whatever its id and span are. -/
inductive Node.IsNamed : Node → PlainName keywords → Prop where
  | mk (info : NodeInfo) (w : PlainName keywords) : IsNamed (.mk info (.identifier w.text)) w

/-- A node that is a name. -/
def PlainName.toNode (info : NodeInfo) (w : PlainName keywords) : Node :=
  .mk info (.identifier w.text)

theorem PlainName.isNamed_toNode (info : NodeInfo) (w : PlainName keywords) :
    (w.toNode info).IsNamed w := .mk info w

/-- A name that may be absent. -/
theorem PlainName.rel_toNode (info : NodeInfo) (o : Option (PlainName keywords)) :
    Option.Rel Node.IsNamed (o.map (toNode info)) o := by
  cases o with
  | none => exact .none
  | some w => exact .some (w.isNamed_toNode info)

end ChapelSource
