import ChapelSource.Loose

/-!
# Ranges in ranges

Expressions of names, ranges, choices and local names. The bounds of a range are written as they
are, without parentheses, and what ends a lower bound goes on into the range. So an expression is
read with every range around as much as follows it.

* `RangeTree`: the expressions, as trees.
* `Node.IsRange`, `RangeTree.toNode`: the nodes that are such a tree, and one of them.
* `RangePhrase`: such an expression as it is read. The lower bound of a range is a name, if there is
  one.
* `RangePhrase.chars`: a phrase in writing.
* `RangeTree.phrase`: the phrase that is read from the text of a tree.
* `RangeTree.PlainLower`: the trees in which every lower bound is a name.
* `RangeTree.settle`: a tree with its ranges around as much as follows them.
-/

namespace ChapelSource

/-- The words that are no names of an expression. -/
def rangeWords : List String := ["if", "then", "else", "let", "in"]

/-- A name in an expression. -/
abbrev RangeName := PlainName rangeWords

/-! ## Trees -/

/-- An expression of names, ranges, choices and local names. -/
inductive RangeTree where
  | name (w : RangeName)
  | range (bound : RangeBound) (lower upper : Option RangeTree)
  | choice (condition thenBranch elseBranch : RangeTree)
  | letIn (w : RangeName) (init body : RangeTree)

mutual

/-- A node is a range tree, whatever its ids and spans are. -/
inductive Node.IsRange : Node → RangeTree → Prop where
  | name (info : NodeInfo) (w : RangeName) : IsRange (.mk info (.identifier w.text)) (.name w)
  | range (info : NodeInfo) (bound : RangeBound) {lower upper : Option Node}
      {l u : Option RangeTree} : IsRangeBound lower l → IsRangeBound upper u →
      IsRange (.mk info (.range bound lower upper)) (.range bound l u)
  | choice (info : NodeInfo) {c a b : Node} {t u v : RangeTree} :
      IsRange c t → IsRange a u → IsRange b v →
      IsRange (.mk info (.conditional c ⟨.implicit, [a]⟩ (some ⟨.implicit, [b]⟩))) (.choice t u v)
  | letIn (info declInfo : NodeInfo) (w : RangeName) {init body : Node} {t u : RangeTree} :
      IsRange init t → IsRange body u →
      IsRange (.mk info (.letIn [⟨declInfo, .initialized w.text init⟩] body)) (.letIn w t u)

/-- A bound is a range tree, if there is one. -/
inductive Node.IsRangeBound : Option Node → Option RangeTree → Prop where
  | absent : IsRangeBound none none
  | present {n : Node} {t : RangeTree} : IsRange n t → IsRangeBound (some n) (some t)

end

mutual

/-- A node that is a range tree, with the given id and span throughout. -/
def RangeTree.toNode (info : NodeInfo) : RangeTree → Node
  | .name w => .mk info (.identifier w.text)
  | .range bound lower upper => .mk info (.range bound (toBound info lower) (toBound info upper))
  | .choice c a b => .mk info (.conditional (c.toNode info) ⟨.implicit, [a.toNode info]⟩
      (some ⟨.implicit, [b.toNode info]⟩))
  | .letIn w init body =>
    .mk info (.letIn [⟨info, .initialized w.text (init.toNode info)⟩] (body.toNode info))

/-- The node of a bound, if there is one. -/
def RangeTree.toBound (info : NodeInfo) : Option RangeTree → Option Node
  | none => none
  | some t => some (t.toNode info)

end

mutual

theorem RangeTree.isRange_toNode (info : NodeInfo) : ∀ t : RangeTree, (t.toNode info).IsRange t
  | name w => .name info w
  | range bound lower upper =>
    .range info bound (isRangeBound_toBound info lower) (isRangeBound_toBound info upper)
  | choice c a b =>
    .choice info (isRange_toNode info c) (isRange_toNode info a) (isRange_toNode info b)
  | letIn w init body =>
    .letIn info info w (isRange_toNode info init) (isRange_toNode info body)

theorem RangeTree.isRangeBound_toBound (info : NodeInfo) :
    ∀ o : Option RangeTree, Node.IsRangeBound (toBound info o) o
  | none => .absent
  | some t => .present (isRange_toNode info t)

end

/-! ## Phrases -/

/-- An expression as it is read from left to right. -/
inductive RangePhrase where
  | name (w : RangeName)
  /-- The upper bound goes on to the end. -/
  | range (bound : RangeBound) (lower : Option RangeName) (upper : Option RangePhrase)
  | choice (condition thenBranch elseBranch : RangePhrase)
  | letIn (w : RangeName) (init body : RangePhrase)

mutual

/-- A phrase in writing. -/
def RangePhrase.chars : RangePhrase → List Char
  | .name w => w.chars
  | .range bound lower upper =>
    lower.elim [] (·.chars) ++ (bound.symbol.toList ++ upperChars upper)
  | .choice c a b =>
    "if ".toList ++ (c.chars ++ (" then ".toList ++ (a.chars ++ (" else ".toList ++ b.chars))))
  | .letIn w init body =>
    "let ".toList ++ (w.chars ++ (" = ".toList ++ (init.chars ++ (" in ".toList ++ body.chars))))

/-- An upper bound in writing. -/
def RangePhrase.upperChars : Option RangePhrase → List Char
  | none => []
  | some p => p.chars

end

mutual

/-- What is read when the symbol of a range and an upper bound follow a phrase. They belong to its
end. -/
def RangePhrase.extend (bound : RangeBound) (upper : Option RangePhrase) : RangePhrase → RangePhrase
  | .name w => .range bound (some w) upper
  | .range b lower rest => .range b lower (some (extendBound bound upper rest))
  | .choice c a b => .choice c a (b.extend bound upper)
  | .letIn w init body => .letIn w init (body.extend bound upper)

/-- The same where there may be no phrase, and the range has no lower bound then. -/
def RangePhrase.extendBound (bound : RangeBound) (upper : Option RangePhrase) :
    Option RangePhrase → RangePhrase
  | none => .range bound none upper
  | some p => p.extend bound upper

end

/-! ## The phrase of a tree -/

mutual

/-- The phrase that is read from the text of a tree. -/
def RangeTree.phrase : RangeTree → RangePhrase
  | .name w => .name w
  | .range bound lower upper =>
    RangePhrase.extendBound bound (boundPhrase upper) (boundPhrase lower)
  | .choice c a b => .choice c.phrase a.phrase b.phrase
  | .letIn w init body => .letIn w init.phrase body.phrase

/-- The phrase of a bound. -/
def RangeTree.boundPhrase : Option RangeTree → Option RangePhrase
  | none => none
  | some t => some t.phrase

end

mutual

/-- The tree of a phrase. -/
def RangePhrase.tree : RangePhrase → RangeTree
  | .name w => .name w
  | .range bound lower upper => .range bound (lower.map .name) (upperTree upper)
  | .choice c a b => .choice c.tree a.tree b.tree
  | .letIn w init body => .letIn w init.tree body.tree

/-- The tree of an upper bound. -/
def RangePhrase.upperTree : Option RangePhrase → Option RangeTree
  | none => none
  | some p => some p.tree

end

namespace RangeTree

/-- A tree that is a name. -/
def isName : RangeTree → Bool
  | name _ => true
  | _ => false

mutual

/-- Every lower bound is a name. -/
def PlainLower : RangeTree → Prop
  | name _ => True
  | range _ lower upper => (∀ t ∈ lower, t.isName = true) ∧ PlainUpper upper
  | choice c a b => c.PlainLower ∧ a.PlainLower ∧ b.PlainLower
  | letIn _ init body => init.PlainLower ∧ body.PlainLower

/-- The same of an upper bound. -/
def PlainUpper : Option RangeTree → Prop
  | none => True
  | some t => t.PlainLower

end

/-- A tree with its ranges around as much as follows them. -/
def settle (t : RangeTree) : RangeTree := t.phrase.tree

end RangeTree

end ChapelSource
