import ChapelSource.Grouping.Bracketed
import ChapelSource.Layout.Expression

/-!
# Expressions that bind loosely

Expressions of names, members and binary operators, and of choices, local names, reductions and
ranges. The last four extend as far to the right as they can and have no rank among the operators.

* `LooseTree`, `LooseBindings`: the expressions, as trees.
* `Node.IsLoose`, `LooseTree.toNode`: the nodes that are such a tree, and one of them.
* `LooseTree.Regroups`: trees that differ only in the grouping of operators of equal rank.
* `Phrase`, `Operations`, `Primary`, `PhraseBindings`: such an expression as it is read, in which the
  operands of all operators stand in one row.
* `Phrase.chars`: a phrase in writing.
* `LooseTree.phrase`: the phrase that is read from the text of a tree.
-/

namespace ChapelSource

/-- The words that are no names of an expression. -/
def looseWords : List String := ["if", "then", "else", "let", "in", "reduce", "scan"]

/-- A name in an expression. -/
abbrev LooseName := PlainName looseWords

/-! ## Trees -/

mutual

/-- An expression of names, members, binary operators and what binds loosely. -/
inductive LooseTree where
  | name (w : LooseName)
  | dot (receiver : LooseTree) (field : LooseName)
  | binary (o : BinaryOp) (left right : LooseTree)
  | choice (condition thenBranch elseBranch : LooseTree)
  | letIn (bindings : LooseBindings)
  | reduction (kind : ReductionKind) (op : LooseName) (iterand : LooseTree)
  | range (bound : RangeBound) (lower upper : Option LooseName)

/-- Local names, of which there is at least one, and the expression that they are for. -/
inductive LooseBindings where
  | last (w : LooseName) (init body : LooseTree)
  | more (w : LooseName) (init : LooseTree) (rest : LooseBindings)

end

/-- A variable without a keyword, decorations and a type. -/
def VarDecl.initialized (name : String) (init : Node) : VarDecl Node :=
  ⟨[], ⟨none, none⟩, false, none, ⟨name, none, some init⟩⟩

/-- The bound of a range is a name, if there is one. -/
inductive Node.IsBound : Option Node → Option LooseName → Prop where
  | absent : IsBound none none
  | name (info : NodeInfo) (w : LooseName) : IsBound (some (.mk info (.identifier w.text))) (some w)

mutual

/-- A node is a loose tree, whatever its ids and spans are. -/
inductive Node.IsLoose : Node → LooseTree → Prop where
  | name (info : NodeInfo) (w : LooseName) : IsLoose (.mk info (.identifier w.text)) (.name w)
  | dot (info : NodeInfo) (field : LooseName) {n : Node} {t : LooseTree} :
      IsLoose n t → IsLoose (.mk info (.dot n field.text)) (.dot t field)
  | binary (info : NodeInfo) (o : BinaryOp) {l r : Node} {t u : LooseTree} :
      IsLoose l t → IsLoose r u → IsLoose (.mk info (.opCall o.symbol [l, r])) (.binary o t u)
  | choice (info : NodeInfo) {c a b : Node} {t u v : LooseTree} :
      IsLoose c t → IsLoose a u → IsLoose b v →
      IsLoose (.mk info (.conditional c ⟨.implicit, [a]⟩ (some ⟨.implicit, [b]⟩))) (.choice t u v)
  | letIn (info : NodeInfo) {decls : List (Located (VarDecl Node))} {body : Node}
      {bs : LooseBindings} : AreBindings decls body bs →
      IsLoose (.mk info (.letIn decls body)) (.letIn bs)
  | reduction (info opInfo : NodeInfo) (kind : ReductionKind) (op : LooseName) {n : Node}
      {t : LooseTree} : IsLoose n t →
      IsLoose (.mk info (.reduction kind (.mk opInfo (.identifier op.text)) n))
        (.reduction kind op t)
  | range (info : NodeInfo) (bound : RangeBound) {lower upper : Option Node}
      {l u : Option LooseName} : Node.IsBound lower l → Node.IsBound upper u →
      IsLoose (.mk info (.range bound lower upper)) (.range bound l u)

/-- Declarations before a body are bindings. -/
inductive Node.AreBindings : List (Located (VarDecl Node)) → Node → LooseBindings → Prop where
  | last (info : NodeInfo) (w : LooseName) {init body : Node} {t u : LooseTree} :
      IsLoose init t → IsLoose body u →
      AreBindings [⟨info, .initialized w.text init⟩] body (.last w t u)
  | more (info : NodeInfo) (w : LooseName) {init body : Node} {t : LooseTree}
      {decls : List (Located (VarDecl Node))} {bs : LooseBindings} :
      IsLoose init t → AreBindings decls body bs →
      AreBindings (⟨info, .initialized w.text init⟩ :: decls) body (.more w t bs)

end

/-- A bound as a node. -/
def LooseName.toBound (info : NodeInfo) (w : LooseName) : Node := .mk info (.identifier w.text)

mutual

/-- A node that is a loose tree, with the given id and span throughout. -/
def LooseTree.toNode (info : NodeInfo) : LooseTree → Node
  | .name w => .mk info (.identifier w.text)
  | .dot receiver field => .mk info (.dot (receiver.toNode info) field.text)
  | .binary o l r => .mk info (.opCall o.symbol [l.toNode info, r.toNode info])
  | .choice c a b => .mk info (.conditional (c.toNode info) ⟨.implicit, [a.toNode info]⟩
      (some ⟨.implicit, [b.toNode info]⟩))
  | .letIn bs => .mk info (.letIn (bs.toDecls info) (bs.toBody info))
  | .reduction kind op iterand =>
    .mk info (.reduction kind (.mk info (.identifier op.text)) (iterand.toNode info))
  | .range bound lower upper =>
    .mk info (.range bound (lower.map (LooseName.toBound info)) (upper.map (LooseName.toBound info)))

/-- The declarations of local names. -/
def LooseBindings.toDecls (info : NodeInfo) : LooseBindings → List (Located (VarDecl Node))
  | .last w init _ => [⟨info, .initialized w.text (init.toNode info)⟩]
  | .more w init rest => ⟨info, .initialized w.text (init.toNode info)⟩ :: rest.toDecls info

/-- What local names are for. -/
def LooseBindings.toBody (info : NodeInfo) : LooseBindings → Node
  | .last _ _ body => body.toNode info
  | .more _ _ rest => rest.toBody info

end

theorem Node.isBound_toBound (info : NodeInfo) :
    ∀ w : Option LooseName, IsBound (w.map (LooseName.toBound info)) w
  | none => .absent
  | some w => .name info w

mutual

theorem LooseTree.isLoose_toNode (info : NodeInfo) : ∀ t : LooseTree, (t.toNode info).IsLoose t
  | name w => .name info w
  | dot receiver field => .dot info field (isLoose_toNode info receiver)
  | binary o l r => .binary info o (isLoose_toNode info l) (isLoose_toNode info r)
  | choice c a b =>
    .choice info (isLoose_toNode info c) (isLoose_toNode info a) (isLoose_toNode info b)
  | letIn bs => .letIn info (areBindings_toDecls info bs)
  | reduction kind op iterand => .reduction info info kind op (isLoose_toNode info iterand)
  | range bound lower upper =>
    .range info bound (Node.isBound_toBound info lower) (Node.isBound_toBound info upper)

theorem LooseTree.areBindings_toDecls (info : NodeInfo) :
    ∀ bs : LooseBindings, Node.AreBindings (bs.toDecls info) (bs.toBody info) bs
  | .last w init body => .last info w (isLoose_toNode info init) (isLoose_toNode info body)
  | .more w init rest => .more info w (isLoose_toNode info init) (areBindings_toDecls info rest)

end

/-! ## Regrouping -/

mutual

/-- The least congruence in which a right operand of the same rank changes sides. -/
inductive LooseTree.Regroups : LooseTree → LooseTree → Prop where
  | rotate {o p : BinaryOp} (a b c : LooseTree) : o.regroups = true → o.rank = p.rank →
      Regroups (.binary o a (.binary p b c)) (.binary p (.binary o a b) c)
  | refl (t : LooseTree) : Regroups t t
  | symm {t u : LooseTree} : Regroups t u → Regroups u t
  | trans {t u v : LooseTree} : Regroups t u → Regroups u v → Regroups t v
  | dot {t u : LooseTree} (field : LooseName) :
      Regroups t u → Regroups (.dot t field) (.dot u field)
  | binary (o : BinaryOp) {l l' r r' : LooseTree} :
      Regroups l l' → Regroups r r' → Regroups (.binary o l r) (.binary o l' r')
  | choice {c c' a a' b b' : LooseTree} : Regroups c c' → Regroups a a' → Regroups b b' →
      Regroups (.choice c a b) (.choice c' a' b')
  | letIn {bs cs : LooseBindings} : BindingsRegroup bs cs → Regroups (.letIn bs) (.letIn cs)
  | reduction (kind : ReductionKind) (op : LooseName) {t u : LooseTree} :
      Regroups t u → Regroups (.reduction kind op t) (.reduction kind op u)

/-- Bindings of the same names whose expressions regroup into each other. -/
inductive LooseTree.BindingsRegroup : LooseBindings → LooseBindings → Prop where
  | last (w : LooseName) {i i' b b' : LooseTree} :
      Regroups i i' → Regroups b b' → BindingsRegroup (.last w i b) (.last w i' b')
  | more (w : LooseName) {i i' : LooseTree} {bs cs : LooseBindings} :
      Regroups i i' → BindingsRegroup bs cs → BindingsRegroup (.more w i bs) (.more w i' cs)

end

/-! ## Phrases -/

mutual

/-- An expression as it is read from left to right. -/
inductive Phrase where
  /-- Operands with binary operators between them, in one row. -/
  | operation (first : Primary) (rest : Operations)
  | choice (condition thenBranch elseBranch : Phrase)
  | letIn (bindings : PhraseBindings)
  | reduction (kind : ReductionKind) (op : LooseName) (iterand : Primary)
  | range (bound : RangeBound) (lower upper : Option LooseName)

/-- The operators and operands after the first operand. -/
inductive Operations where
  | done
  | more (o : BinaryOp) (operand : Primary) (rest : Operations)

/-- What binds tighter than any operator: a name or a phrase in parentheses, and members. -/
inductive Primary where
  | name (w : LooseName) (fields : List LooseName)
  | parens (inside : Phrase) (fields : List LooseName)

/-- Local names and the phrase that they are for. -/
inductive PhraseBindings where
  | last (w : LooseName) (init body : Phrase)
  | more (w : LooseName) (init : Phrase) (rest : PhraseBindings)

end

/-- Members in writing. -/
def fieldChars : List LooseName → List Char
  | [] => []
  | field :: fields => '.' :: (field.chars ++ fieldChars fields)

/-- The bound of a range in writing. -/
def boundChars (bound : Option LooseName) : List Char := bound.elim [] fun w => w.chars

mutual

/-- A phrase in writing. -/
def Phrase.chars : Phrase → List Char
  | .operation first rest => first.chars ++ rest.chars
  | .choice c a b =>
    "if ".toList ++ (c.chars ++ (" then ".toList ++ (a.chars ++ (" else ".toList ++ b.chars))))
  | .letIn bs => "let ".toList ++ bs.chars
  | .reduction kind op iterand =>
    op.chars ++ (' ' :: (kind.keyword.toList ++ (' ' :: iterand.chars)))
  | .range bound lower upper =>
    boundChars lower ++ (bound.symbol.toList ++ boundChars upper)

/-- Operators and operands in writing. -/
def Operations.chars : Operations → List Char
  | .done => []
  | .more o operand rest => Bracketed.symbolChars false o ++ (operand.chars ++ rest.chars)

/-- A name or a phrase in parentheses in writing. -/
def Primary.chars : Primary → List Char
  | .name w fields => w.chars ++ fieldChars fields
  | .parens inside fields => '(' :: (inside.chars ++ ')' :: fieldChars fields)

/-- Local names in writing. -/
def PhraseBindings.chars : PhraseBindings → List Char
  | .last w init body => w.chars ++ (" = ".toList ++ (init.chars ++ (" in ".toList ++ body.chars)))
  | .more w init rest => w.chars ++ (" = ".toList ++ (init.chars ++ (", ".toList ++ rest.chars)))

end

/-! ## The phrase of a tree -/

/-- A name or a phrase in parentheses with one more member. -/
def Primary.addField (field : LooseName) : Primary → Primary
  | name w fields => name w (fields ++ [field])
  | parens inside fields => parens inside (fields ++ [field])

/-- Operators and operands in two parts. -/
def Operations.append : Operations → Operations → Operations
  | done, ps => ps
  | more o operand rest, ps => more o operand (rest.append ps)

namespace Phrase

/-- A phrase as it stands where it must bind tighter than any operator. -/
def tight : Phrase → Primary
  | operation p .done => p
  | q => .parens q []

/-- A phrase as an operand, in parentheses if it needs them or binds loosely. -/
def operand (needed : Bool) : Phrase → Primary × Operations
  | operation first rest =>
    if needed then (.parens (operation first rest) [], .done) else (first, rest)
  | q => (.parens q [], .done)

/-- Two operands with an operator between them. -/
def join (o : BinaryOp) (l r : Primary × Operations) : Phrase :=
  operation l.1 (l.2.append (.more o r.1 r.2))

end Phrase

/-- Whether a tree is parenthesized for its rank as an operand of `outer`. -/
def LooseTree.needsParens (outer : BinaryOp) (onRight : Bool) : LooseTree → Bool
  | binary o _ _ => outer.operator.needsParens o.operator onRight
  | _ => false

mutual

/-- The phrase that is read from the text of a tree. -/
def LooseTree.phrase : LooseTree → Phrase
  | .name w => .operation (.name w []) .done
  | .dot receiver field => .operation (receiver.phrase.tight.addField field) .done
  | .binary o l r =>
    .join o (l.phrase.operand (l.needsParens o false)) (r.phrase.operand (r.needsParens o true))
  | .choice c a b => .choice c.phrase a.phrase b.phrase
  | .letIn bs => .letIn bs.phrase
  | .reduction kind op iterand => .reduction kind op iterand.phrase.tight
  | .range bound lower upper => .range bound lower upper

/-- The phrases of local names. -/
def LooseBindings.phrase : LooseBindings → PhraseBindings
  | .last w init body => .last w init.phrase body.phrase
  | .more w init rest => .more w init.phrase rest.phrase

end

end ChapelSource
