import ChapelSource.Grouping.Tree
import ChapelSource.Grouping.Token

/-!
# Reading operator expressions

Texts of operators are read by precedence climbing: an operand, then binary operators as long as they
bind tight enough, each with a right operand that is read the same way at the level of the operator.

* `Reading`: a tree read off the front of some tokens.
* `readOperand`: leading operators, a name or a parenthesized expression, and trailing operators.
* `climb`: an expression whose binary operators bind at a level or tighter.
* `extend`: the binary operators after an operand.
* `readText`: the tree that a whole text stands for.
-/

namespace ChapelSource

/-- A tree read off the front of fewer than `bound` tokens, and the tokens after it. -/
structure Reading (bound : Nat) where
  tree : OpTree
  rest : List Token
  /-- Reading consumes tokens. -/
  rest_lt : rest.length < bound

/-- A reading off fewer tokens. -/
def Reading.weaken {m n : Nat} (h : m ≤ n) (r : Reading m) : Reading n :=
  ⟨r.tree, r.rest, Nat.lt_of_lt_of_le r.rest_lt h⟩

/-- An operand with the trailing operators after it, which bind tightest. -/
def readTrailing (t : OpTree) : (ts : List Token) → Reading (ts.length + 1)
  | .symbol s :: rest =>
    match TrailingOp.ofSymbol? s with
    | some o => (readTrailing (.trailing t o) rest).weaken (Nat.le_succ _)
    | none => ⟨t, .symbol s :: rest, Nat.lt_succ_self _⟩
  | ts => ⟨t, ts, Nat.lt_succ_self _⟩

mutual

/-- An operand: a name or a parenthesized expression with its trailing operators, or a leading
operator on everything that binds tighter than itself. -/
def readOperand : (ts : List Token) → Option (Reading ts.length)
  | .word w :: rest => some (readTrailing (.name w) rest)
  | .openParen :: rest =>
    match climb 0 rest with
    | some ⟨t, .closeParen :: rest', h⟩ =>
      some ((readTrailing t rest').weaken (by simp only [List.length_cons] at h ⊢; omega))
    | _ => none
  | .symbol s :: rest =>
    match LeadingOp.ofSymbol? s with
    | some o =>
      match climb (o.rank + 1) rest with
      | some r => some ⟨.leading o r.tree, r.rest, Nat.lt_succ_of_lt r.rest_lt⟩
      | none => none
    | none => none
  | _ => none
termination_by ts => (ts.length, 0)

/-- An expression whose binary operators, save those in operands, bind at `level` or tighter. -/
def climb (level : Nat) (ts : List Token) : Option (Reading ts.length) :=
  match readOperand ts with
  | some ⟨t, rest, h⟩ => (extend level t rest).map (Reading.weaken (Nat.succ_le_of_lt h))
  | none => none
termination_by (ts.length, 1)

/-- A left operand with the binary operators after it that bind at `level` or tighter. -/
def extend (level : Nat) (left : OpTree) : (ts : List Token) → Option (Reading (ts.length + 1))
  | .symbol s :: rest =>
    match BinaryOp.ofSymbol? s with
    | some o =>
      if level ≤ o.rank then
        match climb o.rightLevel rest with
        | some ⟨right, rest', h⟩ =>
          (extend level (.binary o left right) rest').map
            (Reading.weaken (by simp only [List.length_cons]; omega))
        | none => none
      else some ⟨left, .symbol s :: rest, Nat.lt_succ_self _⟩
    | none => some ⟨left, .symbol s :: rest, Nat.lt_succ_self _⟩
  | ts => some ⟨left, ts, Nat.lt_succ_self _⟩
termination_by ts => (ts.length, 0)

end

/-- The tree that some tokens stand for, all of them taken together. -/
def readTokens (ts : List Token) : Option OpTree :=
  match climb 0 ts with
  | some ⟨t, [], _⟩ => some t
  | _ => none

/-- The tree that a text stands for. -/
def readText (s : String) : Option OpTree := (tokenize s.toList).bind readTokens

end ChapelSource
