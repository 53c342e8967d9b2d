import ChapelSource.Proofs.Grouping.Rotation
import ChapelSource.Grouping.Bracketed

/-!
# Operands without parentheses

Which operands of a ranked operator are written bare, in terms of ranks alone.

* `BinaryOp.rightLevel_eq_of_rank_eq`, `BinaryOp.rightLevel_mono`: levels follow ranks.
* `Operator.needsParens_of_ranks`: the decision on two operators that have ranks.
* `OpTree.BindsAt`, `OpTree.EndsAt`, `OpTree.IsPrimary`: what is asked of a bare operand.
* `OpTree.bare_leading_iff`, `OpTree.bare_trailing_iff`, `OpTree.bare_left_iff`,
  `OpTree.bare_right_iff`: the operands that are bare.
-/

namespace ChapelSource

/-! ## Ranks -/

theorem BinaryOp.rank_eq_power_iff (o : BinaryOp) : o.rank = BinaryOp.power.rank ↔ o = .power := by
  cases o <;> decide

theorem LeadingOp.rank_ne_rank (o : LeadingOp) (p : BinaryOp) : o.rank ≠ p.rank := by
  cases o <;> cases p <;> decide

theorem BinaryOp.rank_lt_rank (o : BinaryOp) (p : TrailingOp) : o.rank < p.rank := by
  cases o <;> cases p <;> decide

theorem LeadingOp.rank_lt_rank (o : LeadingOp) (p : TrailingOp) : o.rank < p.rank := by
  cases o <;> cases p <;> decide

theorem TrailingOp.rank_eq_rank (o p : TrailingOp) : o.rank = p.rank := by
  cases o <;> cases p <;> decide

theorem BinaryOp.rank_le_rightLevel (o : BinaryOp) : o.rank ≤ o.rightLevel := by
  unfold BinaryOp.rightLevel
  split <;> omega

theorem BinaryOp.rightLevel_le (o : BinaryOp) : o.rightLevel ≤ o.rank + 1 := by
  unfold BinaryOp.rightLevel
  split <;> omega

theorem BinaryOp.rightLevel_of_regroups {o : BinaryOp} (h : o.regroups = true) :
    o.rightLevel = o.rank + 1 := by
  rw [BinaryOp.rightLevel, if_neg]
  rintro rfl
  exact absurd h (by decide)

theorem BinaryOp.rightLevel_eq_of_rank_eq {o p : BinaryOp} (h : o.rank = p.rank) :
    o.rightLevel = p.rightLevel := by
  have hop : o = .power ↔ p = .power := by
    rw [← o.rank_eq_power_iff, ← p.rank_eq_power_iff, h]
  simp only [BinaryOp.rightLevel, hop, h]

theorem BinaryOp.rightLevel_mono {o p : BinaryOp} (h : o.rank ≤ p.rank) :
    o.rightLevel ≤ p.rightLevel := by
  rcases Nat.lt_or_eq_of_le h with hlt | heq
  · exact Nat.le_trans o.rightLevel_le (Nat.le_trans hlt p.rank_le_rightLevel)
  · exact Nat.le_of_eq (BinaryOp.rightLevel_eq_of_rank_eq heq)

/-! ## The decision -/

theorem Operator.needsParens_of_ranks {outer inner : Operator} {p q : Nat}
    (hp : outer.precedence = some p) (hq : inner.precedence = some q) (onRight : Bool) :
    outer.needsParens inner onRight =
      if inner.unary && onRight then false
      else if q < p then true
      else if p < q then false
      else if onRight then Operator.leftGrouping.contains outer.symbol
      else outer.symbol == "**" := by
  rw [Operator.needsParens, hp, hq]

theorem Operator.needsParens_unary_right {outer inner : Operator} {p q : Nat}
    (hp : outer.precedence = some p) (hq : inner.precedence = some q) (hu : inner.unary = true) :
    outer.needsParens inner true = false := by
  rw [Operator.needsParens_of_ranks hp hq, hu, Bool.and_self, if_pos rfl]

theorem Operator.needsParens_of_lt {outer inner : Operator} {p q : Nat}
    (hp : outer.precedence = some p) (hq : inner.precedence = some q) (hlt : q < p) {onRight : Bool}
    (hu : (inner.unary && onRight) = false) : outer.needsParens inner onRight = true := by
  rw [Operator.needsParens_of_ranks hp hq, hu, if_neg Bool.false_ne_true, if_pos hlt]

theorem Operator.needsParens_of_gt {outer inner : Operator} {p q : Nat}
    (hp : outer.precedence = some p) (hq : inner.precedence = some q) (hlt : p < q) (onRight : Bool) :
    outer.needsParens inner onRight = false := by
  rw [Operator.needsParens_of_ranks hp hq, if_neg (Nat.lt_asymm hlt), if_pos hlt, ite_self]

/-- A left operand of equal rank is parenthesized before `**`. -/
theorem Operator.needsParens_left_of_eq {outer inner : Operator} {p : Nat}
    (hp : outer.precedence = some p) (hq : inner.precedence = some p) :
    outer.needsParens inner false = (outer.symbol == "**") := by
  rw [Operator.needsParens_of_ranks hp hq, Bool.and_false, if_neg Bool.false_ne_true,
    if_neg (Nat.lt_irrefl p), if_neg (Nat.lt_irrefl p), if_neg Bool.false_ne_true]

theorem Operator.needsParens_right_of_eq {outer inner : Operator} {p : Nat}
    (hp : outer.precedence = some p) (hq : inner.precedence = some p) (hu : inner.unary = false) :
    outer.needsParens inner true = Operator.leftGrouping.contains outer.symbol := by
  rw [Operator.needsParens_of_ranks hp hq, hu, Bool.false_and, if_neg Bool.false_ne_true,
    if_neg (Nat.lt_irrefl p), if_neg (Nat.lt_irrefl p), if_pos rfl]

theorem BinaryOp.contains_leftGrouping (o : BinaryOp) :
    Operator.leftGrouping.contains o.operator.symbol = (!o.regroups && o != .power) := by
  cases o <;> decide

theorem BinaryOp.symbol_beq_power (o : BinaryOp) :
    (o.operator.symbol == "**") = (o == .power) := by
  cases o <;> decide

/-! ## Bare operands -/

namespace OpTree

/-- A binary operator at the root binds at `level` or tighter. -/
def BindsAt (level : Nat) : OpTree → Prop
  | binary o _ _ => level ≤ o.rank
  | _ => True

/-- The operator at the root takes no operand that binds like the symbol `o` after it. -/
def EndsAt (o : BinaryOp) : OpTree → Prop
  | leading p _ => o.rank ≤ p.rank
  | binary p _ _ => o.rank < p.rightLevel
  | _ => True

/-- A trailing operator may follow. -/
def IsPrimary : OpTree → Prop
  | name _ | trailing _ _ => True
  | _ => False

/-- The operand of a leading operator is bare if it binds tighter, or is no binary call. -/
theorem bare_leading_iff {o : LeadingOp} {e : OpTree} :
    e.needsParens o.operator true = false ↔ e.BindsAt (o.rank + 1) := by
  have ho := o.precedence_operator
  cases e with
  | name w => exact iff_of_true rfl trivial
  | leading p e =>
    exact iff_of_true (Operator.needsParens_unary_right ho p.precedence_operator rfl) trivial
  | trailing e p =>
    exact iff_of_true (Operator.needsParens_unary_right ho p.precedence_operator rfl) trivial
  | binary p l r =>
    have hp := p.precedence_operator
    rcases Nat.lt_or_gt_of_ne (o.rank_ne_rank p) with hlt | hgt
    · exact iff_of_true (Operator.needsParens_of_gt ho hp hlt true) hlt
    · refine iff_of_false ?_ (Nat.not_le.mpr (Nat.lt_succ_of_lt hgt))
      exact ne_false_of_eq_true (Operator.needsParens_of_lt ho hp hgt rfl)

/-- The operand of a trailing operator is bare if it is a name or trails itself. -/
theorem bare_trailing_iff {o : TrailingOp} {e : OpTree} :
    e.needsParens o.operator false = false ↔ e.IsPrimary := by
  have ho := o.precedence_operator
  cases e with
  | name w => exact iff_of_true rfl trivial
  | leading p e =>
    refine iff_of_false (ne_false_of_eq_true ?_) id
    exact Operator.needsParens_of_lt ho p.precedence_operator (p.rank_lt_rank o) rfl
  | trailing e p =>
    have hp := p.precedence_operator
    rw [p.rank_eq_rank o] at hp
    refine iff_of_true ((Operator.needsParens_left_of_eq ho hp).trans ?_) trivial
    cases o <;> decide
  | binary p l r =>
    refine iff_of_false (ne_false_of_eq_true ?_) id
    exact Operator.needsParens_of_lt ho p.precedence_operator (p.rank_lt_rank o) rfl

theorem bare_left_iff {o : BinaryOp} {l : OpTree} :
    l.needsParens o.operator false = false ↔ l.EndsAt o := by
  have ho := o.precedence_operator
  cases l with
  | name w => exact iff_of_true rfl trivial
  | leading p e =>
    have hp := p.precedence_operator
    rcases Nat.lt_or_gt_of_ne (p.rank_ne_rank o) with hlt | hgt
    · refine iff_of_false (ne_false_of_eq_true ?_) (Nat.not_le.mpr hlt)
      exact Operator.needsParens_of_lt ho hp hlt rfl
    · exact iff_of_true (Operator.needsParens_of_gt ho hp hgt false) (Nat.le_of_lt hgt)
  | trailing e p =>
    have hgt := o.rank_lt_rank p
    exact iff_of_true (Operator.needsParens_of_gt ho p.precedence_operator hgt false) trivial
  | binary p a b =>
    have hp := p.precedence_operator
    show o.operator.needsParens p.operator false = false ↔ o.rank < p.rightLevel
    rcases Nat.lt_trichotomy o.rank p.rank with hlt | heq | hgt
    · exact iff_of_true (Operator.needsParens_of_gt ho hp hlt false)
        (Nat.lt_of_lt_of_le hlt p.rank_le_rightLevel)
    · rw [← heq] at hp
      rw [Operator.needsParens_left_of_eq ho hp, o.symbol_beq_power,
        ← BinaryOp.rightLevel_eq_of_rank_eq heq, BinaryOp.rightLevel]
      by_cases hpow : o = .power
      · simp [hpow]
      · simp [hpow]
    · have hle := p.rightLevel_le
      refine iff_of_false (ne_false_of_eq_true ?_) (by omega)
      exact Operator.needsParens_of_lt ho hp hgt (Bool.and_false _)

/-- A right operand is bare if it binds as tight, and tighter where it may not regroup. -/
theorem bare_right_iff {o : BinaryOp} {r : OpTree} :
    r.needsParens o.operator true = false ↔
      r.BindsAt o.rank ∧ (o.regroups = false → r.BindsAt o.rightLevel) := by
  have ho := o.precedence_operator
  cases r with
  | name w => exact iff_of_true rfl ⟨trivial, fun _ => trivial⟩
  | leading p e =>
    have h := Operator.needsParens_unary_right ho p.precedence_operator rfl
    exact iff_of_true h ⟨trivial, fun _ => trivial⟩
  | trailing e p =>
    have h := Operator.needsParens_unary_right ho p.precedence_operator rfl
    exact iff_of_true h ⟨trivial, fun _ => trivial⟩
  | binary p a b =>
    have hp := p.precedence_operator
    have hle := o.rightLevel_le
    show o.operator.needsParens p.operator true = false ↔
      o.rank ≤ p.rank ∧ (o.regroups = false → o.rightLevel ≤ p.rank)
    rcases Nat.lt_trichotomy o.rank p.rank with hlt | heq | hgt
    · exact iff_of_true (Operator.needsParens_of_gt ho hp hlt true)
        ⟨Nat.le_of_lt hlt, fun _ => Nat.le_trans hle hlt⟩
    · rw [← heq] at hp ⊢
      rw [Operator.needsParens_right_of_eq ho hp rfl, o.contains_leftGrouping, BinaryOp.rightLevel]
      by_cases hpow : o = .power
      · simp [hpow]
      · cases o.regroups <;> simp [hpow]
    · refine iff_of_false (ne_false_of_eq_true ?_) fun h => Nat.not_le.mpr hgt h.1
      exact Operator.needsParens_of_lt ho hp hgt rfl

end OpTree

end ChapelSource
