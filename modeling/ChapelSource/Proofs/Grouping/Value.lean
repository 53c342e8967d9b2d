import ChapelSource.Grouping.Value
import ChapelSource.Proofs.Grouping.RoundTrip

/-!
# Regrouping and values

When right operands change sides, sums keep their values, and so do products if no right factor is a
division: `a * (b / c)` is regrouped to `(a * b) / c`, which is another number.

* `OpTree.value?_attach_plus`, `OpTree.value?_attach_times`: a regrouped sum or product.
* `OpTree.divides_normal`: whether a tree is a division is not changed by regrouping.
* **`OpTree.value?_normal`**: a tree and its normal form have one value.
* `OpTree.textValue?_text`: the value of a printed tree.
-/

namespace ChapelSource

namespace BinaryOp

theorem rank_eq_plus_iff {o : BinaryOp} : plus.rank = o.rank ↔ o = .plus ∨ o = .minus := by
  cases o <;> decide

theorem rank_eq_times_iff {o : BinaryOp} :
    times.rank = o.rank ↔ o = .times ∨ o = .divide ∨ o = .modulo := by
  cases o <;> decide

end BinaryOp

namespace OpTree

variable {env : Word → Int}

theorem value?_binary (o : BinaryOp) (l r : OpTree) :
    (binary o l r).value? env = (l.value? env).bind fun x => (r.value? env).bind (o.result? x) := rfl

theorem value?_binary_of_eq {o : BinaryOp} {l r : OpTree} {x y : Int} (hl : l.value? env = some x)
    (hr : r.value? env = some y) : (binary o l r).value? env = o.result? x y := by
  rw [value?_binary, hl, hr, Option.bind_some, Option.bind_some]

theorem attach_of_not_regroups {o : BinaryOp} (h : o.regroups = false) (l r : OpTree) :
    attach o l r = binary o l r :=
  attach_of_not fun ho => absurd (h.symm.trans ho.1) (by decide)

/-! ## Sums -/

theorem value?_attach_plus (l : OpTree) :
    ∀ r, (attach .plus l r).value? env = (binary .plus l r).value? env
  | binary p b c => by
    by_cases h : BinaryOp.plus.regroups ∧ BinaryOp.plus.rank = p.rank
    · rw [attach, if_pos h, value?_binary, value?_attach_plus l b]
      simp only [value?_binary]
      cases l.value? env with
      | none => rfl
      | some x =>
        cases b.value? env with
        | none => rfl
        | some y =>
          cases c.value? env with
          | none => rfl
          | some z =>
            rcases BinaryOp.rank_eq_plus_iff.1 h.2 with rfl | rfl
            · exact congrArg some (by omega)
            · exact congrArg some (by omega)
    · rw [attach, if_neg h]
  | name _ => rfl
  | leading _ _ => rfl
  | trailing _ _ => rfl

/-! ## Products -/

theorem Divides.binaryRank? {t : OpTree} (h : t.Divides) :
    t.binaryRank? = some BinaryOp.times.rank := by
  cases t with
  | binary o l r => cases o <;> first | rfl | exact h.elim
  | name w => exact h.elim
  | leading o e => exact h.elim
  | trailing e o => exact h.elim

/-- A right factor that does not divide changes sides without a change of value. -/
theorem value?_attach_times (l : OpTree) :
    ∀ r, ¬ r.Divides → (attach .times l r).value? env = (binary .times l r).value? env
  | binary p b c, hr => by
    by_cases h : BinaryOp.times.regroups ∧ BinaryOp.times.rank = p.rank
    · rcases BinaryOp.rank_eq_times_iff.1 h.2 with rfl | rfl | rfl
      · rw [attach, if_pos h, value?_binary, value?_attach_times l b hr]
        simp only [value?_binary]
        cases l.value? env with
        | none => rfl
        | some x =>
          cases b.value? env with
          | none => rfl
          | some y =>
            cases c.value? env with
            | none => rfl
            | some z => exact congrArg some (Int.mul_assoc x y z)
      · exact absurd trivial hr
      · exact absurd trivial hr
    · rw [attach, if_neg h]
  | name _, _ => rfl
  | leading _ _, _ => rfl
  | trailing _ _, _ => rfl

theorem divides_attach (l : OpTree) :
    ∀ r, (attach .times l r).Divides ↔ l.Divides ∨ r.Divides
  | binary p b c => by
    by_cases h : BinaryOp.times.regroups ∧ BinaryOp.times.rank = p.rank
    · rw [attach, if_pos h]
      rcases BinaryOp.rank_eq_times_iff.1 h.2 with rfl | rfl | rfl
      · exact divides_attach l b
      · exact iff_of_true trivial (.inr trivial)
      · exact iff_of_true trivial (.inr trivial)
    · have hp : ¬ (binary p b c).Divides := fun hd =>
        h ⟨rfl, (Option.some.inj hd.binaryRank?).symm⟩
      rw [attach, if_neg h]
      exact (or_iff_left hp).symm
  | name _ => (or_iff_left id).symm
  | leading _ _ => (or_iff_left id).symm
  | trailing _ _ => (or_iff_left id).symm

theorem divides_normal : ∀ {t : OpTree}, t.KeepsFactors → (t.normal.Divides ↔ t.Divides)
  | binary o l r, ⟨ho, hl, hr⟩ => by
    by_cases hrank : BinaryOp.times.rank = o.rank
    · rcases BinaryOp.rank_eq_times_iff.1 hrank with rfl | rfl | rfl
      · have hright : ¬ r.normal.Divides := fun h => ho rfl ((divides_normal hr).1 h)
        rw [normal, divides_attach, divides_normal hl]
        exact or_iff_left hright
      · exact iff_of_true (by rw [normal, attach_of_not_regroups rfl]; trivial) trivial
      · exact iff_of_true (by rw [normal, attach_of_not_regroups rfl]; trivial) trivial
    · have hne : ∀ {t : OpTree}, t.binaryRank? = some o.rank → ¬ t.Divides := fun ht hd =>
        hrank (Option.some.inj (hd.binaryRank?.symm.trans ht))
      exact iff_of_false (hne (binaryRank?_normal _)) (hne rfl)
  | name _, _ => Iff.rfl
  | leading _ _, _ => Iff.rfl
  | trailing _ _, _ => Iff.rfl

/-! ## Trees -/

/-- **A tree without a division as a right factor keeps its value when it is regrouped to the end.** -/
theorem value?_normal : ∀ {t : OpTree}, t.IsArithmetic → t.KeepsFactors →
    t.normal.value? env = t.value? env
  | binary o l r, ⟨ho, hal, har⟩, ⟨hdiv, hkl, hkr⟩ => by
    have hattach : (attach o l.normal r.normal).value? env =
        (binary o l.normal r.normal).value? env := by
      cases o with
      | plus => exact value?_attach_plus _ _
      | times =>
        exact value?_attach_times _ _ fun h => hdiv rfl ((divides_normal hkr).1 h)
      | minus => rw [attach_of_not_regroups rfl]
      | divide => rw [attach_of_not_regroups rfl]
      | modulo => rw [attach_of_not_regroups rfl]
      | _ => exact nomatch ho
    rw [normal, hattach, value?_binary, value?_normal hal hkl, value?_normal har hkr, value?_binary]
  | name _, _, _ => rfl

/-- Without leading operators nothing is exposed. -/
theorem IsArithmetic.leadingFits : ∀ {t : OpTree}, t.IsArithmetic → t.LeadingFits
  | binary _ _ r, ⟨_, hl, hr⟩ => by
    refine ⟨?_, hl.leadingFits, hr.leadingFits⟩
    cases r with
    | leading o e => exact hr.elim
    | name w => exact id
    | trailing e o => exact id
    | binary p b c => exact id
  | name _, _ => trivial

theorem textValue?_text {t : OpTree} (h : t.IsArithmetic) :
    textValue? env (t.text false) = t.normal.value? env := by
  rw [textValue?, readText_text h.leadingFits.unexposed, Option.bind_some]

/-! ## Shapes -/

theorem isArithmetic_shape (t : OpTree) : t.shape.IsArithmetic ↔ t.IsArithmetic := by
  induction t with
  | binary o l r ihl ihr => simp only [shape, IsArithmetic, ihl, ihr]
  | name w => exact Iff.rfl
  | leading o e => exact Iff.rfl
  | trailing e o => exact Iff.rfl

theorem divides_shape (t : OpTree) : t.shape.Divides ↔ t.Divides := by
  induction t with
  | binary o l r ihl ihr => cases o <;> first | exact ihl | exact Iff.rfl
  | name w => exact Iff.rfl
  | leading o e => exact Iff.rfl
  | trailing e o => exact Iff.rfl

theorem keepsFactors_shape (t : OpTree) : t.shape.KeepsFactors ↔ t.KeepsFactors := by
  induction t with
  | binary o l r ihl ihr => simp only [shape, KeepsFactors, divides_shape, ihl, ihr]
  | name w => exact Iff.rfl
  | leading o e ih => exact ih
  | trailing e o ih => exact ih

end OpTree

end ChapelSource
