import Mathlib.Tactic.ByContra
import ChapelSource.Proofs.Grouping.RoundTrip

/-!
# Trees that share a text

Where an operator at the right edge of a left operand takes the symbol after it, the text of the tree
is the text of another tree as well, in which that operator has the whole rest as its operand.

* `OpTree.graft`: an operator and its right operand, moved into the right edge of its left operand.
* `OpTree.chars_graft`: this keeps the characters.
* `OpTree.leadingWeight`: what regrouping keeps and moving does not.
* **`OpTree.unexposed_iff`**: the trees that are told apart by their texts.
* **`OpTree.exposed_power_eq`**: two trees that share a text.
-/

namespace ChapelSource

namespace OpTree

open Relation Bracketed

/-! ## Moving an operator into the right edge -/

/-- A tree in parentheses if it needs them as an operand of `outer`. -/
def operand (outer : Operator) (onRight : Bool) (t : OpTree) : Bracketed :=
  group (t.needsParens outer onRight) t.bracketed

/-- The operator `k` with its right operand `r` moves into the right edge of its left operand, to the
first place where it is not taken. -/
def graft (k : BinaryOp) (r : OpTree) : OpTree → OpTree
  | leading p e =>
    leading p (if (e.operand p.operator true).Closes k then binary k e r else graft k r e)
  | binary p a b =>
    binary p a (if (b.operand p.operator true).Closes k then binary k b r else graft k r b)
  | t => t

theorem endsAt_of_closes {t : OpTree} {k : BinaryOp} (h : t.bracketed.Closes k) : t.EndsAt k := by
  cases t with
  | leading p e => exact h.1
  | binary p l r => exact h.1
  | name w => trivial
  | trailing e p => trivial

/-- An operand that closes `k` is written the same as the left operand of `k` if, in parentheses, it
binds less tight than `k`. -/
theorem operand_left_of_closes {outer : Operator} {k : BinaryOp} {t : OpTree}
    (hc : (t.operand outer true).Closes k)
    (hp : t.needsParens outer true = true → ¬ t.BindsAt k.rank) :
    t.operand k.operator false = t.operand outer true := by
  unfold operand at *
  cases hn : t.needsParens outer true with
  | false =>
    rw [hn] at hc
    rw [bare_left_iff.mpr (endsAt_of_closes hc)]
  | true =>
    have hne : t.needsParens k.operator false ≠ false := fun h => hp hn (bare_left_iff.mp h).bindsAt
    rw [eq_true_of_ne_false hne]

/-- Only a bare operand takes the symbol after it. -/
theorem bare_of_not_closes {outer : Operator} {k : BinaryOp} {t : OpTree}
    (h : ¬ (t.operand outer true).Closes k) :
    t.needsParens outer true = false ∧ ¬ t.bracketed.Closes k := by
  unfold operand at h
  cases hn : t.needsParens outer true with
  | false =>
    rw [hn] at h
    exact ⟨rfl, h⟩
  | true =>
    rw [hn] at h
    exact absurd trivial h

theorem operator?_graft (k : BinaryOp) (r t : OpTree) : (graft k r t).operator? = t.operator? := by
  cases t <;> rfl

theorem needsParens_graft (k : BinaryOp) (r t : OpTree) (outer : Operator) (onRight : Bool) :
    (graft k r t).needsParens outer onRight = t.needsParens outer onRight := by
  rw [needsParens, operator?_graft, needsParens]

/-! ## What moving keeps -/

section Graft

variable {k p : BinaryOp} {r e a b : OpTree} {o : LeadingOp}

/-- Under a leading operator that takes the symbol `k`, the place for `k` is right before it if the
operand closes `k`. -/
theorem operand_leading (h : ¬ (leading o e).bracketed.Closes k)
    (hc : (e.operand o.operator true).Closes k) :
    e.operand k.operator false = e.operand o.operator true ∧
      (binary k e r).needsParens o.operator true = false := by
  have hlt : o.rank < k.rank := Nat.lt_of_not_le fun hle => h ⟨hle, hc⟩
  refine ⟨operand_left_of_closes hc fun hn hb => ?_, bare_leading_iff.mpr hlt⟩
  refine absurd (bare_leading_iff.mpr ?_) (ne_false_of_eq_true hn)
  cases e with
  | binary q c d => exact Nat.lt_of_lt_of_le hlt hb
  | name w => trivial
  | leading q e => trivial
  | trailing e q => trivial

theorem operand_binary (h : ¬ (binary p a b).bracketed.Closes k)
    (hc : (b.operand p.operator true).Closes k) :
    b.operand k.operator false = b.operand p.operator true ∧
      (binary k b r).needsParens p.operator true = false := by
  have hle : p.rightLevel ≤ k.rank := Nat.le_of_not_lt fun hlt => h ⟨hlt, hc⟩
  have hrank := Nat.le_trans p.rank_le_rightLevel hle
  refine ⟨operand_left_of_closes hc fun hn hb => ?_, bare_right_iff.mpr ⟨hrank, fun _ => hle⟩⟩
  refine absurd (bare_right_iff.mpr ?_) (ne_false_of_eq_true hn)
  cases b with
  | binary q c d => exact ⟨Nat.le_trans hrank hb, fun _ => Nat.le_trans hle hb⟩
  | name w => exact ⟨trivial, fun _ => trivial⟩
  | leading q e => exact ⟨trivial, fun _ => trivial⟩
  | trailing e q => exact ⟨trivial, fun _ => trivial⟩

end Graft

theorem chars_graft {k : BinaryOp} {r t : OpTree} (inType : Bool)
    (h : ¬ t.bracketed.Closes k) :
    (graft k r t).bracketed.chars inType =
      t.bracketed.chars inType ++ (symbolChars inType k ++ (r.operand k.operator true).chars inType) := by
  induction t with
  | name w => exact absurd trivial h
  | trailing e o => exact absurd trivial h
  | leading o e ih =>
    rw [graft]
    by_cases hc : (e.operand o.operator true).Closes k
    · obtain ⟨hleft, hbare⟩ := operand_leading (r := r) h hc
      rw [if_pos hc, bracketed, hbare, bracketed]
      show _ ++ ((e.operand k.operator false).chars inType ++ _) = _
      rw [hleft, ← List.append_assoc]
      rfl
    · obtain ⟨hbare, hopen⟩ := bare_of_not_closes hc
      rw [if_neg hc, bracketed, needsParens_graft, hbare]
      show _ ++ (graft k r e).bracketed.chars inType = _
      rw [ih hopen, ← List.append_assoc, bracketed, hbare]
      rfl
  | binary p a b _ ih =>
    rw [graft]
    by_cases hc : (b.operand p.operator true).Closes k
    · obtain ⟨hleft, hbare⟩ := operand_binary (r := r) h hc
      rw [if_pos hc, bracketed, hbare, bracketed]
      show _ ++ (_ ++ ((b.operand k.operator false).chars inType ++ _)) = _
      rw [hleft, ← List.append_assoc, ← List.append_assoc, List.append_assoc _ _ (chars _ _)]
      rfl
    · obtain ⟨hbare, hopen⟩ := bare_of_not_closes hc
      rw [if_neg hc, bracketed, needsParens_graft, hbare]
      show _ ++ (_ ++ (graft k r b).bracketed.chars inType) = _
      rw [ih hopen, ← List.append_assoc, ← List.append_assoc, List.append_assoc _ _ (chars _ _),
        bracketed, hbare]
      rfl

theorem unexposed_graft {k : BinaryOp} {r t : OpTree} (hr : r.bracketed.Unexposed)
    (ht : t.bracketed.Unexposed) (h : ¬ t.bracketed.Closes k) :
    (graft k r t).bracketed.Unexposed := by
  induction t with
  | name w => exact absurd trivial h
  | trailing e o => exact absurd trivial h
  | leading o e ih =>
    rw [bracketed, Unexposed, unexposed_group] at ht
    rw [graft, bracketed, Unexposed, unexposed_group]
    by_cases hc : (e.operand o.operator true).Closes k
    · rw [if_pos hc]
      refine ⟨?_, (unexposed_group _ _).mpr ht, (unexposed_group _ _).mpr hr⟩
      rw [← operand, (operand_leading (r := r) h hc).1]
      exact hc
    · rw [if_neg hc]
      exact ih ht (bare_of_not_closes hc).2
  | binary p a b _ ih =>
    rw [bracketed, Unexposed, unexposed_group, unexposed_group] at ht
    rw [graft, bracketed, Unexposed, unexposed_group, unexposed_group]
    refine ⟨ht.1, ht.2.1, ?_⟩
    by_cases hc : (b.operand p.operator true).Closes k
    · rw [if_pos hc]
      refine ⟨?_, (unexposed_group _ _).mpr ht.2.2, (unexposed_group _ _).mpr hr⟩
      rw [← operand, (operand_binary (r := r) h hc).1]
      exact hc
    · rw [if_neg hc]
      exact ih ht.2.2 (bare_of_not_closes hc).2

/-! ## What moving changes -/

/-- The number of names and operators of a tree. -/
def size : OpTree → Nat
  | name _ => 1
  | leading _ e | trailing e _ => e.size + 1
  | binary _ l r => l.size + r.size + 1

/-- The sizes of the operands of all leading operators, taken together. -/
def leadingWeight : OpTree → Nat
  | name _ => 0
  | leading _ e => e.size + e.leadingWeight
  | trailing e _ => e.leadingWeight
  | binary _ l r => l.leadingWeight + r.leadingWeight

theorem Rotates.size_eq {t u : OpTree} (h : Rotates t u) : t.size = u.size := by
  induction h with
  | here a b c _ _ => simp only [size]; omega
  | leading o _ ih => rw [size, size, ih]
  | trailing o _ ih => rw [size, size, ih]
  | left o r _ ih => rw [size, size, ih]
  | right o l _ ih => rw [size, size, ih]

/-- Regrouping keeps the weight: no leading operator gets another operand. -/
theorem Rotates.leadingWeight_eq {t u : OpTree} (h : Rotates t u) :
    t.leadingWeight = u.leadingWeight := by
  induction h with
  | here a b c _ _ => simp only [leadingWeight]; omega
  | leading o h ih => rw [leadingWeight, leadingWeight, ih, h.size_eq]
  | trailing o _ ih => rw [leadingWeight, leadingWeight, ih]
  | left o r _ ih => rw [leadingWeight, leadingWeight, ih]
  | right o l _ ih => rw [leadingWeight, leadingWeight, ih]

theorem leadingWeight_eq_of_eqvGen {t u : OpTree} (h : EqvGen Rotates t u) :
    t.leadingWeight = u.leadingWeight := by
  induction h with
  | rel _ _ h => exact h.leadingWeight_eq
  | refl _ => rfl
  | symm _ _ _ ih => exact ih.symm
  | trans _ _ _ _ _ ih₁ ih₂ => exact ih₁.trans ih₂

section

variable {k : BinaryOp} {r t : OpTree}

theorem size_graft (h : ¬ t.bracketed.Closes k) : (graft k r t).size = t.size + r.size + 1 := by
  induction t with
  | name w => exact absurd trivial h
  | trailing e o => exact absurd trivial h
  | leading o e ih =>
    by_cases hc : (e.operand o.operator true).Closes k
    · rw [graft, if_pos hc, size, size, size]
      omega
    · rw [graft, if_neg hc, size, ih (bare_of_not_closes hc).2, size]
      omega
  | binary p a b _ ih =>
    by_cases hc : (b.operand p.operator true).Closes k
    · rw [graft, if_pos hc, size, size, size]
      omega
    · rw [graft, if_neg hc, size, ih (bare_of_not_closes hc).2, size]
      omega

theorem leadingWeight_le_graft (h : ¬ t.bracketed.Closes k) :
    t.leadingWeight + r.leadingWeight ≤ (graft k r t).leadingWeight := by
  induction t with
  | name w => exact absurd trivial h
  | trailing e o => exact absurd trivial h
  | leading o e ih =>
    by_cases hc : (e.operand o.operator true).Closes k
    · rw [graft, if_pos hc]
      simp only [leadingWeight, size]
      omega
    · have hopen := (bare_of_not_closes hc).2
      have hw := ih hopen
      rw [graft, if_neg hc, leadingWeight, leadingWeight, size_graft hopen]
      omega
  | binary p a b _ ih =>
    by_cases hc : (b.operand p.operator true).Closes k
    · rw [graft, if_pos hc]
      simp only [leadingWeight]
      omega
    · have hw := ih (bare_of_not_closes hc).2
      rw [graft, if_neg hc, leadingWeight, leadingWeight]
      omega

/-- What takes the symbol at the right edge is a leading operator, and it gets a larger operand. -/
theorem leadingWeight_lt_graft (h : ¬ t.bracketed.Closes k)
    (hroot : ∀ p a b, t = binary p a b → k.rank < p.rightLevel) :
    t.leadingWeight + r.leadingWeight < (graft k r t).leadingWeight := by
  induction t with
  | name w => exact absurd trivial h
  | trailing e o => exact absurd trivial h
  | leading o e _ =>
    by_cases hc : (e.operand o.operator true).Closes k
    · rw [graft, if_pos hc]
      simp only [leadingWeight, size]
      omega
    · have hopen := (bare_of_not_closes hc).2
      have hw : e.leadingWeight + r.leadingWeight ≤ (graft k r e).leadingWeight :=
        leadingWeight_le_graft hopen
      rw [graft, if_neg hc, leadingWeight, leadingWeight, size_graft hopen]
      omega
  | binary p a b _ ih =>
    have hlt := hroot p a b rfl
    have hc : ¬ (b.operand p.operator true).Closes k := fun hc => h ⟨hlt, hc⟩
    obtain ⟨hbare, hopen⟩ := bare_of_not_closes hc
    have hw := ih hopen ?_
    · rw [graft, if_neg hc, leadingWeight, leadingWeight]
      omega
    · rintro q c d rfl
      exact Nat.lt_of_lt_of_le hlt (BinaryOp.rightLevel_mono (bare_right_iff.mp hbare).1)

end

/-- A tree that exposes an operator only at its root shares its text with one that exposes none and
is another tree. -/
theorem exists_text_eq {k : BinaryOp} {l r : OpTree} (h : ¬ (l.operand k.operator false).Closes k)
    (hl : l.bracketed.Unexposed) (hr : r.bracketed.Unexposed) :
    ∃ u : OpTree, u.bracketed.Unexposed ∧ (∀ inType, (binary k l r).text inType = u.text inType) ∧
      ¬ EqvGen Rotates (binary k l r) u := by
  have hbare : l.needsParens k.operator false = false := by
    by_contra hn
    rw [operand, eq_true_of_ne_false hn] at h
    exact h trivial
  rw [operand, hbare] at h
  refine ⟨graft k r l, unexposed_graft hr hl h, fun inType => ?_, fun he => ?_⟩
  · rw [text, text, chars_graft inType h, bracketed, hbare]
    rfl
  · have hw : l.leadingWeight + r.leadingWeight < (graft k r l).leadingWeight := by
      refine leadingWeight_lt_graft h ?_
      rintro p a b rfl
      exact bare_left_iff.mp hbare
    have heq := leadingWeight_eq_of_eqvGen he
    rw [leadingWeight] at heq
    omega

/-! ## Subtrees -/

theorem unexposed_of_mem_subtrees {s t : OpTree} (h : t.bracketed.Unexposed)
    (hs : s ∈ t.subtrees) : s.bracketed.Unexposed := by
  induction t with
  | name w =>
    rw [subtrees, List.mem_singleton] at hs
    exact hs ▸ h
  | leading o e ih =>
    rcases List.mem_cons.mp hs with rfl | hs
    · exact h
    · exact ih ((unexposed_group _ _).mp h) hs
  | trailing e o ih =>
    rcases List.mem_cons.mp hs with rfl | hs
    · exact h
    · exact ih ((unexposed_group _ _).mp h) hs
  | binary o l r ihl ihr =>
    rcases List.mem_cons.mp hs with rfl | hs
    · exact h
    · rcases List.mem_append.mp hs with hs | hs
      · exact ihl ((unexposed_group _ _).mp h.2.1) hs
      · exact ihr ((unexposed_group _ _).mp h.2.2) hs

/-- A tree that exposes an operator does so at the root of a subtree that exposes no other. -/
theorem exists_exposed_subtree {t : OpTree} (h : ¬ t.bracketed.Unexposed) :
    ∃ k l r, binary k l r ∈ t.subtrees ∧ l.bracketed.Unexposed ∧ r.bracketed.Unexposed ∧
      ¬ (l.operand k.operator false).Closes k := by
  induction t with
  | name w => exact absurd trivial h
  | leading o e ih =>
    obtain ⟨k, l, r, hmem, hs⟩ := ih fun he => h ((unexposed_group _ _).mpr he)
    exact ⟨k, l, r, List.mem_cons_of_mem _ hmem, hs⟩
  | trailing e o ih =>
    obtain ⟨k, l, r, hmem, hs⟩ := ih fun he => h ((unexposed_group _ _).mpr he)
    exact ⟨k, l, r, List.mem_cons_of_mem _ hmem, hs⟩
  | binary o l r ihl ihr =>
    by_cases hl : l.bracketed.Unexposed
    · by_cases hr : r.bracketed.Unexposed
      · refine ⟨o, l, r, List.mem_cons_self, hl, hr, fun hc => h ⟨hc, ?_⟩⟩
        exact ⟨(unexposed_group _ _).mpr hl, (unexposed_group _ _).mpr hr⟩
      · obtain ⟨k, a, b, hmem, hs⟩ := ihr hr
        exact ⟨k, a, b, List.mem_cons_of_mem _ (List.mem_append_right _ hmem), hs⟩
    · obtain ⟨k, a, b, hmem, hs⟩ := ihl hl
      exact ⟨k, a, b, List.mem_cons_of_mem _ (List.mem_append_left _ hmem), hs⟩

/-! ## The trees that are told apart -/

/-- **A tree exposes no operator exactly if the source text of each of its subtrees is that of no
other tree that exposes none**, up to regrouping. -/
theorem unexposed_iff (t : OpTree) :
    t.bracketed.Unexposed ↔ ∀ s ∈ t.subtrees, ∀ u : OpTree, u.bracketed.Unexposed →
      ∀ (n m : Node) (o : PrintOptions), n.Denotes s → m.Denotes u → n.print o = m.print o →
        EqvGen Rotates s u := by
  constructor
  · intro h s hs u hu n m o hn hm heq
    rw [hn.print_eq, hm.print_eq] at heq
    have hread := readText_text (unexposed_of_mem_subtrees h hs)
    rw [Except.ok.inj heq, readText_text hu] at hread
    exact eqvGen_rotates_iff.mpr (Option.some.inj hread).symm
  · intro h
    by_contra ht
    obtain ⟨k, l, r, hmem, hl, hr, hc⟩ := exists_exposed_subtree ht
    obtain ⟨u, hu, htext, hne⟩ := exists_text_eq hc hl hr
    have hs := denotes_toNode (.sourceless ⟨0⟩) (binary k l r)
    have hm := denotes_toNode (.sourceless ⟨0⟩) u
    refine hne (h _ hmem u hu _ _ {} hs hm ?_)
    rw [hs.print_eq, hm.print_eq, htext]

/-- **The trees `(a ** -b) * c` and `a ** -(b * c)` share a text**, though a leading operator is the
right operand of a tighter one in both and they do not regroup into each other. -/
theorem exposed_power_eq :
    let a := name (.single 'a' (by decide))
    let b := name (.single 'b' (by decide))
    let c := name (.single 'c' (by decide))
    let t := binary .times (binary .power a (leading .minus b)) c
    let u := binary .power a (leading .minus (binary .times b c))
    (t.toNode (.sourceless ⟨0⟩)).print {} = (u.toNode (.sourceless ⟨0⟩)).print {} ∧
      ¬ t.LeadingFits ∧ ¬ u.LeadingFits ∧ ¬ EqvGen Rotates t u := by
  intro a b c t u
  have hlt : LeadingOp.minus.rank < BinaryOp.power.rank := by decide
  refine ⟨?_, fun h => h.2.1.1 hlt, fun h => h.1 hlt, fun h => ?_⟩
  · rw [(denotes_toNode _ t).print_eq, (denotes_toNode _ u).print_eq]
    exact congrArg Except.ok (by decide)
  · exact absurd (leadingWeight_eq_of_eqvGen h) (by decide)

end OpTree

end ChapelSource
