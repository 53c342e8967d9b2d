import Mathlib.Logic.Relation
import ChapelSource.Grouping.Tree

/-!
# Regrouping to the end

Right operands of equal rank change sides in any order; in the end they are all on the left.

* `OpTree.binaryRank?`: the rank of the binary operator at the root of a tree.
* `OpTree.IsNormal`: no right operand of the tree may change sides.
* **`OpTree.rotates_normal`**, **`OpTree.isNormal_normal`**: every tree regroups to its normal form,
  which is normal.
* `OpTree.eqvGen_rotates_iff`: trees regroup into each other when they have one normal form.
* **`OpTree.eq_normal`**: however a tree is regrouped to the end, its normal form is reached.
-/

namespace ChapelSource

namespace OpTree

open Relation

/-- The rank of the binary operator at the root of a tree. -/
def binaryRank? : OpTree → Option Nat
  | binary o _ _ => some o.rank
  | _ => none

/-- No right operand may change sides. -/
def IsNormal (t : OpTree) : Prop := ∀ u, ¬ Rotates t u

/-! ## Attaching an operand -/

section Attach

variable {o p : BinaryOp} {l r b c : OpTree}

theorem attach_binary (ho : o.regroups = true) (h : o.rank = p.rank) :
    attach o l (binary p b c) = binary p (attach o l b) c := by
  rw [attach, if_pos ⟨ho, h⟩]

theorem attach_of_not (h : ¬ (o.regroups = true ∧ r.binaryRank? = some o.rank)) :
    attach o l r = binary o l r := by
  cases r with
  | binary p b c =>
    rw [attach, if_neg]
    rintro ⟨ho, hp⟩
    exact h ⟨ho, congrArg some hp.symm⟩
  | name w => rfl
  | leading p e => rfl
  | trailing e p => rfl

theorem binaryRank?_attach (o : BinaryOp) (l r : OpTree) :
    (attach o l r).binaryRank? = some o.rank := by
  by_cases h : o.regroups = true ∧ r.binaryRank? = some o.rank
  · cases r with
    | binary p b c =>
      have hp : p.rank = o.rank := Option.some.inj h.2
      rw [attach_binary h.1 hp.symm, binaryRank?, hp]
    | name w => exact nomatch h.2
    | leading p e => exact nomatch h.2
    | trailing e p => exact nomatch h.2
  · rw [attach_of_not h, binaryRank?]

@[simp] theorem binaryRank?_normal (t : OpTree) : t.normal.binaryRank? = t.binaryRank? := by
  cases t with
  | binary o l r => exact binaryRank?_attach o _ _
  | name w => rfl
  | leading p e => rfl
  | trailing e p => rfl

theorem attach_attach (ho : o.regroups = true) (hop : o.rank = p.rank) (a b : OpTree) :
    ∀ c, attach o a (attach p b c) = attach p (attach o a b) c
  | binary q d e => by
    by_cases h : p.regroups = true ∧ p.rank = q.rank
    · rw [attach_binary h.1 h.2, attach_binary h.1 h.2, attach_binary ho (hop.trans h.2),
        attach_attach ho hop a b d]
    · have hne : ¬ (p.regroups = true ∧ (binary q d e).binaryRank? = some p.rank) :=
        fun hq => h ⟨hq.1, (Option.some.inj hq.2).symm⟩
      rw [attach_of_not hne, attach_of_not hne, attach_binary ho hop]
  | name _ => attach_binary ho hop
  | leading _ _ => attach_binary ho hop
  | trailing _ _ => attach_binary ho hop

end Attach

/-! ## The normal form is reached -/

theorem rotates_attach (o : BinaryOp) (l : OpTree) :
    ∀ r, ReflTransGen Rotates (binary o l r) (attach o l r)
  | binary p b c => by
    by_cases h : o.regroups = true ∧ o.rank = p.rank
    · rw [attach_binary h.1 h.2]
      exact .head (.here l b c h.1 h.2)
        ((rotates_attach o l b).lift (binary p · c) fun _ _ => .left p c)
    · rw [attach, if_neg h]
  | name _ => .refl
  | leading _ _ => .refl
  | trailing _ _ => .refl

/-- **Every tree regroups to its normal form.** -/
theorem rotates_normal : ∀ t : OpTree, ReflTransGen Rotates t t.normal
  | name _ => .refl
  | leading o e => (rotates_normal e).lift (leading o) fun _ _ => .leading o
  | trailing e o => (rotates_normal e).lift (trailing · o) fun _ _ => .trailing o
  | binary o l r => by
    have hl : ReflTransGen Rotates (binary o l r) (binary o l.normal r) :=
      (rotates_normal l).lift (binary o · r) fun _ _ => .left o r
    have hr : ReflTransGen Rotates (binary o l.normal r) (binary o l.normal r.normal) :=
      (rotates_normal r).lift (binary o l.normal) fun _ _ => .right o l.normal
    exact (hl.trans hr).trans (rotates_attach o l.normal r.normal)

/-! ## The normal form is normal -/

theorem isNormal_leading {o : LeadingOp} {e : OpTree} (h : e.IsNormal) : (leading o e).IsNormal := by
  rintro u (_ | ⟨_, he⟩)
  exact h _ he

theorem isNormal_trailing {o : TrailingOp} {e : OpTree} (h : e.IsNormal) :
    (trailing e o).IsNormal := by
  rintro u (_ | _ | ⟨_, he⟩)
  exact h _ he

theorem isNormal_binary_iff {o : BinaryOp} {l r : OpTree} :
    (binary o l r).IsNormal ↔
      ¬ (o.regroups = true ∧ r.binaryRank? = some o.rank) ∧ l.IsNormal ∧ r.IsNormal := by
  constructor
  · intro h
    refine ⟨?_, fun u hl => h _ (.left o r hl), fun u hr => h _ (.right o l hr)⟩
    rintro ⟨ho, hr⟩
    cases r with
    | binary p b c => exact h _ (.here l b c ho (Option.some.inj hr).symm)
    | name w => exact nomatch hr
    | leading p e => exact nomatch hr
    | trailing e p => exact nomatch hr
  · rintro ⟨hne, hl, hr⟩ u hu
    cases hu with
    | here a b c ho hp => exact hne ⟨ho, congrArg some hp.symm⟩
    | left _ _ h => exact hl _ h
    | right _ _ h => exact hr _ h

theorem isNormal_attach {o : BinaryOp} {l : OpTree} (hl : l.IsNormal) :
    ∀ {r}, r.IsNormal → (attach o l r).IsNormal
  | binary p b c, hr => by
    by_cases h : o.regroups = true ∧ o.rank = p.rank
    · rw [attach_binary h.1 h.2]
      obtain ⟨hne, hb, hc⟩ := isNormal_binary_iff.mp hr
      exact isNormal_binary_iff.mpr ⟨hne, isNormal_attach hl hb, hc⟩
    · rw [attach, if_neg h]
      exact isNormal_binary_iff.mpr ⟨fun hq => h ⟨hq.1, (Option.some.inj hq.2).symm⟩, hl, hr⟩
  | name _, hr => isNormal_binary_iff.mpr ⟨fun h => (nomatch h.2), hl, hr⟩
  | leading _ _, hr => isNormal_binary_iff.mpr ⟨fun h => (nomatch h.2), hl, hr⟩
  | trailing _ _, hr => isNormal_binary_iff.mpr ⟨fun h => (nomatch h.2), hl, hr⟩

/-- **The normal form of a tree is normal.** -/
theorem isNormal_normal : ∀ t : OpTree, t.normal.IsNormal
  | name _ => fun _ h => nomatch h
  | leading _ e => isNormal_leading (isNormal_normal e)
  | trailing e _ => isNormal_trailing (isNormal_normal e)
  | binary _ l r => isNormal_attach (isNormal_normal l) (isNormal_normal r)

/-! ## There is no other -/

theorem Rotates.normal_eq {t u : OpTree} (h : Rotates t u) : t.normal = u.normal := by
  induction h with
  | here a b c ho hp => exact attach_attach ho hp a.normal b.normal c.normal
  | leading o h ih => rw [normal, normal, ih]
  | trailing o h ih => rw [normal, normal, ih]
  | left o r h ih => rw [normal, normal, ih]
  | right o l h ih => rw [normal, normal, ih]

theorem normal_eq_of_reflTransGen {t u : OpTree} (h : ReflTransGen Rotates t u) :
    t.normal = u.normal := by
  induction h with
  | refl => rfl
  | tail _ hstep ih => rw [ih, hstep.normal_eq]

theorem IsNormal.eq_of_reflTransGen {t u : OpTree} (ht : t.IsNormal)
    (h : ReflTransGen Rotates t u) : u = t := by
  induction h with
  | refl => rfl
  | tail _ hstep ih =>
    rw [ih] at hstep
    exact absurd hstep (ht _)

theorem IsNormal.normal_eq {t : OpTree} (ht : t.IsNormal) : t.normal = t :=
  ht.eq_of_reflTransGen (rotates_normal t)

theorem eqvGen_of_reflTransGen {t u : OpTree} (h : ReflTransGen Rotates t u) :
    EqvGen Rotates t u := by
  induction h with
  | refl => exact .refl t
  | tail _ hstep ih => exact ih.trans _ _ _ (.rel _ _ hstep)

/-- Trees regroup into each other when they have one normal form. -/
theorem eqvGen_rotates_iff {t u : OpTree} : EqvGen Rotates t u ↔ t.normal = u.normal := by
  constructor
  · intro h
    induction h with
    | rel _ _ h => exact h.normal_eq
    | refl _ => rfl
    | symm _ _ _ ih => exact ih.symm
    | trans _ _ _ _ _ ih₁ ih₂ => exact ih₁.trans ih₂
  · intro h
    have ht := eqvGen_of_reflTransGen (rotates_normal t)
    rw [h] at ht
    exact ht.trans _ _ _ ((eqvGen_of_reflTransGen (rotates_normal u)).symm _ _)

/-- **However a tree is regrouped to the end, its normal form is reached.** -/
theorem eq_normal {t u : OpTree} (h : ReflTransGen Rotates t u) (hu : u.IsNormal) :
    u = t.normal := by
  rw [normal_eq_of_reflTransGen h, hu.normal_eq]

end OpTree

end ChapelSource
