import ChapelSource.Proofs.Grouping.Ranks
import ChapelSource.Proofs.Grouping.Reading
import ChapelSource.Proofs.Grouping.Text

/-!
# Printed trees are read back

The text of a tree is read as the normal form of the tree, unless an operator at the right edge of a
left operand takes the symbol after it.

* `Bracketed.attach`, `Bracketed.normal`: regrouping that parentheses stop. It keeps the text.
* `Bracketed.Readable.readText_chars`: the text of a readable tree is read as the tree.
* `Bracketed.readable_normal`: a tree that exposes no operator becomes readable.
* **`OpTree.readText_text`**: the text of such a tree is read as its normal form.
* `OpTree.LeadingFits.unexposed`: the trees without misplaced leading operators are such.
* **`OpTree.print_readText`**: their nodes are printed and read back.
-/

namespace ChapelSource

open Relation

namespace Bracketed

/-! ## Regrouping between parentheses -/

/-- An operator on two operands, the right one of which changes sides up to its parentheses. -/
def attach (o : BinaryOp) (l : Bracketed) : Bracketed → Bracketed
  | binary p b c =>
    if o.regroups ∧ o.rank = p.rank then binary p (attach o l b) c else binary o l (binary p b c)
  | r => binary o l r

/-- A tree with all bare right operands of equal rank on the other side. -/
def normal : Bracketed → Bracketed
  | name w => name w
  | parens c => parens c.normal
  | leading o e => leading o e.normal
  | trailing e o => trailing e.normal o
  | binary o l r => attach o l.normal r.normal

/-- What is attached to a right operand stays on its left or changes sides and goes on. -/
inductive Attaches (o : BinaryOp) (l : Bracketed) : Bracketed → Bracketed → Prop where
  | stay {r : Bracketed} :
      (∀ p b c, r = binary p b c → ¬ (o.regroups = true ∧ o.rank = p.rank)) →
      Attaches o l r (binary o l r)
  | rotate {p : BinaryOp} {b b' c : Bracketed} : o.regroups = true → o.rank = p.rank →
      Attaches o l b b' → Attaches o l (binary p b c) (binary p b' c)

theorem attaches_attach (o : BinaryOp) (l : Bracketed) : ∀ r, Attaches o l r (attach o l r)
  | binary p b c => by
    by_cases h : o.regroups = true ∧ o.rank = p.rank
    · rw [attach, if_pos h]
      exact .rotate h.1 h.2 (attaches_attach o l b)
    · rw [attach, if_neg h]
      apply Attaches.stay
      rintro _ _ _ ⟨⟩
      exact h
  | name _ => .stay fun _ _ _ h => nomatch h
  | parens _ => .stay fun _ _ _ h => nomatch h
  | leading _ _ => .stay fun _ _ _ h => nomatch h
  | trailing _ _ => .stay fun _ _ _ h => nomatch h

section Attach

variable {o : BinaryOp} {l r c : Bracketed}

theorem Attaches.chars_eq (inType : Bool) (h : Attaches o l r c) :
    c.chars inType = l.chars inType ++ (symbolChars inType o ++ r.chars inType) := by
  induction h with
  | stay _ => rfl
  | rotate _ _ _ ih => rw [chars, ih, chars, List.append_assoc, List.append_assoc]

theorem Attaches.closes_iff (h : Attaches o l r c) {k : BinaryOp} :
    c.Closes k ↔ k.rank < o.rightLevel ∧ r.Closes k := by
  induction h with
  | stay _ => rfl
  | rotate _ hp _ _ =>
    rw [Closes, BinaryOp.rightLevel_eq_of_rank_eq hp]
    exact ⟨fun h => ⟨h.1, h⟩, And.right⟩

theorem Attaches.bindsAt_iff (h : Attaches o l r c) {k : Nat} : c.BindsAt k ↔ k ≤ o.rank := by
  cases h with
  | stay _ => rfl
  | rotate _ hp _ => rw [BindsAt, hp]

theorem Attaches.not_isPrimary (h : Attaches o l r c) : ¬ c.IsPrimary := by
  cases h <;> exact id

theorem Attaches.binaryRank?_erase (h : Attaches o l r c) :
    c.erase.binaryRank? = some o.rank := by
  cases h with
  | stay _ => rfl
  | rotate _ hp _ => rw [erase, OpTree.binaryRank?, hp]

end Attach

theorem chars_normal (inType : Bool) (c : Bracketed) : c.normal.chars inType = c.chars inType := by
  induction c with
  | name w => rfl
  | parens c ih => rw [normal, chars, chars, ih]
  | leading o e ih => rw [normal, chars, chars, ih]
  | trailing e o ih => rw [normal, chars, chars, ih]
  | binary o l r ihl ihr => rw [normal, (attaches_attach o _ _).chars_eq, chars, ihl, ihr]

theorem tokens_normal (c : Bracketed) : c.normal.tokens = c.tokens := by
  have h := tokenize_spaced c.normal
  rw [chars_normal, tokenize_spaced] at h
  exact (Option.some.inj h).symm

theorem closes_normal (c : Bracketed) (k : BinaryOp) : c.normal.Closes k ↔ c.Closes k := by
  induction c with
  | name w => rfl
  | parens c ih => rfl
  | leading o e ih => rw [normal, Closes, Closes, ih]
  | trailing e o ih => rfl
  | binary o l r ihl ihr => rw [normal, (attaches_attach o _ _).closes_iff, Closes, ihr]

theorem bindsAt_normal (c : Bracketed) (k : Nat) : c.normal.BindsAt k ↔ c.BindsAt k := by
  cases c with
  | binary o l r => exact (attaches_attach o _ _).bindsAt_iff
  | name w => rfl
  | parens c => rfl
  | leading o e => rfl
  | trailing e o => rfl

theorem binaryRank?_erase_normal (c : Bracketed) :
    c.normal.erase.binaryRank? = c.erase.binaryRank? := by
  induction c with
  | binary o l r => exact (attaches_attach o _ _).binaryRank?_erase
  | parens c ih => exact ih
  | name w => rfl
  | leading o e => rfl
  | trailing e o => rfl

/-! ## Operands -/

section Group

variable (needed : Bool) (c : Bracketed)

theorem normal_group : (group needed c).normal = group needed c.normal := by
  cases needed <;> rfl

theorem erase_group : (group needed c).erase = c.erase := by
  cases needed <;> rfl

theorem unexposed_group : (group needed c).Unexposed ↔ c.Unexposed := by
  cases needed <;> rfl

theorem readable_group : (group needed c).Readable ↔ c.Readable := by
  cases needed <;> rfl

variable {needed c}

/-- What holds of everything in parentheses holds of an operand if it holds of it bare. -/
theorem group_of_bare {P : Bracketed → Prop} (hp : P (parens c)) (h : needed = false → P c) :
    P (group needed c) := by
  cases needed with
  | true => exact hp
  | false => exact h rfl

end Group

end Bracketed

namespace OpTree

open Bracketed

theorem erase_bracketed (t : OpTree) : t.bracketed.erase = t := by
  induction t with
  | name w => rfl
  | leading o e ih => rw [bracketed, erase, erase_group, ih]
  | trailing e o ih => rw [bracketed, erase, erase_group, ih]
  | binary o l r ihl ihr => rw [bracketed, erase, erase_group, erase_group, ihl, ihr]

theorem bindsAt_normal_bracketed {t : OpTree} {k : Nat} :
    t.bracketed.normal.BindsAt k ↔ t.BindsAt k := by
  rw [bindsAt_normal]
  cases t <;> exact Iff.rfl

theorem isPrimary_normal_bracketed {t : OpTree} : t.bracketed.normal.IsPrimary ↔ t.IsPrimary := by
  cases t with
  | binary o l r => exact iff_of_false (attaches_attach o _ _).not_isPrimary id
  | name w => exact Iff.rfl
  | leading o e => exact Iff.rfl
  | trailing e o => exact Iff.rfl

theorem EndsAt.bindsAt {t : OpTree} {o : BinaryOp} (h : t.EndsAt o) : t.BindsAt o.rank := by
  cases t with
  | binary p l r => exact Nat.le_of_lt_succ (Nat.lt_of_lt_of_le h p.rightLevel_le)
  | name w => trivial
  | leading p e => trivial
  | trailing e p => trivial

end OpTree

/-! ## A tree that exposes no operator becomes readable -/

theorem Bracketed.Readable.readText_chars {c : Bracketed} (h : c.Readable) :
    readText (String.ofList (c.chars false)) = some c.erase := by
  rw [readText, String.toList_ofList, tokenize_spaced, Option.bind_some, readTokens_tokens h]

namespace Bracketed

theorem Attaches.readable {o : BinaryOp} {l r c : Bracketed} (h : Attaches o l r c)
    (hl : l.BindsAt o.rank ∧ l.Closes o ∧ l.Readable) (hrank : r.BindsAt o.rank)
    (hlevel : o.regroups = false → r.BindsAt o.rightLevel) (hr : r.Readable) : c.Readable := by
  induction h with
  | @stay r hne =>
    refine ⟨hl, ?_, hr⟩
    cases r with
    | binary p b c =>
      cases ho : o.regroups with
      | false => exact hlevel ho
      | true =>
        have hlt : o.rank < p.rank := Nat.lt_of_le_of_ne hrank fun h => hne p b c rfl ⟨ho, h⟩
        exact Nat.le_trans o.rightLevel_le hlt
    | name w => trivial
    | parens c => trivial
    | leading p e => trivial
    | trailing e p => trivial
  | @rotate p b b' c ho hp hat ih =>
    obtain ⟨⟨hbb, hbc, hbr⟩, hc⟩ := hr
    rw [← hp] at hbb
    refine ⟨⟨hat.bindsAt_iff.mpr (Nat.le_of_eq hp.symm), hat.closes_iff.mpr ⟨?_, hbc⟩, ?_⟩, hc⟩
    · rw [BinaryOp.rightLevel_of_regroups ho, hp]
      exact Nat.lt_succ_self _
    · exact ih hbb (fun h => absurd (ho.symm.trans h) (by decide)) hbr

end Bracketed

namespace OpTree

open Bracketed

theorem readable_normal (t : OpTree) (h : t.bracketed.Unexposed) : t.bracketed.normal.Readable := by
  induction t with
  | name w => trivial
  | leading o e ih =>
    rw [bracketed, Unexposed, unexposed_group] at h
    rw [bracketed, Bracketed.normal, normal_group]
    refine ⟨group_of_bare trivial fun hbare => ?_, (readable_group _ _).mpr (ih h)⟩
    exact bindsAt_normal_bracketed.mpr (bare_leading_iff.mp hbare)
  | trailing e o ih =>
    rw [bracketed, Unexposed, unexposed_group] at h
    rw [bracketed, Bracketed.normal, normal_group]
    refine ⟨group_of_bare trivial fun hbare => ?_, (readable_group _ _).mpr (ih h)⟩
    exact isPrimary_normal_bracketed.mpr (bare_trailing_iff.mp hbare)
  | binary o l r ihl ihr =>
    rw [bracketed, Unexposed, unexposed_group, unexposed_group] at h
    obtain ⟨hc, hl, hr⟩ := h
    rw [bracketed, Bracketed.normal]
    rw [← closes_normal] at hc
    rw [normal_group] at hc ⊢
    rw [normal_group]
    refine (attaches_attach o _ _).readable ⟨?_, hc, (readable_group _ _).mpr (ihl hl)⟩ ?_ ?_
      ((readable_group _ _).mpr (ihr hr))
    · refine group_of_bare trivial fun hbare => ?_
      exact bindsAt_normal_bracketed.mpr (bare_left_iff.mp hbare).bindsAt
    · refine group_of_bare trivial fun hbare => ?_
      exact bindsAt_normal_bracketed.mpr (bare_right_iff.mp hbare).1
    · refine fun ho => group_of_bare trivial fun hbare => ?_
      exact bindsAt_normal_bracketed.mpr ((bare_right_iff.mp hbare).2 ho)

end OpTree

/-! ## Parentheses stop no regrouping -/

namespace Bracketed

/-- The operands of rank `k` at the left edge are bare. -/
def Shown (k : Nat) : Bracketed → Prop
  | parens c => c.erase.binaryRank? ≠ some k
  | binary p l _ => p.rank = k → l.Shown k
  | _ => True

theorem Attaches.erase_eq {o : BinaryOp} {l r c : Bracketed} (h : Attaches o l r c)
    (hs : o.regroups = true → r.Shown o.rank) : c.erase = OpTree.attach o l.erase r.erase := by
  induction h with
  | @stay r hne =>
    rw [erase, OpTree.attach_of_not]
    rintro ⟨ho, hrank⟩
    cases r with
    | binary p b c => exact hne p b c rfl ⟨ho, (Option.some.inj hrank).symm⟩
    | parens c => exact hs ho hrank
    | name w => exact nomatch hrank
    | leading p e => exact nomatch hrank
    | trailing e p => exact nomatch hrank
  | rotate ho hp _ ih => rw [erase, ih fun _ => hs ho hp.symm, erase, OpTree.attach_binary ho hp]

theorem Attaches.shown {o : BinaryOp} {l r c : Bracketed} (h : Attaches o l r c) {k : Nat}
    (hl : o.rank = k → l.Shown k) : c.Shown k := by
  induction h with
  | stay _ => exact hl
  | rotate _ _ _ ih => exact fun _ => ih

end Bracketed

namespace OpTree

open Bracketed

theorem shown_normal_bracketed (t : OpTree) {o : BinaryOp} (ho : o.regroups = true) :
    t.bracketed.normal.Shown o.rank := by
  induction t with
  | name w => trivial
  | leading p e => trivial
  | trailing e p => trivial
  | binary p l r ihl =>
    rw [bracketed, Bracketed.normal, normal_group]
    refine (attaches_attach p _ _).shown fun hp => ?_
    cases hl : l.needsParens p.operator false with
    | false => exact ihl
    | true =>
      show l.bracketed.normal.erase.binaryRank? ≠ some o.rank
      rw [binaryRank?_erase_normal, erase_bracketed]
      intro hrank
      refine absurd (bare_left_iff.mpr ?_) (ne_false_of_eq_true hl)
      cases l with
      | binary q a b =>
        have hq : q.rank = p.rank := (Option.some.inj hrank).trans hp.symm
        have hlevel : q.rightLevel = o.rank + 1 := by
          rw [BinaryOp.rightLevel_eq_of_rank_eq (hq.trans hp), BinaryOp.rightLevel_of_regroups ho]
        show p.rank < q.rightLevel
        omega
      | name w => exact nomatch hrank
      | leading q e => exact nomatch hrank
      | trailing e q => exact nomatch hrank

theorem erase_normal_bracketed (t : OpTree) : t.bracketed.normal.erase = t.normal := by
  induction t with
  | name w => rfl
  | leading o e ih => rw [bracketed, Bracketed.normal, normal_group, erase, erase_group, ih, normal]
  | trailing e o ih => rw [bracketed, Bracketed.normal, normal_group, erase, erase_group, ih, normal]
  | binary o l r ihl ihr =>
    rw [bracketed, Bracketed.normal, normal_group, normal_group, (attaches_attach o _ _).erase_eq,
      erase_group, erase_group, ihl, ihr, normal]
    intro ho
    cases hr : r.needsParens o.operator true with
    | false => exact shown_normal_bracketed r ho
    | true =>
      show r.bracketed.normal.erase.binaryRank? ≠ some o.rank
      rw [binaryRank?_erase_normal, erase_bracketed]
      intro hrank
      refine absurd (bare_right_iff.mpr ⟨?_, ?_⟩) (ne_false_of_eq_true hr)
      · cases r with
        | binary q b c => exact Nat.le_of_eq (Option.some.inj hrank).symm
        | name w => trivial
        | leading q e => trivial
        | trailing e q => trivial
      · exact fun h => absurd (ho.symm.trans h) (by decide)

/-- **The text of a tree that exposes no operator is read as the normal form of the tree.** -/
theorem readText_text {t : OpTree} (h : t.bracketed.Unexposed) :
    readText (t.text false) = some t.normal := by
  rw [text, ← chars_normal, (readable_normal t h).readText_chars, erase_normal_bracketed]

/-! ## Leading operators that fit -/

/-- In a tree without misplaced leading operators the root is the loosest operator at the right
edge. -/
theorem LeadingFits.closes {t : OpTree} {o : BinaryOp} (ht : t.LeadingFits) (h : t.EndsAt o) :
    t.bracketed.Closes o := by
  induction t with
  | name w => trivial
  | trailing e p => trivial
  | leading p e ih =>
    refine ⟨h, group_of_bare trivial fun hbare => ih ht.2 ?_⟩
    have hp : o.rank ≤ p.rank := h
    have hbinds := bare_leading_iff.mp hbare
    cases e with
    | binary q a b =>
      exact Nat.lt_of_le_of_lt hp (Nat.lt_of_lt_of_le hbinds q.rank_le_rightLevel)
    | leading q e => exact Nat.le_trans hp (Nat.le_of_not_lt ht.1)
    | name w => trivial
    | trailing e q => trivial
  | binary p l r _ ihr =>
    refine ⟨h, group_of_bare trivial fun hbare => ihr ht.2.2 ?_⟩
    have hp : o.rank < p.rightLevel := h
    have hbinds := (bare_right_iff.mp hbare).1
    cases r with
    | binary q a b => exact Nat.lt_of_lt_of_le hp (BinaryOp.rightLevel_mono hbinds)
    | leading q e =>
      have hle : p.rank ≤ q.rank := Nat.le_of_not_lt ht.1
      exact Nat.le_trans (Nat.le_of_lt_succ (Nat.lt_of_lt_of_le hp p.rightLevel_le)) hle
    | name w => trivial
    | trailing e q => trivial

theorem LeadingFits.unexposed {t : OpTree} (ht : t.LeadingFits) : t.bracketed.Unexposed := by
  induction t with
  | name w => trivial
  | leading o e ih => exact (unexposed_group _ _).mpr (ih ht.2)
  | trailing e o ih => exact (unexposed_group _ _).mpr (ih ht)
  | binary o l r ihl ihr =>
    obtain ⟨-, hl, hr⟩ := ht
    refine ⟨?_, (unexposed_group _ _).mpr (ihl hl), (unexposed_group _ _).mpr (ihr hr)⟩
    exact group_of_bare trivial fun hbare => hl.closes (bare_left_iff.mp hbare)

/-! ## Printing and reading -/

/-- **Printing an operator tree without misplaced leading operators and reading the text back gives
the tree with its operands regrouped to the end**, in whatever order that is done. -/
theorem print_readText {n : Node} {t : OpTree} (hn : n.Denotes t)
    (ht : t.LeadingFits) (o : PrintOptions) :
    ∃ text, n.print o = .ok text ∧ readText text = some t.normal ∧
      ReflTransGen Rotates t t.normal ∧ (∀ u, ¬ Rotates t.normal u) ∧
      ∀ u, ReflTransGen Rotates t u → (∀ v, ¬ Rotates u v) → u = t.normal :=
  ⟨t.text false, hn.print_eq o, readText_text ht.unexposed, rotates_normal t, isNormal_normal t,
    fun _ => eq_normal⟩

/-- What `a + (b - -c)` is printed as is read as `(a + b) - -c`. -/
theorem print_readText_sum :
    let a := name (.single 'a' (by decide))
    let b := name (.single 'b' (by decide))
    let c := leading .minus (name (.single 'c' (by decide)))
    ∃ text, ((binary .plus a (binary .minus b c)).toNode (.sourceless ⟨0⟩)).print {} = .ok text ∧
      readText text = some (binary .minus (binary .plus a b) c) := by
  intro a b c
  have fits : (binary .plus a (binary .minus b c)).LeadingFits := by
    refine ⟨id, trivial, ?_, trivial, id, trivial⟩
    show ¬ LeadingOp.minus.rank < BinaryOp.minus.rank
    decide
  obtain ⟨text, hprint, hread, -⟩ :=
    print_readText (denotes_toNode (.sourceless ⟨0⟩) (binary .plus a (binary .minus b c))) fits {}
  exact ⟨text, hprint, hread⟩

end OpTree

end ChapelSource
