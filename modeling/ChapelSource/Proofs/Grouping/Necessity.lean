import ChapelSource.Proofs.Grouping.Exposed
import ChapelSource.Proofs.Grouping.Settling
import ChapelSource.Proofs.Grouping.Unwrapping

/-!
# No parentheses are redundant

A printed tree is read as its normal form. When a pair of parentheses is deleted from its text, what
is left can still be read, but as another tree: the normal form without that pair is not readable.

* `Bracketed.Attaches.exists_unwraps`: a pair of a regrouped tree is a pair of one of its operands.
* **`OpTree.not_readable_of_unwraps`**: every pair of a printed tree is needed to read it.
* **`OpTree.print_parens_needed`**: without a pair of parentheses another tree is read.
-/

namespace ChapelSource

namespace Bracketed

/-! ## Pairs in regrouped trees -/

section Attach

variable {o : BinaryOp} {l r c : Bracketed}

theorem Attaches.right_of_readable (h : Attaches o l r c) (hc : c.Readable) :
    r.BindsAt o.rank ∧ r.Readable := by
  induction h with
  | stay _ => exact ⟨hc.2.1.mono o.rank_le_rightLevel, hc.2.2⟩
  | rotate _ hp hat ih =>
    obtain ⟨⟨-, hcloses, hread⟩, hright⟩ := hc
    obtain ⟨hbinds, hb⟩ := ih hread
    rw [hp] at hbinds
    exact ⟨Nat.le_of_eq hp, ⟨hbinds, (hat.closes_iff.mp hcloses).2, hb⟩, hright⟩

/-- If a tree is readable after it has lost a pair, one of its operands has lost it, and this operand
is readable where it stood before it changed sides. -/
theorem Attaches.exists_unwraps {d : Bracketed} (h : Attaches o l r c) (hu : Unwraps c d)
    (hd : d.Readable) :
    (∃ l', Unwraps l l' ∧ l'.Closes o ∧ l'.Readable) ∨
      ∃ r', Unwraps r r' ∧ r'.BindsAt o.rank ∧ (o.regroups = false → r'.BindsAt o.rightLevel) ∧
        r'.Readable ∧ ∀ k, d.Closes k → r'.Closes k := by
  induction h generalizing d with
  | stay _ =>
    cases hu with
    | left _ _ hl => exact .inl ⟨_, hl, hd.1.2⟩
    | right _ _ hr =>
      obtain ⟨-, hlevel, hread⟩ := hd
      exact .inr ⟨_, hr, hlevel.mono o.rank_le_rightLevel, fun _ => hlevel, hread, fun _ h => h.2⟩
  | @rotate p b b' c ho hp hat ih =>
    -- In the right operand `p` comes right after `b`, which might take it without the pair: this is
    -- why the statement speaks of the operators that are closed.
    have hregroups : o.regroups = false → False := fun h => absurd (ho.symm.trans h) (by decide)
    cases hu with
    | left _ _ hb =>
      obtain ⟨⟨-, hcloses, hread⟩, hright⟩ := hd
      rcases ih hb hread with hl | ⟨b'', hunwraps, hbinds, -, hread', hcloses'⟩
      · exact .inl hl
      · rw [hp] at hbinds
        have hleft := hcloses' p hcloses
        refine .inr ⟨binary p b'' c, .left p c hunwraps, Nat.le_of_eq hp, ?_, ?_, fun _ h => h⟩
        · exact fun h => (hregroups h).elim
        · exact ⟨⟨hbinds, hleft, hread'⟩, hright⟩
    | right _ _ hc =>
      obtain ⟨⟨-, hcloses, hread⟩, hright⟩ := hd
      obtain ⟨hbinds, hb⟩ := hat.right_of_readable hread
      rw [hp] at hbinds
      have hleft := (hat.closes_iff.mp hcloses).2
      refine .inr ⟨_, .right p b hc, Nat.le_of_eq hp, ?_, ?_, fun _ h => h⟩
      · exact fun h => (hregroups h).elim
      · exact ⟨⟨hbinds, hleft, hb⟩, hright⟩

end Attach

/-- If all pairs inside an operand are needed, the only other one is around it. -/
theorem Unwraps.eq_of_group {needed : Bool} {c d : Bracketed} (h : Unwraps (group needed c) d)
    (hc : ∀ {c'}, Unwraps c c' → ¬ c'.Readable) (hd : d.Readable) : needed = true ∧ d = c := by
  cases needed with
  | false => exact absurd hd (hc h)
  | true =>
    have h : Unwraps (Bracketed.parens c) d := h
    cases h with
    | here _ => exact ⟨rfl, rfl⟩
    | parens hinside => exact (hc hinside hd).elim

end Bracketed

namespace OpTree

open Bracketed

/-! ## Every pair is needed -/

/-- **Every pair of parentheses of a printed tree is needed to read it.** -/
theorem not_readable_of_unwraps (t : OpTree) {d : Bracketed} (h : Unwraps t.bracketed.normal d) :
    ¬ d.Readable := by
  intro hd
  -- A pair is lost inside an operand, where the induction applies, or around it, where it stands
  -- because the operand does not fit without.
  induction t generalizing d with
  | name w => nomatch h
  | leading o e ih =>
    rw [bracketed, Bracketed.normal, normal_group] at h
    cases h with
    | leading _ he =>
      obtain ⟨hneeded, rfl⟩ := he.eq_of_group (fun h => ih h) hd.2
      have hbare : e.needsParens o.operator true = false :=
        bare_leading_iff.mpr (bindsAt_normal_bracketed.mp hd.1)
      exact absurd hbare (ne_false_of_eq_true hneeded)
  | trailing e o ih =>
    rw [bracketed, Bracketed.normal, normal_group] at h
    cases h with
    | trailing _ he =>
      obtain ⟨hneeded, rfl⟩ := he.eq_of_group (fun h => ih h) hd.2
      have hbare : e.needsParens o.operator false = false :=
        bare_trailing_iff.mpr (isPrimary_normal_bracketed.mp hd.1)
      exact absurd hbare (ne_false_of_eq_true hneeded)
  | binary o l r ihl ihr =>
    rw [bracketed, Bracketed.normal, normal_group, normal_group] at h
    rcases (attaches_attach o _ _).exists_unwraps h hd with
      ⟨l', hl, hcloses, hread⟩ | ⟨r', hr, hbinds, hlevel, hread, -⟩
    · obtain ⟨hneeded, rfl⟩ := hl.eq_of_group (fun h => ihl h) hread
      have hbare : l.needsParens o.operator false = false :=
        bare_left_iff.mpr (endsAt_of_closes ((closes_normal _ _).mp hcloses))
      exact absurd hbare (ne_false_of_eq_true hneeded)
    · obtain ⟨hneeded, rfl⟩ := hr.eq_of_group (fun h => ihr h) hread
      have hbare : r.needsParens o.operator true = false := bare_right_iff.mpr
        ⟨bindsAt_normal_bracketed.mp hbinds, fun ho => bindsAt_normal_bracketed.mp (hlevel ho)⟩
      exact absurd hbare (ne_false_of_eq_true hneeded)

/-- Without a pair of its parentheses the text of a tree is read as another tree than the normal
form. -/
theorem readText_without_pair (t : OpTree) {p m s : List Char} (hm : Paired m)
    (h : t.bracketed.chars false = p ++ '(' :: (m ++ ')' :: s)) :
    ∃ v, readText (String.ofList (p ++ (m ++ s))) = some v ∧ v ≠ t.normal := by
  rw [← chars_normal] at h
  obtain ⟨d, hd, hchars⟩ := exists_unwraps hm h
  refine ⟨d.settle.erase, hchars ▸ readText_chars d, fun heq => ?_⟩
  rw [← erase_normal_bracketed, ← hd.erase_eq] at heq
  have hsettled : d.settle = d := eq_of_chars_eq heq (chars_settle false d)
  exact not_readable_of_unwraps t hd (hsettled ▸ readable_settle d)

/-- **A printed tree without misplaced leading operators has no redundant parentheses**: when any
pair of them that belongs together is deleted from the text, the rest can be read, but is read as
another tree. -/
theorem print_parens_needed {n : Node} {t : OpTree} (hn : n.Denotes t) (ht : t.LeadingFits)
    (o : PrintOptions) :
    ∃ text u, n.print o = .ok text ∧ readText text = some u ∧
      ∀ before inside after : String, text = before ++ "(" ++ inside ++ ")" ++ after →
        Paired inside.toList → ∃ v, readText (before ++ inside ++ after) = some v ∧ v ≠ u := by
  refine ⟨t.text false, t.normal, hn.print_eq o, readText_text ht.unexposed, ?_⟩
  intro before inside after htext hinside
  have hchars : t.bracketed.chars false =
      before.toList ++ '(' :: (inside.toList ++ ')' :: after.toList) := by
    have htoList := congrArg String.toList htext
    simpa [text] using htoList
  obtain ⟨v, hread, hne⟩ := readText_without_pair t hinside hchars
  refine ⟨v, ?_, hne⟩
  rw [← hread]
  simp [String.append_assoc]

/-- In the text `a * (-b) * c` of `a * ((-b) * c)` the parentheses are needed, though the `*` before
them takes `-b` without any: what they keep out is the `*` after them. -/
theorem print_parens_needed_product :
    let a := name (.single 'a' (by decide))
    let b := name (.single 'b' (by decide))
    let c := name (.single 'c' (by decide))
    let t := binary .times a (binary .times (leading .minus b) c)
    (t.toNode (.sourceless ⟨0⟩)).Denotes t ∧ t.LeadingFits ∧
      (t.toNode (.sourceless ⟨0⟩)).print {} = .ok "a * (-b) * c" ∧ Paired "-b".toList ∧
      ∃ u v, readText "a * (-b) * c" = some u ∧ readText "a * -b * c" = some v ∧ v ≠ u := by
  intro a b c t
  have hn := denotes_toNode (.sourceless ⟨0⟩) t
  have ht : t.LeadingFits := ⟨id, trivial, id, ⟨id, trivial⟩, trivial⟩
  have hpaired : Paired "-b".toList := by decide
  obtain ⟨text, u, hprint, hread, hneeded⟩ := print_parens_needed hn ht {}
  obtain rfl : text = "a * (-b) * c" := by
    rw [hn.print_eq] at hprint
    exact (Except.ok.inj hprint).symm
  obtain ⟨v, hv, hne⟩ := hneeded "a * " "-b" " * c" rfl hpaired
  exact ⟨hn, ht, hprint, hpaired, u, v, hread, hv, hne⟩

end OpTree

end ChapelSource
