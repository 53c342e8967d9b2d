import ChapelSource.Grouping.Bracketed
import ChapelSource.Proofs.Word

/-!
# Pairs of parentheses in the text of a tree

A pair of parentheses in the text of a tree is a pair of the tree: without it the text is that of the
tree that has lost the pair. And the parentheses in a text leave no choice where they are in the tree.

* `Paired.append`, `Paired.append_close_inj`, `Paired.pair_of_append`: pairs in parts of a text.
* `Bracketed.paired_chars`: in the text of a tree every parenthesis has its partner.
* `Bracketed.Unwraps`: a tree and what is left of it without one of its pairs.
* **`Bracketed.exists_unwraps`**: the tree that has lost a pair of its text.
* `OpTree.width`: the length of a text without its parentheses.
* **`Bracketed.eq_of_chars_eq`**: operators, names and text of a tree determine its parentheses.
-/

namespace ChapelSource

/-! ## Pairs in a text -/

namespace Paired

variable {cs ds xs ys p m s : List Char}

theorem append (hc : Paired cs) (hd : Paired ds) : Paired (cs ++ ds) where
  count_eq := by rw [List.count_append, List.count_append, hc.count_eq, hd.count_eq]
  count_le := by
    rintro es ⟨fs, h⟩
    rcases List.append_eq_append_iff.mp h with ⟨as, hcs, -⟩ | ⟨bs, hes, hds⟩
    · exact hc.count_le es ⟨as, hcs.symm⟩
    · rw [hes, List.count_append, List.count_append, hc.count_eq]
      exact Nat.add_le_add_left (hd.count_le bs ⟨fs, hds.symm⟩) _

theorem enclosed (h : Paired cs) : Paired ('(' :: (cs ++ [')'])) where
  count_eq := by simp [h.count_eq]
  count_le := by
    intro ds hd
    rcases List.prefix_cons_iff.mp hd with rfl | ⟨es, rfl, he⟩
    · exact Nat.le_refl _
    · rcases List.prefix_concat_iff.mp he with rfl | he
      · simp [h.count_eq]
      · have hle := h.count_le es he
        simp only [List.count_cons_self, List.count_cons_of_ne (by decide : '(' ≠ ')')]
        omega

theorem append_close_ne (hx : Paired xs) (hm : Paired m) (ys : List Char) :
    xs ++ ')' :: ys ≠ m := by
  rintro rfl
  have hle := hm.count_le (xs ++ [')']) ⟨ys, List.append_assoc _ _ _⟩
  rw [List.count_append, List.count_append, hx.count_eq] at hle
  exact absurd (Nat.le_of_add_le_add_left hle) (by decide)

/-- The text before the first closing parenthesis without a partner is determined. -/
theorem append_close_inj (hx : Paired xs) (hm : Paired m) (h : xs ++ ')' :: ys = m ++ ')' :: s) :
    xs = m ∧ ys = s := by
  rcases List.append_eq_append_iff.mp h with ⟨as, has, hys⟩ | ⟨bs, hbs, hs⟩
  · cases as with
    | nil => exact ⟨by rw [has, List.append_nil], (List.cons.inj hys).2⟩
    | cons a as =>
      obtain rfl := (List.cons.inj hys).1
      exact absurd has.symm (hx.append_close_ne hm as)
  · cases bs with
    | nil => exact ⟨by rw [hbs, List.append_nil], (List.cons.inj hs).2.symm⟩
    | cons b bs =>
      obtain rfl := (List.cons.inj hs).1
      exact absurd hbs.symm (hm.append_close_ne hx bs)

/-- What follows an opening parenthesis in a paired text has one closing parenthesis too many to be
the start of a paired text. -/
theorem not_prefix_of_open (hx : Paired (p ++ '(' :: cs)) (hm : Paired m) : ¬ cs <+: m := by
  intro h
  have heq := hx.count_eq
  have hp := hx.count_le p (List.prefix_append _ _)
  have hcs := hm.count_le cs h
  simp only [List.count_append, List.count_cons_self,
    List.count_cons_of_ne (by decide : '(' ≠ ')')] at heq
  omega

/-- A pair of parentheses does not reach out of a paired text into what follows it. -/
theorem pair_of_append (hx : Paired xs) (hm : Paired m)
    (h : xs ++ ys = p ++ '(' :: (m ++ ')' :: s)) :
    (∃ s', xs = p ++ '(' :: (m ++ ')' :: s') ∧ s = s' ++ ys) ∨
      ∃ p', p = xs ++ p' ∧ ys = p' ++ '(' :: (m ++ ')' :: s) := by
  rcases List.append_eq_append_iff.mp h with ⟨p', hp, hys⟩ | ⟨q, hxs, hq⟩
  · exact .inr ⟨p', hp, hys⟩
  · cases q with
    | nil => exact .inr ⟨[], by rw [hxs, List.append_nil, List.append_nil], hq.symm⟩
    | cons a q =>
      obtain ⟨rfl, hrest⟩ := List.cons.inj hq
      rw [hxs] at hx
      have hopen := hx.not_prefix_of_open hm
      rcases List.append_eq_append_iff.mp hrest with ⟨as, hqm, hs⟩ | ⟨bs, hmq, -⟩
      · cases as with
        | nil => exact absurd ⟨[], hqm.symm ▸ by simp⟩ hopen
        | cons a s' =>
          obtain ⟨rfl, hs'⟩ := List.cons.inj hs
          exact .inl ⟨s', by rw [hxs, hqm], hs'⟩
      · exact absurd ⟨bs, hmq.symm⟩ hopen

end Paired

/-! ## Texts without parentheses -/

/-- A character that is no parenthesis. -/
def isBare (c : Char) : Bool := c != '(' && c != ')'

theorem not_mem_of_bare {cs : List Char} (h : cs.all isBare = true) : '(' ∉ cs ∧ ')' ∉ cs :=
  ⟨fun hc => absurd (List.all_eq_true.mp h _ hc) (by decide),
    fun hc => absurd (List.all_eq_true.mp h _ hc) (by decide)⟩

theorem paired_of_bare {cs : List Char} (h : cs.all isBare = true) : Paired cs where
  count_eq := by
    rw [List.count_eq_zero.mpr (not_mem_of_bare h).1, List.count_eq_zero.mpr (not_mem_of_bare h).2]
  count_le ds hd := by
    rw [List.count_eq_zero.mpr fun hc => (not_mem_of_bare h).2 (hd.subset hc)]
    exact Nat.zero_le _

theorem countP_of_bare {cs : List Char} (h : cs.all isBare = true) :
    cs.countP isBare = cs.length :=
  List.countP_eq_length.mpr (List.all_eq_true.mp h)

theorem ne_pair_of_bare {cs p m s : List Char} (h : cs.all isBare = true) :
    cs ≠ p ++ '(' :: (m ++ ')' :: s) := by
  rintro rfl
  exact (not_mem_of_bare h).1 (by simp)

theorem Word.bare_chars (w : Word) : w.chars.all isBare = true := by
  refine List.all_eq_true.mpr fun c hc => ?_
  have hword := w.isWordChar_of_mem c hc
  rw [isBare, Bool.and_eq_true, bne_iff_ne, bne_iff_ne]
  constructor <;> rintro rfl <;> exact absurd hword (by decide)

theorem LeadingOp.bare_symbol (o : LeadingOp) : o.symbol.toList.all isBare = true := by
  cases o <;> decide

theorem TrailingOp.bare_symbol (o : TrailingOp) : o.symbol.toList.all isBare = true := by
  cases o <;> decide

namespace Bracketed

variable (inType : Bool)

theorem bare_symbolChars (o : BinaryOp) : (symbolChars inType o).all isBare = true := by
  cases inType <;> cases o <;> decide

/-- **In the text of a tree every parenthesis has its partner.** -/
theorem paired_chars (c : Bracketed) : Paired (c.chars inType) := by
  induction c with
  | name w => exact paired_of_bare w.bare_chars
  | parens c ih => exact ih.enclosed
  | leading o e ih => exact (paired_of_bare o.bare_symbol).append ih
  | trailing e o ih => exact ih.append (paired_of_bare o.bare_symbol)
  | binary o l r ihl ihr => exact ihl.append ((paired_of_bare (bare_symbolChars inType o)).append ihr)

/-! ## The pairs of a tree -/

/-- A tree loses one pair of its parentheses, at any depth. -/
inductive Unwraps : Bracketed → Bracketed → Prop where
  | here (c : Bracketed) : Unwraps (parens c) c
  | parens {c d : Bracketed} : Unwraps c d → Unwraps (parens c) (parens d)
  | leading (o : LeadingOp) {e e' : Bracketed} : Unwraps e e' → Unwraps (leading o e) (leading o e')
  | trailing (o : TrailingOp) {e e' : Bracketed} :
      Unwraps e e' → Unwraps (trailing e o) (trailing e' o)
  | left (o : BinaryOp) {l l' : Bracketed} (r : Bracketed) :
      Unwraps l l' → Unwraps (binary o l r) (binary o l' r)
  | right (o : BinaryOp) (l : Bracketed) {r r' : Bracketed} :
      Unwraps r r' → Unwraps (binary o l r) (binary o l r')

variable {inType}

theorem Unwraps.erase_eq {c d : Bracketed} (h : Unwraps c d) : d.erase = c.erase := by
  induction h with
  | here c => rfl
  | parens _ ih => exact ih
  | leading o _ ih => rw [erase, ih, erase]
  | trailing o _ ih => rw [erase, ih, erase]
  | left o r _ ih => rw [erase, ih, erase]
  | right o l _ ih => rw [erase, ih, erase]

/-- **Without a pair of its parentheses the text of a tree is that of the tree that has lost a
pair.** -/
theorem exists_unwraps {c : Bracketed} {p m s : List Char} (hm : Paired m)
    (h : c.chars inType = p ++ '(' :: (m ++ ')' :: s)) :
    ∃ d, Unwraps c d ∧ d.chars inType = p ++ (m ++ s) := by
  induction c generalizing p s with
  | name w => exact absurd h (ne_pair_of_bare w.bare_chars)
  | parens c ih =>
    have hc := paired_chars inType c
    cases p with
    | nil =>
      obtain ⟨hin, hs⟩ := hc.append_close_inj hm (List.cons.inj h).2
      exact ⟨c, .here c, by rw [hin, ← hs, List.append_nil, List.nil_append]⟩
    | cons a p =>
      obtain ⟨rfl, hrest⟩ := List.cons.inj h
      rcases hc.pair_of_append hm hrest with ⟨s', hin, hs⟩ | ⟨p', -, hout⟩
      · obtain ⟨d, hd, hchars⟩ := ih hin
        exact ⟨parens d, .parens hd, by simp [chars, hchars, hs]⟩
      · have hcount := congrArg (List.count '(') hout
        simp at hcount
  | leading o e ih =>
    rcases (paired_of_bare o.bare_symbol).pair_of_append hm h with ⟨s', hin, -⟩ | ⟨p', hp, hout⟩
    · exact absurd hin (ne_pair_of_bare o.bare_symbol)
    · obtain ⟨d, hd, hchars⟩ := ih hout
      exact ⟨leading o d, .leading o hd, by rw [chars, hchars, hp, List.append_assoc]⟩
  | trailing e o ih =>
    rcases (paired_chars inType e).pair_of_append hm h with ⟨s', hin, hs⟩ | ⟨p', -, hout⟩
    · obtain ⟨d, hd, hchars⟩ := ih hin
      exact ⟨trailing d o, .trailing o hd, by simp [chars, hchars, hs]⟩
    · exact absurd hout (ne_pair_of_bare o.bare_symbol)
  | binary o l r ihl ihr =>
    rcases (paired_chars inType l).pair_of_append hm h with ⟨s', hin, hs⟩ | ⟨p', hp, hout⟩
    · obtain ⟨d, hd, hchars⟩ := ihl hin
      exact ⟨binary o d r, .left o r hd, by simp [chars, hchars, hs]⟩
    · have hsymbol := bare_symbolChars inType o
      rcases (paired_of_bare hsymbol).pair_of_append hm hout with ⟨s', hin, -⟩ | ⟨p'', hp', hout⟩
      · exact absurd hin (ne_pair_of_bare hsymbol)
      · obtain ⟨d, hd, hchars⟩ := ihr hout
        exact ⟨binary o l d, .right o l hd, by simp [chars, hchars, hp, hp']⟩

end Bracketed

/-! ## One tree, one text, one way to write it -/

/-- The length of the text of a tree, parentheses not counted. -/
def OpTree.width (inType : Bool) : OpTree → Nat
  | name w => w.chars.length
  | leading o e => o.symbol.toList.length + e.width inType
  | trailing e o => e.width inType + o.symbol.toList.length
  | binary o l r =>
    l.width inType + ((Bracketed.symbolChars inType o).length + r.width inType)

theorem OpTree.width_pos (inType : Bool) (t : OpTree) : 0 < t.width inType := by
  induction t with
  | name w => exact List.length_pos_iff.mpr w.chars_ne_nil
  | leading o e ih => exact Nat.add_pos_right _ ih
  | trailing e o ih => exact Nat.add_pos_left ih _
  | binary o l r ih => exact Nat.add_pos_left ih _

namespace Bracketed

variable {inType : Bool}

theorem countP_chars (c : Bracketed) :
    (c.chars inType).countP isBare = c.erase.width inType := by
  induction c with
  | name w => exact countP_of_bare w.bare_chars
  | parens c ih =>
    rw [chars, List.countP_cons_of_neg (by decide), List.countP_append, ih]
    rfl
  | leading o e ih => rw [chars, List.countP_append, countP_of_bare o.bare_symbol, ih]; rfl
  | trailing e o ih => rw [chars, List.countP_append, countP_of_bare o.bare_symbol, ih]; rfl
  | binary o l r ihl ihr =>
    rw [chars, List.countP_append, List.countP_append, countP_of_bare (bare_symbolChars inType o),
      ihl, ihr]
    rfl

theorem chars_ne_nil (c : Bracketed) : c.chars inType ≠ [] := by
  induction c with
  | name w => exact w.chars_ne_nil
  | parens c => exact List.cons_ne_nil _ _
  | leading o e ih => exact List.append_ne_nil_of_right_ne_nil _ ih
  | trailing e o ih => exact List.append_ne_nil_of_left_ne_nil ih _
  | binary o l r ih => exact List.append_ne_nil_of_left_ne_nil ih _

theorem chars_append_ne {c e : Bracketed} (h : e.erase.width inType < c.erase.width inType)
    (ys s : List Char) :
    e.chars inType ++ ys ≠ '(' :: (c.chars inType ++ ')' :: s) := by
  intro heq
  rcases (paired_chars inType e).pair_of_append (p := []) (paired_chars inType c) heq with
    ⟨s', hin, -⟩ | ⟨p', hp, -⟩
  · have hcount := congrArg (List.countP isBare) hin
    rw [countP_chars, List.nil_append, List.countP_cons_of_neg (by decide), List.countP_append, countP_chars] at hcount
    omega
  · exact chars_ne_nil e (List.append_eq_nil_iff.mp hp.symm).1

/-- The text of a tree starts with a whole tree in parentheses only if it is that tree. -/
theorem exists_eq_parens {c d : Bracketed} (he : (parens c).erase = d.erase) {cs ds : List Char}
    (h : (parens c).chars inType ++ cs = d.chars inType ++ ds) : ∃ d', d = parens d' := by
  have hopen : d.chars inType ++ ds = '(' :: (c.chars inType ++ ')' :: cs) := by
    rw [← h, chars, List.cons_append, List.append_assoc, List.singleton_append]
  have narrower : ∀ {e : Bracketed} {ys : List Char}, d.chars inType ++ ds = e.chars inType ++ ys →
      ¬ e.erase.width inType < d.erase.width inType := by
    intro e ys heq hlt
    rw [← he, erase] at hlt
    exact chars_append_ne hlt ys cs (heq ▸ hopen)
  cases d with
  | parens d => exact ⟨d, rfl⟩
  | name w =>
    obtain ⟨k, ks, hchars, hk⟩ := w.exists_chars
    rw [chars, hchars] at hopen
    rw [(List.cons.inj hopen).1] at hk
    exact absurd hk (by decide)
  | leading o e => cases o <;> exact absurd (List.cons.inj hopen).1 (by decide)
  | trailing e o =>
    refine absurd ?_ (narrower (List.append_assoc _ _ _))
    cases o <;> exact Nat.lt_succ_self _
  | binary o l r =>
    refine absurd ?_ (narrower (List.append_assoc _ _ _))
    have hr := r.erase.width_pos inType
    rw [erase, OpTree.width]
    omega

/-- Operators, names and the front of a text determine a tree with its parentheses. -/
theorem eq_of_chars_append_eq {c d : Bracketed} (he : c.erase = d.erase) {cs ds : List Char}
    (h : c.chars inType ++ cs = d.chars inType ++ ds) : c = d ∧ cs = ds := by
  induction c generalizing d cs ds with
  | parens c ih =>
    obtain ⟨d, rfl⟩ := exists_eq_parens he h
    have hinside : c.erase = d.erase := he
    rw [chars, chars, List.cons_append, List.cons_append, List.append_assoc, List.append_assoc] at h
    obtain ⟨rfl, hrest⟩ := ih hinside (List.cons.inj h).2
    exact ⟨rfl, (List.cons.inj hrest).2⟩
  | name w =>
    cases d with
    | name v =>
      obtain rfl := OpTree.name.inj he
      exact ⟨rfl, List.append_cancel_left h⟩
    | parens d => obtain ⟨_, ⟨⟩⟩ := exists_eq_parens he.symm h.symm
    | _ => exact nomatch he
  | leading o e ih =>
    cases d with
    | leading p f =>
      obtain ⟨rfl, hoperand⟩ := OpTree.leading.inj he
      rw [chars, chars, List.append_assoc, List.append_assoc] at h
      obtain ⟨rfl, hrest⟩ := ih hoperand (List.append_cancel_left h)
      exact ⟨rfl, hrest⟩
    | parens d => obtain ⟨_, ⟨⟩⟩ := exists_eq_parens he.symm h.symm
    | _ => exact nomatch he
  | trailing e o ih =>
    cases d with
    | trailing f p =>
      obtain ⟨hoperand, rfl⟩ := OpTree.trailing.inj he
      rw [chars, chars, List.append_assoc, List.append_assoc] at h
      obtain ⟨rfl, hrest⟩ := ih hoperand h
      exact ⟨rfl, List.append_cancel_left hrest⟩
    | parens d => obtain ⟨_, ⟨⟩⟩ := exists_eq_parens he.symm h.symm
    | _ => exact nomatch he
  | binary o l r ihl ihr =>
    cases d with
    | binary p a b =>
      obtain ⟨rfl, hl, hr⟩ := OpTree.binary.inj he
      simp only [chars, List.append_assoc] at h
      obtain ⟨rfl, hmiddle⟩ := ihl hl h
      obtain ⟨rfl, hrest⟩ := ihr hr (List.append_cancel_left hmiddle)
      exact ⟨rfl, hrest⟩
    | parens d => obtain ⟨_, ⟨⟩⟩ := exists_eq_parens he.symm h.symm
    | _ => exact nomatch he

/-- **Operators, names and text of a tree determine its parentheses.** -/
theorem eq_of_chars_eq {c d : Bracketed} (he : c.erase = d.erase)
    (h : c.chars inType = d.chars inType) : c = d :=
  (eq_of_chars_append_eq he (congrArg (· ++ []) h)).1

end Bracketed

end ChapelSource
