import Mathlib.Data.List.Basic
import Mathlib.Logic.Equiv.List
import ChapelSource.Proofs.Grouping.RoundTrip
import ChapelSource.Proofs.Loose.Reading
import ChapelSource.Proofs.Loose.Text

/-!
# Loose trees with one text

The operators between the operands of a phrase make an operator tree, in which everything else is a
name. The phrase has the tokens of that tree, so it tells the tree up to regrouping and, part by part,
the loose tree that it is read from.

* `LooseTree.skeleton`: the operator tree of a loose tree.
* `Phrase.tokens`, `LooseTree.tokens_phrase`: the tokens of that tree, found in the phrase.
* `LooseTree.exists_of_rotates`: a loose tree is regrouped like its skeleton.
* `LooseTree.regroups_of_phrase_eq`, `LooseTree.Regroups.phrase_eq`: the trees with one phrase.
* **`Node.IsLoose.print_eq_iff_regroups`**: the trees with one text.
-/

namespace ChapelSource

open Relation

/-! ## Phrases as operands -/

theorem Primary.addField_inj {p q : Primary} {f g : LooseName}
    (h : p.addField f = q.addField g) : p = q ∧ f = g := by
  cases p with
  | name w fields =>
    cases q with
    | name v fields' =>
      injection h with hw hfields
      obtain ⟨rfl, hfield⟩ := List.append_inj' hfields rfl
      exact ⟨by rw [hw], (List.cons.inj hfield).1⟩
    | parens inside fields' => exact nomatch h
  | parens inside fields =>
    cases q with
    | name v fields' => exact nomatch h
    | parens inside' fields' =>
      injection h with hinside hfields
      obtain ⟨rfl, hfield⟩ := List.append_inj' hfields rfl
      exact ⟨by rw [hinside], (List.cons.inj hfield).1⟩

theorem Primary.addField_ne_name (p : Primary) (f : LooseName) (w : LooseName) :
    p.addField f ≠ .name w [] := by
  cases p with
  | name v fields => cases fields <;> exact nofun
  | parens inside fields => exact nofun

theorem Primary.addField_ne_parens (p : Primary) (f : LooseName) (q : Phrase) :
    p.addField f ≠ .parens q [] := by
  cases p with
  | name v fields => exact nofun
  | parens inside fields => cases fields <;> exact nofun

theorem Operations.append_assoc : ∀ ps qs rs : Operations,
    (ps.append qs).append rs = ps.append (qs.append rs)
  | .done, _, _ => rfl
  | .more o operand rest, qs, rs => congrArg (more o operand) (append_assoc rest qs rs)

theorem Phrase.join_ne (o : BinaryOp) (l r : Primary × Operations) (p : Primary) :
    join o l r ≠ operation p .done := by
  obtain ⟨first, rest⟩ := l
  cases rest <;> exact nofun

/-- Two operators in a row stand in it alike, whichever of them is inner. -/
theorem Phrase.join_join (o p : BinaryOp) (a b c : Primary × Operations) :
    join o a ((join p b c).operand false) = join p ((join o a b).operand false) c := by
  show operation a.1 (a.2.append (.more o b.1 (b.2.append (.more p c.1 c.2)))) =
    operation a.1 ((a.2.append (.more o b.1 b.2)).append (.more p c.1 c.2))
  rw [Operations.append_assoc, Operations.append]

/-- What stands in parentheses without members, or an operand alone. -/
def Primary.bare : Primary → Phrase
  | .parens q [] => q
  | p => .operation p .done

theorem Primary.bare_of_ne {p : Primary} (h : ∀ q, p ≠ .parens q []) :
    p.bare = .operation p .done := by
  cases p with
  | name w fields => rfl
  | parens inside fields =>
    cases fields with
    | nil => exact absurd rfl (h inside)
    | cons f fields => rfl

/-- The phrase of a tree is found in the operand that it makes. -/
theorem LooseTree.bare_tight (t : LooseTree) : t.phrase.tight.bare = t.phrase := by
  cases t with
  | dot receiver field =>
    rw [phrase]
    exact Primary.bare_of_ne (receiver.phrase.tight.addField_ne_parens field)
  | binary o l r => rw [phrase, Phrase.tight_join, Primary.bare]
  | name w => rfl
  | choice c a b => rfl
  | letIn bs => rfl
  | reduction kind op iterand => rfl
  | range bound lower upper => rfl

theorem LooseTree.phrase_eq_of_tight_eq {t u : LooseTree}
    (h : t.phrase.tight = u.phrase.tight) : t.phrase = u.phrase := by
  rw [← t.bare_tight, h, u.bare_tight]

/-! ## Operator trees -/

/-- A word for an operand. -/
def Primary.code (p : Primary) : Word := counter (Encodable.encode (p.chars.map Char.toNat))

theorem Primary.code_inj {p q : Primary} (h : p.code = q.code) : p = q := by
  have hnumbers := Encodable.encode_injective (counter_injective h)
  have hchars := List.map_injective_iff.2 (fun _ _ => Char.toNat_inj.1) hnumbers
  exact Primary.eq_of_chars_eq hchars

namespace LooseTree

/-- The binary operators at the root of a tree, with words for what stands between them. -/
def skeleton : LooseTree → OpTree
  | binary o l r => .binary o l.skeleton r.skeleton
  | t => .name t.phrase.tight.code

/-- What stands between the binary operators at the root of a tree. -/
def leaves : LooseTree → List LooseTree
  | binary _ l r => l.leaves ++ r.leaves
  | t => [t]

/-- The root of a tree is no binary operator. -/
def IsLeaf : LooseTree → Prop
  | binary _ _ _ => False
  | _ => True

theorem skeleton_binary (o : BinaryOp) (l r : LooseTree) :
    (binary o l r).skeleton = .binary o l.skeleton r.skeleton := by rw [skeleton]

theorem leaves_binary (o : BinaryOp) (l r : LooseTree) :
    (binary o l r).leaves = l.leaves ++ r.leaves := by rw [leaves]

theorem IsLeaf.skeleton_eq {t : LooseTree} (h : t.IsLeaf) :
    t.skeleton = .name t.phrase.tight.code := by
  cases t with
  | binary o l r => exact h.elim
  | _ => rfl

theorem IsLeaf.leaves_eq {t : LooseTree} (h : t.IsLeaf) : t.leaves = [t] := by
  cases t with
  | binary o l r => exact h.elim
  | _ => rfl

/-- Induction over the binary operators at the root of a tree. -/
theorem operators_induction {motive : LooseTree → Prop}
    (binary : ∀ o l r, motive l → motive r → motive (binary o l r))
    (leaf : ∀ t : LooseTree, t.IsLeaf → motive t) : ∀ t, motive t
  | .binary o l r =>
    binary o l r (operators_induction binary leaf l) (operators_induction binary leaf r)
  | .name _ => leaf _ trivial
  | .dot _ _ => leaf _ trivial
  | .choice _ _ _ => leaf _ trivial
  | .letIn _ => leaf _ trivial
  | .reduction _ _ _ => leaf _ trivial
  | .range _ _ _ => leaf _ trivial

theorem isLeaf_or_eq_binary (t : LooseTree) : t.IsLeaf ∨ ∃ o l r, t = binary o l r := by
  cases t with
  | binary o l r => exact .inr ⟨o, l, r, rfl⟩
  | _ => exact .inl trivial

theorem skeleton_eq_name_or_binary (t : LooseTree) :
    (∃ w, t.skeleton = .name w) ∨ ∃ o a b, t.skeleton = .binary o a b := by
  rcases t.isLeaf_or_eq_binary with ht | ⟨o, l, r, rfl⟩
  · exact .inl ⟨_, ht.skeleton_eq⟩
  · exact .inr ⟨_, _, _, skeleton_binary o l r⟩

theorem exists_of_skeleton_eq_binary {t : LooseTree} {o : BinaryOp} {a b : OpTree}
    (h : t.skeleton = .binary o a b) :
    ∃ l r, t = binary o l r ∧ l.skeleton = a ∧ r.skeleton = b := by
  rcases t.isLeaf_or_eq_binary with ht | ⟨p, l, r, rfl⟩
  · rw [ht.skeleton_eq] at h
    exact nomatch h
  · rw [skeleton_binary] at h
    cases h
    exact ⟨l, r, rfl, rfl, rfl⟩

theorem needsParens_skeleton (t : LooseTree) (o : BinaryOp) (onRight : Bool) :
    t.skeleton.needsParens o.operator onRight = t.needsParens o onRight := by
  cases t with
  | binary p l r =>
    rw [skeleton_binary]
    rfl
  | _ => rfl

theorem leadingFits_skeleton (t : LooseTree) : t.skeleton.LeadingFits := by
  induction t using operators_induction with
  | binary o l r ihl ihr =>
    rw [skeleton_binary]
    refine ⟨?_, ihl, ihr⟩
    rcases r.skeleton_eq_name_or_binary with ⟨w, hr⟩ | ⟨p, a, b, hr⟩ <;> rw [hr] <;> exact id
  | leaf t ht =>
    rw [ht.skeleton_eq]
    trivial

end LooseTree

/-! ## Tokens -/

mutual

/-- The tokens of a phrase as an operator tree. -/
def Phrase.tokens : Phrase → List Token
  | .operation first rest => first.tokens ++ rest.tokens
  | q => [.word (Primary.parens q []).code]

/-- The tokens of operators and operands. -/
def Operations.tokens : Operations → List Token
  | .done => []
  | .more o operand rest => .symbol o.symbol :: (operand.tokens ++ rest.tokens)

/-- The tokens of an operand. -/
def Primary.tokens : Primary → List Token
  | .parens (.operation first rest) [] =>
    .openParen :: (first.tokens ++ rest.tokens ++ [.closeParen])
  | p => [.word p.code]

end

theorem Primary.tokens_of_ne {p : Primary} (h : ∀ q, p ≠ .parens q []) :
    p.tokens = [.word p.code] := by
  cases p with
  | name w fields => rfl
  | parens inside fields =>
    cases fields with
    | nil => exact absurd rfl (h inside)
    | cons f fields => cases inside <;> rfl

theorem Operations.tokens_append : ∀ ps qs : Operations,
    (ps.append qs).tokens = ps.tokens ++ qs.tokens
  | .done, qs => by rw [append, tokens, List.nil_append]
  | .more o operand rest, qs => by
    rw [append, tokens, tokens, tokens_append rest qs, List.cons_append, List.append_assoc]

/-- The tokens of an operand with the operators that come with it. -/
def operandTokens (p : Primary × Operations) : List Token := p.1.tokens ++ p.2.tokens

theorem Phrase.tokens_join (o : BinaryOp) (l r : Primary × Operations) :
    (join o l r).tokens = operandTokens l ++ .symbol o.symbol :: operandTokens r := by
  rw [join, tokens, Operations.tokens_append, Operations.tokens, ← List.append_assoc]
  rfl

theorem Phrase.tokens_operand_false (p : Phrase) : operandTokens (p.operand false) = p.tokens := by
  cases p with
  | operation first rest => rfl
  | _ => rfl

theorem Phrase.tokens_operand_true (o : BinaryOp) (l r : Primary × Operations) :
    operandTokens ((join o l r).operand true) =
      .openParen :: ((join o l r).tokens ++ [.closeParen]) := List.append_nil _

namespace LooseTree

theorem tokens_operand {t : LooseTree} (h : t.phrase.tokens = t.skeleton.bracketed.tokens)
    (o : BinaryOp) (onRight : Bool) :
    operandTokens (t.phrase.operand (t.needsParens o onRight)) =
      (Bracketed.group (t.skeleton.needsParens o.operator onRight) t.skeleton.bracketed).tokens := by
  rw [needsParens_skeleton]
  cases hneeded : t.needsParens o onRight with
  | false =>
    rw [Phrase.tokens_operand_false]
    exact h
  | true =>
    rcases t.isLeaf_or_eq_binary with ht | ⟨p, l, r, rfl⟩
    · cases t with
      | binary p l r => exact ht.elim
      | _ => exact nomatch hneeded
    · rw [phrase] at h ⊢
      rw [Phrase.tokens_operand_true, h]
      rfl

theorem IsLeaf.tokens_phrase {t : LooseTree} (h : t.IsLeaf) :
    t.phrase.tokens = [.word t.phrase.tight.code] := by
  cases t with
  | binary o l r => exact h.elim
  | dot receiver field =>
    rw [phrase]
    exact (List.append_nil _).trans
      (Primary.tokens_of_ne (receiver.phrase.tight.addField_ne_parens field))
  | _ => rfl

/-- **The phrase of a tree has the tokens of its skeleton.** -/
theorem tokens_phrase (t : LooseTree) : t.phrase.tokens = t.skeleton.bracketed.tokens := by
  induction t using operators_induction with
  | binary o l r ihl ihr =>
    rw [phrase, Phrase.tokens_join, tokens_operand ihl, tokens_operand ihr, skeleton_binary]
    rfl
  | leaf t ht =>
    rw [ht.tokens_phrase, ht.skeleton_eq]
    rfl

theorem normal_skeleton_eq {t u : LooseTree} (h : t.phrase = u.phrase) :
    t.skeleton.normal = u.skeleton.normal := by
  have hread : ∀ v : LooseTree, readTokens v.phrase.tokens = some v.skeleton.normal := by
    intro v
    rw [tokens_phrase, ← Bracketed.tokens_normal,
      readTokens_tokens (OpTree.readable_normal _ v.leadingFits_skeleton.unexposed),
      OpTree.erase_normal_bracketed]
  have ht := hread t
  rw [h, hread u] at ht
  exact (Option.some.inj ht).symm

/-! ## Regrouping like the skeleton -/

/-- A step of the skeleton is one of the tree, which keeps what stands between the operators. -/
theorem exists_of_rotates {s s' : OpTree} (h : OpTree.Rotates s s') : ∀ t : LooseTree,
    t.skeleton = s → ∃ t' : LooseTree, t'.skeleton = s' ∧ t'.leaves = t.leaves ∧ Regroups t t' := by
  induction h with
  | @here o p a b c ho hop =>
    intro t ht
    obtain ⟨x, r, rfl, rfl, hr⟩ := exists_of_skeleton_eq_binary ht
    obtain ⟨y, z, rfl, rfl, rfl⟩ := exists_of_skeleton_eq_binary hr
    refine ⟨binary p (binary o x y) z, ?_, ?_, .rotate x y z ho hop⟩
    · rw [skeleton_binary, skeleton_binary]
    · simp only [leaves_binary, List.append_assoc]
  | leading o _ _ =>
    intro t ht
    rcases t.skeleton_eq_name_or_binary with ⟨w, h⟩ | ⟨p, a, b, h⟩ <;> exact nomatch h.symm.trans ht
  | trailing o _ _ =>
    intro t ht
    rcases t.skeleton_eq_name_or_binary with ⟨w, h⟩ | ⟨p, a, b, h⟩ <;> exact nomatch h.symm.trans ht
  | left o r _ ih =>
    intro t ht
    obtain ⟨x, y, rfl, hx, rfl⟩ := exists_of_skeleton_eq_binary ht
    obtain ⟨x', rfl, hleaves, hregroups⟩ := ih x hx
    refine ⟨binary o x' y, skeleton_binary _ _ _, ?_, .binary o hregroups (.refl y)⟩
    rw [leaves_binary, leaves_binary, hleaves]
  | right o l _ ih =>
    intro t ht
    obtain ⟨x, y, rfl, rfl, hy⟩ := exists_of_skeleton_eq_binary ht
    obtain ⟨y', rfl, hleaves, hregroups⟩ := ih y hy
    refine ⟨binary o x y', skeleton_binary _ _ _, ?_, .binary o (.refl x) hregroups⟩
    rw [leaves_binary, leaves_binary, hleaves]

theorem exists_skeleton_eq_normal (t : LooseTree) : ∃ t' : LooseTree,
    t'.skeleton = t.skeleton.normal ∧ t'.leaves = t.leaves ∧ Regroups t t' := by
  have h := OpTree.rotates_normal t.skeleton
  generalize t.skeleton.normal = s at h ⊢
  induction h with
  | refl => exact ⟨t, rfl, rfl, .refl t⟩
  | tail _ hstep ih =>
    obtain ⟨u, hskeleton, hleaves, hregroups⟩ := ih
    obtain ⟨v, hskeleton', hleaves', hregroups'⟩ := exists_of_rotates hstep u hskeleton
    exact ⟨v, hskeleton', hleaves'.trans hleaves, hregroups.trans hregroups'⟩

theorem regroups_of_skeleton_eq {t u : LooseTree} (h : t.skeleton = u.skeleton)
    (hleaves : ∀ x ∈ t.leaves, ∀ y, x.phrase = y.phrase → Regroups x y) : Regroups t u := by
  induction t using operators_induction generalizing u with
  | binary o l r ihl ihr =>
    rw [skeleton_binary] at h
    obtain ⟨l', r', rfl, hl, hr⟩ := exists_of_skeleton_eq_binary h.symm
    rw [leaves_binary] at hleaves
    exact .binary o (ihl hl.symm fun x hx => hleaves x (List.mem_append_left _ hx))
      (ihr hr.symm fun x hx => hleaves x (List.mem_append_right _ hx))
  | leaf t ht =>
    rw [ht.skeleton_eq] at h
    rcases u.isLeaf_or_eq_binary with hu | ⟨o, l, r, rfl⟩
    · rw [hu.skeleton_eq] at h
      have hphrase := phrase_eq_of_tight_eq (Primary.code_inj (OpTree.name.inj h))
      exact hleaves t (ht.leaves_eq ▸ List.mem_cons_self) u hphrase
    · rw [skeleton_binary] at h
      exact nomatch h

/-- Trees with one phrase regroup into each other if the first holds only leaves that do. -/
theorem regroups_of_leaves {t u : LooseTree} (h : t.phrase = u.phrase)
    (hleaves : ∀ x ∈ t.leaves, ∀ y, x.phrase = y.phrase → Regroups x y) : Regroups t u := by
  obtain ⟨t', ht', hkeeps, hregroups⟩ := t.exists_skeleton_eq_normal
  obtain ⟨u', hu', -, hregroups'⟩ := u.exists_skeleton_eq_normal
  have hskeleton : t'.skeleton = u'.skeleton := by rw [ht', normal_skeleton_eq h, hu']
  have hnormal : Regroups t' u' := regroups_of_skeleton_eq hskeleton (hkeeps ▸ hleaves)
  exact (hregroups.trans hnormal).trans hregroups'.symm

theorem sizeOf_le_of_mem_leaves {x t : LooseTree} (h : x ∈ t.leaves) : sizeOf x ≤ sizeOf t := by
  induction t using operators_induction with
  | binary o l r ihl ihr =>
    rw [leaves_binary] at h
    rw [binary.sizeOf_spec]
    rcases List.mem_append.1 h with h | h
    · have := ihl h
      omega
    · have := ihr h
      omega
  | leaf t ht =>
    rw [ht.leaves_eq] at h
    rw [List.mem_singleton.1 h]

theorem sizeOf_lt_of_mem_leaves {o : BinaryOp} {l r x : LooseTree}
    (h : x ∈ (binary o l r).leaves) : sizeOf x < 1 + sizeOf o + sizeOf l + sizeOf r := by
  rw [leaves_binary] at h
  rcases List.mem_append.1 h with h | h
  · have := sizeOf_le_of_mem_leaves h
    omega
  · have := sizeOf_le_of_mem_leaves h
    omega

/-! ## The trees with one phrase -/

mutual

/-- **Trees with one phrase regroup into each other.** -/
theorem regroups_of_phrase_eq : ∀ (t u : LooseTree), t.phrase = u.phrase → Regroups t u
  -- the operators at the root are compared all at once, whatever grouping the other tree has
  | binary o l r, u, h => regroups_of_leaves h fun x hx y hxy => by
    have hlt := sizeOf_lt_of_mem_leaves hx
    exact regroups_of_phrase_eq x y hxy
  | name w, u, h => by
    cases u with
    | name v =>
      cases h
      exact .refl _
    | dot receiver field =>
      rw [phrase, phrase] at h
      exact absurd (Phrase.operation.inj h).1.symm (Primary.addField_ne_name _ _ _)
    | binary o l r =>
      rw [phrase, phrase] at h
      exact absurd h.symm (Phrase.join_ne _ _ _ _)
    | _ => exact nomatch h
  | dot receiver field, u, h => by
    cases u with
    | name v =>
      rw [phrase, phrase] at h
      exact absurd (Phrase.operation.inj h).1 (Primary.addField_ne_name _ _ _)
    | dot receiver' field' =>
      rw [phrase, phrase] at h
      obtain ⟨htight, rfl⟩ := Primary.addField_inj (Phrase.operation.inj h).1
      exact .dot field (regroups_of_phrase_eq receiver receiver' (phrase_eq_of_tight_eq htight))
    | binary o l r =>
      rw [phrase, phrase] at h
      exact absurd h.symm (Phrase.join_ne _ _ _ _)
    | _ => exact nomatch h
  | choice c a b, u, h => by
    cases u with
    | choice c' a' b' =>
      rw [phrase, phrase] at h
      obtain ⟨hc, ha, hb⟩ := Phrase.choice.inj h
      exact .choice (regroups_of_phrase_eq c c' hc) (regroups_of_phrase_eq a a' ha)
        (regroups_of_phrase_eq b b' hb)
    | _ => exact nomatch h
  | letIn bs, u, h => by
    cases u with
    | letIn cs =>
      rw [phrase, phrase] at h
      exact .letIn (bindingsRegroup_of_phrase_eq bs cs (Phrase.letIn.inj h))
    | _ => exact nomatch h
  | reduction kind op iterand, u, h => by
    cases u with
    | reduction kind' op' iterand' =>
      rw [phrase, phrase] at h
      obtain ⟨rfl, rfl, htight⟩ := Phrase.reduction.inj h
      exact .reduction kind op
        (regroups_of_phrase_eq iterand iterand' (phrase_eq_of_tight_eq htight))
    | _ => exact nomatch h
  | range bound lower upper, u, h => by
    cases u with
    | range bound' lower' upper' =>
      cases h
      exact .refl _
    | _ => exact nomatch h
termination_by t => sizeOf t
decreasing_by
  all_goals simp_wf
  all_goals omega

theorem bindingsRegroup_of_phrase_eq :
    ∀ (bs cs : LooseBindings), bs.phrase = cs.phrase → BindingsRegroup bs cs
  | .last w init body, .last w' init' body', h => by
    rw [LooseBindings.phrase, LooseBindings.phrase] at h
    obtain ⟨rfl, hinit, hbody⟩ := PhraseBindings.last.inj h
    exact .last w (regroups_of_phrase_eq init init' hinit) (regroups_of_phrase_eq body body' hbody)
  | .more w init rest, .more w' init' rest', h => by
    rw [LooseBindings.phrase, LooseBindings.phrase] at h
    obtain ⟨rfl, hinit, hrest⟩ := PhraseBindings.more.inj h
    exact .more w (regroups_of_phrase_eq init init' hinit)
      (bindingsRegroup_of_phrase_eq rest rest' hrest)
termination_by bs => sizeOf bs

end

/-! ## Regrouping keeps the phrase -/

theorem needsParens_of_rank_eq {o p : BinaryOp} (h : o.rank = p.rank) (a b c d : LooseTree)
    (outer : BinaryOp) (onRight : Bool) :
    (binary o a b).needsParens outer onRight = (binary p c d).needsParens outer onRight := by
  have ho := o.precedence_operator
  rw [h] at ho
  show outer.operator.needsParens o.operator onRight = outer.operator.needsParens p.operator onRight
  rw [Operator.needsParens_of_ranks outer.precedence_operator ho,
    Operator.needsParens_of_ranks outer.precedence_operator p.precedence_operator]
  rfl

section Rotation

variable {o p : BinaryOp} (ho : o.regroups = true) (hop : o.rank = p.rank)

include ho hop

theorem needsParens_right_rotate (b c : LooseTree) :
    (binary p b c).needsParens o true = false := by
  rw [← needsParens_skeleton, OpTree.bare_right_iff, skeleton_binary]
  exact ⟨Nat.le_of_eq hop, fun h => absurd (ho.symm.trans h) (by decide)⟩

theorem needsParens_left_rotate (a b : LooseTree) :
    (binary o a b).needsParens p false = false := by
  rw [← needsParens_skeleton, OpTree.bare_left_iff, skeleton_binary]
  show p.rank < o.rightLevel
  rw [BinaryOp.rightLevel_of_regroups ho, hop]
  exact Nat.lt_succ_self _

/-- The operand between two operators of one rank is parenthesized in either grouping. -/
theorem needsParens_between (b : LooseTree) : b.needsParens o true = b.needsParens p false := by
  rw [← needsParens_skeleton, ← needsParens_skeleton, Bool.eq_iff_iff, ← not_iff_not,
    Bool.not_eq_true, Bool.not_eq_true, OpTree.bare_right_iff, OpTree.bare_left_iff]
  have hregroups : ∀ P : Prop, o.regroups = false → P := fun P h =>
    absurd (ho.symm.trans h) (by decide)
  rcases b.isLeaf_or_eq_binary with hb | ⟨q, x, y, rfl⟩
  · rw [hb.skeleton_eq]
    exact ⟨fun _ => trivial, fun _ => ⟨trivial, hregroups _⟩⟩
  · rw [skeleton_binary]
    show o.rank ≤ q.rank ∧ _ ↔ p.rank < q.rightLevel
    rw [← hop]
    constructor
    · rintro ⟨hle, -⟩
      have hmono := BinaryOp.rightLevel_mono hle
      rw [BinaryOp.rightLevel_of_regroups ho] at hmono
      exact hmono
    · intro hlt
      exact ⟨Nat.le_of_lt_succ (Nat.lt_of_lt_of_le hlt q.rightLevel_le), hregroups _⟩

theorem phrase_rotate (a b c : LooseTree) :
    (binary o a (binary p b c)).phrase = (binary p (binary o a b) c).phrase := by
  simp only [phrase, needsParens_right_rotate ho hop, needsParens_left_rotate ho hop,
    needsParens_between ho hop, Phrase.join_join]

end Rotation

mutual

/-- **Regrouping keeps the phrase**, and what is parenthesized as an operand. -/
theorem Regroups.phrase_eq : ∀ {t u : LooseTree}, Regroups t u →
    t.phrase = u.phrase ∧ ∀ o onRight, t.needsParens o onRight = u.needsParens o onRight
  | _, _, .rotate a b c ho hop =>
    ⟨phrase_rotate ho hop a b c, needsParens_of_rank_eq hop _ _ _ _⟩
  | _, _, .refl t => ⟨rfl, fun _ _ => rfl⟩
  | _, _, .symm h => ⟨h.phrase_eq.1.symm, fun o onRight => (h.phrase_eq.2 o onRight).symm⟩
  | _, _, .trans h k =>
    ⟨h.phrase_eq.1.trans k.phrase_eq.1,
      fun o onRight => (h.phrase_eq.2 o onRight).trans (k.phrase_eq.2 o onRight)⟩
  | _, _, .dot field h => by
    refine ⟨?_, fun _ _ => rfl⟩
    rw [phrase, phrase, h.phrase_eq.1]
  | _, _, .binary o hl hr => by
    obtain ⟨hlp, hln⟩ := hl.phrase_eq
    obtain ⟨hrp, hrn⟩ := hr.phrase_eq
    refine ⟨?_, fun _ _ => rfl⟩
    rw [phrase, phrase, hlp, hln, hrp, hrn]
  | _, _, .choice hc ha hb => by
    refine ⟨?_, fun _ _ => rfl⟩
    rw [phrase, phrase, hc.phrase_eq.1, ha.phrase_eq.1, hb.phrase_eq.1]
  | _, _, .letIn h => by
    refine ⟨?_, fun _ _ => rfl⟩
    rw [phrase, phrase, h.phrase_eq]
  | _, _, .reduction kind op h => by
    refine ⟨?_, fun _ _ => rfl⟩
    rw [phrase, phrase, h.phrase_eq.1]

theorem BindingsRegroup.phrase_eq : ∀ {bs cs : LooseBindings}, BindingsRegroup bs cs →
    bs.phrase = cs.phrase
  | _, _, .last w hi hb => by
    rw [LooseBindings.phrase, LooseBindings.phrase, hi.phrase_eq.1, hb.phrase_eq.1]
  | _, _, .more w hi h => by
    rw [LooseBindings.phrase, LooseBindings.phrase, hi.phrase_eq.1, h.phrase_eq]

end

end LooseTree

/-! ## The trees with one text -/

/-- **Two loose trees share their text exactly if they regroup into each other.** -/
theorem Node.IsLoose.print_eq_iff_regroups {n m : Node} {t u : LooseTree} (hn : n.IsLoose t)
    (hm : m.IsLoose u) (o : PrintOptions) : n.print o = m.print o ↔ t.Regroups u := by
  rw [hn.print_eq, hm.print_eq]
  constructor
  · intro h
    have hchars := String.ofList_injective (Except.ok.inj h)
    exact LooseTree.regroups_of_phrase_eq t u (Phrase.eq_of_chars_eq hchars)
  · intro h
    rw [h.phrase_eq.1]

namespace LooseTree

/-- The trees `(s reduce a) + (b - c)` and `(s reduce a) + b - c`. -/
theorem print_eq_iff_regroups_sum :
    let a : LooseName := ⟨.single 'a' (by decide), by decide⟩
    let b := name ⟨.single 'b' (by decide), by decide⟩
    let c := name ⟨.single 'c' (by decide), by decide⟩
    let x := reduction .reduce ⟨.single 's' (by decide), by decide⟩ (name a)
    let t := binary .plus x (binary .minus b c)
    let u := binary .minus (binary .plus x b) c
    (t.toNode (.sourceless ⟨0⟩)).IsLoose t ∧ (u.toNode (.sourceless ⟨0⟩)).IsLoose u ∧
      (t.toNode (.sourceless ⟨0⟩)).print {} = (u.toNode (.sourceless ⟨0⟩)).print {} ∧
      t.Regroups u := by
  intro a b c x t u
  have ht := isLoose_toNode (.sourceless ⟨0⟩) t
  have hu := isLoose_toNode (.sourceless ⟨0⟩) u
  have heq : (t.toNode (.sourceless ⟨0⟩)).print {} = (u.toNode (.sourceless ⟨0⟩)).print {} := by
    rw [ht.print_eq, hu.print_eq]
    rfl
  exact ⟨ht, hu, heq, (ht.print_eq_iff_regroups hu {}).1 heq⟩

end LooseTree

end ChapelSource
