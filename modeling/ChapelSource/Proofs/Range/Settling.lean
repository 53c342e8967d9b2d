import ChapelSource.Proofs.Range.Text

/-!
# Ranges that share a text

The tree of the phrase that is read from a text has names as its lower bounds. So a range with any
other lower bound has the text of another expression.

* `RangePhrase.phrase_tree`: the tree of a phrase is read as the phrase.
* `RangeTree.settle_eq_iff_plainLower`: the trees that settling keeps.
* **`Node.IsRange.print_eq_iff_settle`**, `RangeTree.print_eq_iff_settle_letIn`: the trees that
  share a text.
* **`RangeTree.range_of_range_eq`**: two ranges that do.
-/

namespace ChapelSource

/-! ## The tree of a phrase -/

namespace RangePhrase

mutual

theorem phrase_tree : ∀ p : RangePhrase, p.tree.phrase = p
  | name w => rfl
  | range bound none upper => by
    rw [tree, Option.map_none, RangeTree.phrase, RangeTree.boundPhrase, upperPhrase_tree upper,
      extendBound]
  | range bound (some w) upper => by
    rw [tree, Option.map_some, RangeTree.phrase, RangeTree.boundPhrase, upperPhrase_tree upper,
      extendBound, RangeTree.phrase, extend]
  | choice c a b => by
    rw [tree, RangeTree.phrase, phrase_tree c, phrase_tree a, phrase_tree b]
  | letIn w init body => by rw [tree, RangeTree.phrase, phrase_tree init, phrase_tree body]

theorem upperPhrase_tree : ∀ o : Option RangePhrase, RangeTree.boundPhrase (upperTree o) = o
  | none => rfl
  | some p => by rw [upperTree, RangeTree.boundPhrase, phrase_tree p]

end

mutual

theorem plainLower_tree : ∀ p : RangePhrase, p.tree.PlainLower
  | name w => trivial
  | range bound lower upper => by
    rw [tree, RangeTree.PlainLower]
    refine ⟨?_, plainUpper_tree upper⟩
    cases lower with
    | none => exact nofun
    | some w =>
      rintro _ ⟨⟩
      rfl
  | choice c a b => by
    rw [tree, RangeTree.PlainLower]
    exact ⟨plainLower_tree c, plainLower_tree a, plainLower_tree b⟩
  | letIn w init body => by
    rw [tree, RangeTree.PlainLower]
    exact ⟨plainLower_tree init, plainLower_tree body⟩

theorem plainUpper_tree : ∀ o : Option RangePhrase, RangeTree.PlainUpper (upperTree o)
  | none => trivial
  | some p => plainLower_tree p

end

end RangePhrase

namespace RangeTree

mutual

theorem PlainLower.settle_eq : ∀ {t : RangeTree}, t.PlainLower → t.settle = t
  | name w, _ => rfl
  | range bound none upper, h => by
    rw [settle, phrase, boundPhrase, RangePhrase.extendBound, RangePhrase.tree,
      PlainUpper.settle_eq h.2, Option.map_none]
  | range bound (some (name w)) upper, h => by
    rw [settle, phrase, boundPhrase, phrase, RangePhrase.extendBound, RangePhrase.extend,
      RangePhrase.tree, PlainUpper.settle_eq h.2, Option.map_some]
  | range bound (some (range _ _ _)) upper, h => nomatch h.1 _ rfl
  | range bound (some (choice _ _ _)) upper, h => nomatch h.1 _ rfl
  | range bound (some (letIn _ _ _)) upper, h => nomatch h.1 _ rfl
  | choice c a b, h => by
    have hc : c.phrase.tree = c := PlainLower.settle_eq h.1
    have ha : a.phrase.tree = a := PlainLower.settle_eq h.2.1
    have hb : b.phrase.tree = b := PlainLower.settle_eq h.2.2
    rw [settle, phrase, RangePhrase.tree, hc, ha, hb]
  | letIn w init body, h => by
    have hinit : init.phrase.tree = init := PlainLower.settle_eq h.1
    have hbody : body.phrase.tree = body := PlainLower.settle_eq h.2
    rw [settle, phrase, RangePhrase.tree, hinit, hbody]

theorem PlainUpper.settle_eq : ∀ {o : Option RangeTree}, PlainUpper o →
    RangePhrase.upperTree (boundPhrase o) = o
  | none, _ => rfl
  | some t, h => by
    have ht : t.phrase.tree = t := PlainLower.settle_eq h
    rw [boundPhrase, RangePhrase.upperTree, ht]

end

/-- Settling keeps exactly the trees whose lower bounds are names. -/
theorem settle_eq_iff_plainLower {t : RangeTree} : t.settle = t ↔ t.PlainLower :=
  ⟨fun h => h ▸ t.phrase.plainLower_tree, PlainLower.settle_eq⟩

theorem phrase_eq_iff {t u : RangeTree} : t.phrase = u.phrase ↔ t.settle = u.settle := by
  refine ⟨fun h => by rw [settle, settle, h], fun h => ?_⟩
  rw [← t.phrase.phrase_tree, ← u.phrase.phrase_tree]
  exact congrArg phrase h

end RangeTree

/-! ## The trees that share a text -/

namespace Node

/-- **Two range trees share their text exactly if they settle alike**, and settling keeps exactly
the trees in which every lower bound is a name. -/
theorem IsRange.print_eq_iff_settle {n m : Node} {t u : RangeTree} (hn : n.IsRange t)
    (hm : m.IsRange u) (o : PrintOptions) :
    ∃ text, n.print o = .ok text ∧ (m.print o = .ok text ↔ t.settle = u.settle) ∧
      (t.settle = t ↔ t.PlainLower) := by
  refine ⟨_, hn.print_eq o, ?_, RangeTree.settle_eq_iff_plainLower⟩
  rw [hm.print_eq, ← RangeTree.phrase_eq_iff]
  constructor
  · intro h
    exact (RangePhrase.eq_of_chars_eq (String.ofList_injective (Except.ok.inj h))).symm
  · intro h
    rw [h]

end Node

namespace RangeTree

/-- A range after local names shares its text with local names before a range. -/
theorem print_eq_iff_settle_letIn :
    let a := name ⟨.single 'a' (by decide), by decide⟩
    let b := name ⟨.single 'b' (by decide), by decide⟩
    let x : RangeName := ⟨.single 'x' (by decide), by decide⟩
    let t := range .openHigh (some (letIn x a b)) (some (range .closed none (some a)))
    let u := letIn x a (range .openHigh (some b) (some (range .closed none (some a))))
    (t.toNode (.sourceless ⟨0⟩)).IsRange t ∧ (u.toNode (.sourceless ⟨0⟩)).IsRange u ∧
      ∃ text, (t.toNode (.sourceless ⟨0⟩)).print {} = .ok text ∧
        ((u.toNode (.sourceless ⟨0⟩)).print {} = .ok text ↔ t.settle = u.settle) ∧
        (t.settle = t ↔ t.PlainLower) := by
  intro a b x t u
  have ht := isRange_toNode (.sourceless ⟨0⟩) t
  have hu := isRange_toNode (.sourceless ⟨0⟩) u
  exact ⟨ht, hu, ht.print_eq_iff_settle hu {}⟩

/-- **A range from a range shares its text with a range to a range.** -/
theorem range_of_range_eq :
    let a := name ⟨.single 'a' (by decide), by decide⟩
    let b := name ⟨.single 'b' (by decide), by decide⟩
    let c := name ⟨.single 'c' (by decide), by decide⟩
    let t := range .closed (some (range .closed (some a) (some b))) (some c)
    let u := range .closed (some a) (some (range .closed (some b) (some c)))
    (t.toNode (.sourceless ⟨0⟩)).print {} = .ok "a..b..c" ∧
      (u.toNode (.sourceless ⟨0⟩)).print {} = .ok "a..b..c" ∧ t ≠ u := by
  intro a b c t u
  refine ⟨?_, ?_, fun h => nomatch Option.some.inj (range.inj h).2.1⟩
  · rw [(isRange_toNode (.sourceless ⟨0⟩) t).print_eq]
    rfl
  · rw [(isRange_toNode (.sourceless ⟨0⟩) u).print_eq]
    rfl

end RangeTree

end ChapelSource
