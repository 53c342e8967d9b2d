import ChapelSource.Range
import ChapelSource.Proofs.Loose.Text
import ChapelSource.Proofs.Loose.Reading

/-!
# The text of an expression with ranges

A node that is a range tree is written as the phrase of the tree, and a text starts with one phrase
at most.

* `RangePhrase.chars_extend`: what follows a phrase stands at its end.
* **`Node.IsRange.print_eq`**: the text of a range tree.
* `RangePhrase.opening_append`: the form of the phrase at the front of a text.
* **`RangePhrase.append_inj`**: the phrase at the front of a text, and what follows it.
-/

namespace ChapelSource

open Layout

/-! ## Printing -/

namespace RangePhrase

mutual

theorem chars_extend (bound : RangeBound) (upper : Option RangePhrase) : ∀ p : RangePhrase,
    (p.extend bound upper).chars = p.chars ++ (bound.symbol.toList ++ upperChars upper)
  | name w => by rw [extend, chars, chars]; rfl
  | range b lower rest => by
    rw [extend, chars, chars, upperChars, chars_extendBound bound upper rest, List.append_assoc,
      List.append_assoc]
  | choice c a b => by
    rw [extend, chars, chars, chars_extend bound upper b]
    simp only [List.append_assoc]
  | letIn w init body => by
    rw [extend, chars, chars, chars_extend bound upper body]
    simp only [List.append_assoc]

theorem chars_extendBound (bound : RangeBound) (upper : Option RangePhrase) :
    ∀ o : Option RangePhrase, (extendBound bound upper o).chars =
      upperChars o ++ (bound.symbol.toList ++ upperChars upper)
  | none => by rw [extendBound, chars, upperChars, Option.elim_none]
  | some p => by rw [extendBound, upperChars, chars_extend bound upper p]

end

end RangePhrase

namespace Node

section

variable {newLine : String} {comments : Bool}

mutual

theorem IsRange.writes : ∀ {n : Node} {t : RangeTree}, n.IsRange t →
    n.Writes newLine comments false .whole t.phrase.chars
  | _, _, .name info w => by
    rw [RangeTree.phrase, RangePhrase.chars]
    exact writes_iff.2 (writes_ofList w.chars)
  | _, _, .range info bound hl hu => by
    rw [writes_iff, RangeTree.phrase, RangePhrase.chars_extendBound, ← List.append_assoc]
    exact (hl.writes.append (writes_text bound.symbol)).append hu.writes
  | _, _, .choice info hc ha hb => by
    rw [writes_iff, RangeTree.phrase, RangePhrase.chars]
    show Layout.Writes _ _ _ ("if " ++ whole _ ++ " " ++ Body.layout comments "then " _ ++
      (" else " ++ Body.plainLayout comments _)) _
    rw [List.append_assoc, List.append_assoc, List.append_assoc]
    exact (writes_text "if ").append ((writes_whole hc.writes).append ((writes_text " ").append
      ((writes_branch ha.writes "then ").append ((writes_text " else ").append
        (writes_branch hb.writes "")))))
  | _, _, .letIn info declInfo w hi hb => by
    rw [writes_iff, RangeTree.phrase, RangePhrase.chars]
    show Layout.Writes _ _ _ ("let " ++ join ", " [Binding.layout _] ++ " in " ++ whole _) _
    have hletIn := (writes_text "let ").append ((writes_initialized w hi.writes).append
      ((writes_text " in ").append (writes_whole hb.writes)))
    rw [join_singleton, List.append_assoc, List.append_assoc]
    simpa only [List.append_assoc] using hletIn

theorem IsRangeBound.writes : ∀ {o : Option Node} {t : Option RangeTree}, IsRangeBound o t →
    (ifSome o whole).Writes newLine comments false
      (RangePhrase.upperChars (RangeTree.boundPhrase t))
  | _, _, .absent => by
    rw [RangeTree.boundPhrase, RangePhrase.upperChars]
    exact writes_nil
  | _, _, .present h => by
    rw [RangeTree.boundPhrase, RangePhrase.upperChars]
    exact writes_whole h.writes

end

end

/-- **The text of a range tree is its phrase.** -/
theorem IsRange.print_eq {n : Node} {t : RangeTree} (h : n.IsRange t) (o : PrintOptions) :
    n.print o = .ok (String.ofList t.phrase.chars) :=
  Node.Writes.print_eq h.writes

end Node

/-! ## The phrase at the front of a text -/

namespace RangePhrase

/-- The form of a phrase. A name is an operation without operators. -/
def form : RangePhrase → PhraseForm
  | name _ => .operation
  | range _ _ _ => .range
  | choice _ _ _ => .choice
  | letIn _ _ _ => .letIn

theorem opening_append (p : RangePhrase) {cs : List Char} (h : EndsPhrase cs) :
    opening (p.chars ++ cs) = p.form := by
  cases p with
  | name w =>
    rw [chars]
    exact (opening_name w (by decide) (by decide) h.endsPrimary.1).trans
      (formAfterWord_of_endsPhrase h)
  | range bound lower upper =>
    rw [chars, List.append_assoc, List.append_assoc]
    exact opening_range lower bound (by decide) (by decide) _
  | choice c a b => exact opening_keyword "if" (by decide) _
  | letIn w init body => exact opening_keyword "let" (by decide) _

theorem form_eq {p q : RangePhrase} {cs ds : List Char} (hcs : EndsPhrase cs)
    (hds : EndsPhrase ds) (h : p.chars ++ cs = q.chars ++ ds) : p.form = q.form := by
  rw [← p.opening_append hcs, h, q.opening_append hds]

theorem exists_chars (p : RangePhrase) :
    ∃ c cs, p.chars = c :: cs ∧ (isWordChar c = true ∨ c = '.') := by
  cases p with
  | name w =>
    obtain ⟨c, cs, h, hc⟩ := w.exists_chars
    exact ⟨c, cs, h, .inl hc⟩
  | range bound lower upper =>
    rw [chars]
    cases lower with
    | none => cases bound <;> exact ⟨'.', _, rfl, .inr rfl⟩
    | some w =>
      obtain ⟨c, cs, h, hc⟩ := w.exists_chars
      rw [Option.elim_some, h]
      exact ⟨c, _, rfl, .inl hc⟩
  | choice c a b => exact ⟨'i', _, rfl, .inl (by decide)⟩
  | letIn w init body => exact ⟨'l', _, rfl, .inl (by decide)⟩

theorem append_ne {p : RangePhrase} {cs ds : List Char} (h : EndsPhrase ds) :
    p.chars ++ cs ≠ ds := by
  obtain ⟨c, es, hchars, hc⟩ := p.exists_chars
  rw [hchars]
  rintro rfl
  rcases hc with hc | rfl
  · exact absurd ((h.endsPrimary.1 c rfl).symm.trans hc) (by decide)
  · exact h.endsPrimary.2 rfl

/-- No upper bound, and no end of a phrase, goes on with the symbol of a range. -/
theorem head?_upperChars_ne (upper : Option RangePhrase) {cs : List Char} (h : EndsPhrase cs) :
    (upperChars upper ++ cs).head? ≠ some '<' := by
  cases upper with
  | none =>
    rw [upperChars]
    cases h <;> nofun
  | some p =>
    obtain ⟨c, ds, hchars, hc⟩ := p.exists_chars
    rw [upperChars, hchars]
    rintro ⟨⟩
    exact absurd hc (by decide)

mutual

/-- **A text that starts with a phrase starts with no other.** -/
theorem append_inj : ∀ {p q : RangePhrase} {cs ds : List Char}, EndsPhrase cs → EndsPhrase ds →
    p.chars ++ cs = q.chars ++ ds → p = q ∧ cs = ds
  | .name w, q, cs, ds, hcs, hds, h => by
    have hform := form_eq hcs hds h
    cases q with
    | name v =>
      rw [chars, chars] at h
      obtain ⟨rfl, hend⟩ := PlainName.append_inj hcs.endsPrimary.1 hds.endsPrimary.1 h
      exact ⟨rfl, hend⟩
    | _ => exact nomatch hform
  | .range bound lower upper, q, cs, ds, hcs, hds, h => by
    have hform := form_eq hcs hds h
    cases q with
    | range bound' lower' upper' =>
      rw [chars, chars, List.append_assoc, List.append_assoc, List.append_assoc,
        List.append_assoc] at h
      obtain ⟨rfl, hsymbol⟩ := PlainName.option_append_inj (bound.parted_symbol _)
        (bound'.parted_symbol _) h
      obtain ⟨rfl, hupper⟩ := RangeBound.append_inj (head?_upperChars_ne _ hcs)
        (head?_upperChars_ne _ hds) hsymbol
      obtain ⟨rfl, hend⟩ := upper_append_inj hcs hds hupper
      exact ⟨rfl, hend⟩
    | _ => exact nomatch hform
  | .choice c a b, q, cs, ds, hcs, hds, h => by
    have hform := form_eq hcs hds h
    cases q with
    | choice c' a' b' =>
      rw [chars, chars] at h
      simp only [List.append_assoc] at h
      obtain ⟨rfl, hthen⟩ := append_inj (.thenWord _) (.thenWord _) (List.append_cancel_left h)
      obtain ⟨rfl, helse⟩ := append_inj (.elseWord _) (.elseWord _)
        (List.append_cancel_left hthen)
      obtain ⟨rfl, hend⟩ := append_inj hcs hds (List.append_cancel_left helse)
      exact ⟨rfl, hend⟩
    | _ => exact nomatch hform
  | .letIn w init body, q, cs, ds, hcs, hds, h => by
    have hform := form_eq hcs hds h
    cases q with
    | letIn v init' body' =>
      rw [chars, chars] at h
      simp only [List.append_assoc] at h
      obtain ⟨rfl, hinit⟩ := PlainName.append_inj (parted_assign _) (parted_assign _)
        (List.append_cancel_left h)
      obtain ⟨rfl, hbody⟩ := append_inj (.inWord _) (.inWord _) (List.append_cancel_left hinit)
      obtain ⟨rfl, hend⟩ := append_inj hcs hds (List.append_cancel_left hbody)
      exact ⟨rfl, hend⟩
    | _ => exact nomatch hform

theorem upper_append_inj : ∀ {o p : Option RangePhrase} {cs ds : List Char}, EndsPhrase cs →
    EndsPhrase ds → upperChars o ++ cs = upperChars p ++ ds → o = p ∧ cs = ds
  | none, none, cs, ds, _, _, h => by
    rw [upperChars] at h
    exact ⟨rfl, h⟩
  | none, some q, cs, ds, hcs, _, h => by
    rw [upperChars, upperChars] at h
    exact absurd h.symm (append_ne hcs)
  | some p, none, cs, ds, _, hds, h => by
    rw [upperChars, upperChars] at h
    exact absurd h (append_ne hds)
  | some p, some q, cs, ds, hcs, hds, h => by
    rw [upperChars, upperChars] at h
    obtain ⟨rfl, hend⟩ := append_inj hcs hds h
    exact ⟨rfl, hend⟩

end

theorem eq_of_chars_eq {p q : RangePhrase} (h : p.chars = q.chars) : p = q := by
  rw [← List.append_nil p.chars, ← List.append_nil q.chars] at h
  exact (append_inj .nil .nil h).1

end RangePhrase

end ChapelSource
