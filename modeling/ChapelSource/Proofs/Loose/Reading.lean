import ChapelSource.Loose
import ChapelSource.Proofs.Grouping.Text
import ChapelSource.Proofs.Word

/-!
# A text is read as one phrase

A text starts with one phrase at most, if it goes on with what ends a phrase. The form of the phrase
shows in its first word and the two characters after it.

* `EndsPhrase`, `EndsPrimary`: a text that does not go on with a phrase or with an operand.
* `PhraseForm`, `opening`, `Phrase.opening_append`: the form of the phrase at the front of a text.
* `Operations.append_inj`: the operators and operands at the front of a text.
* **`Phrase.append_inj`**: the phrase at the front of a text, and what follows it.
-/

namespace ChapelSource

/-! ## The ends of phrases -/

/-- A text that does not go on with the phrase before it. -/
inductive EndsPhrase : List Char → Prop where
  | nil : EndsPhrase []
  | close (cs : List Char) : EndsPhrase (')' :: cs)
  | comma (cs : List Char) : EndsPhrase (", ".toList ++ cs)
  | thenWord (cs : List Char) : EndsPhrase (" then ".toList ++ cs)
  | elseWord (cs : List Char) : EndsPhrase (" else ".toList ++ cs)
  | inWord (cs : List Char) : EndsPhrase (" in ".toList ++ cs)

/-- A text that does not go on with an operand. -/
def EndsPrimary (cs : List Char) : Prop := Parted cs ∧ cs.head? ≠ some '.'

theorem endsPrimary_cons {c : Char} (hword : isWordChar c = false) (hdot : c ≠ '.')
    (cs : List Char) : EndsPrimary (c :: cs) :=
  ⟨parted_cons hword cs, fun h => hdot (Option.some.inj h)⟩

theorem EndsPhrase.endsPrimary {cs : List Char} (h : EndsPhrase cs) : EndsPrimary cs := by
  cases h with
  | nil => exact ⟨parted_nil, nofun⟩
  | _ => exact endsPrimary_cons (by decide) (by decide) _

theorem endsPrimary_symbolChars (o : BinaryOp) (cs : List Char) :
    EndsPrimary (Bracketed.symbolChars false o ++ cs) := by
  cases o <;> exact endsPrimary_cons (by decide) (by decide) _

theorem Operations.endsPrimary (ps : Operations) {cs : List Char} (h : EndsPhrase cs) :
    EndsPrimary (ps.chars ++ cs) := by
  cases ps with
  | done =>
    rw [chars, List.nil_append]
    exact h.endsPrimary
  | more o operand rest =>
    rw [chars, List.append_assoc]
    exact endsPrimary_symbolChars o _

theorem parted_fieldChars (fields : List LooseName) {cs : List Char} (h : Parted cs) :
    Parted (fieldChars fields ++ cs) := by
  cases fields with
  | nil =>
    rw [fieldChars, List.nil_append]
    exact h
  | cons field fields =>
    rw [fieldChars]
    exact parted_cons (by decide) _

theorem RangeBound.parted_symbol (b : RangeBound) (cs : List Char) :
    Parted (b.symbol.toList ++ cs) := by
  cases b <;> exact parted_cons (by decide) _

theorem parted_assign (cs : List Char) : Parted (" = ".toList ++ cs) :=
  parted_cons (c := ' ') (by decide) _

/-! ## The form of a phrase -/

/-- The forms of phrases. -/
inductive PhraseForm where
  | operation | choice | letIn | reduction | range
  deriving DecidableEq

/-- The form of a phrase. -/
def Phrase.form : Phrase → PhraseForm
  | operation _ _ => .operation
  | choice _ _ _ => .choice
  | letIn _ => .letIn
  | reduction _ _ _ => .reduction
  | range _ _ _ => .range

/-- The form of a phrase by what follows its first word. Only `reduce` and `scan` start with their
letters. -/
def formAfterWord : List Char → PhraseForm
  | '.' :: '.' :: _ => .range
  | ' ' :: 'r' :: _ => .reduction
  | ' ' :: 's' :: _ => .reduction
  | _ => .operation

/-- The form of the phrase that a text starts with. -/
def opening (cs : List Char) : PhraseForm :=
  if cs.takeWhile isWordChar = "if".toList then .choice
  else if cs.takeWhile isWordChar = "let".toList then .letIn
  else formAfterWord (cs.dropWhile isWordChar)

theorem opening_keyword (keyword : String) (hword : keyword.toList.all isWordChar = true)
    (cs : List Char) : opening (keyword.toList ++ ' ' :: cs) =
      if keyword.toList = "if".toList then .choice
      else if keyword.toList = "let".toList then .letIn
      else formAfterWord (' ' :: cs) := by
  obtain ⟨htake, hdrop⟩ := takeWhile_of_parted (List.all_eq_true.1 hword)
    (parted_cons (c := ' ') (by decide) cs)
  rw [opening, htake, hdrop]

theorem opening_name {keywords : List String} (w : PlainName keywords) (hif : "if" ∈ keywords)
    (hlet : "let" ∈ keywords) {cs : List Char} (h : Parted cs) :
    opening (w.chars ++ cs) = formAfterWord cs := by
  obtain ⟨htake, hdrop⟩ := takeWhile_of_parted w.isWordChar_of_mem h
  rw [opening, htake, hdrop, if_neg (PlainName.chars_ne hif), if_neg (PlainName.chars_ne hlet)]

/-- Where no word stands the form is told by what does. -/
theorem opening_of_parted {cs : List Char} (h : Parted cs) : opening cs = formAfterWord cs := by
  obtain ⟨htake, hdrop⟩ := takeWhile_of_parted (w := []) (by simp) h
  rw [List.nil_append] at htake hdrop
  rw [opening, htake, hdrop, if_neg (by decide), if_neg (by decide)]

theorem opening_range {keywords : List String} (lower : Option (PlainName keywords))
    (bound : RangeBound) (hif : "if" ∈ keywords) (hlet : "let" ∈ keywords) (cs : List Char) :
    opening (lower.elim [] (fun w => w.chars) ++ (bound.symbol.toList ++ cs)) = .range := by
  have hdots : formAfterWord (bound.symbol.toList ++ cs) = .range := by
    cases bound <;> rfl
  cases lower with
  | none => exact (opening_of_parted (bound.parted_symbol _)).trans hdots
  | some w => exact (opening_name w hif hlet (bound.parted_symbol _)).trans hdots

theorem formAfterWord_of_endsPhrase {cs : List Char} (h : EndsPhrase cs) :
    formAfterWord cs = .operation := by
  cases h <;> rfl

theorem Operations.formAfterWord_append (ps : Operations) {cs : List Char} (h : EndsPhrase cs) :
    formAfterWord (ps.chars ++ cs) = .operation := by
  cases ps with
  | done =>
    rw [chars, List.nil_append]
    exact formAfterWord_of_endsPhrase h
  | more o operand rest =>
    rw [chars, List.append_assoc]
    cases o <;> rfl

theorem formAfterWord_field (field : LooseName) (cs : List Char) :
    formAfterWord ('.' :: (field.chars ++ cs)) = .operation := by
  obtain ⟨c, ds, hchars, hc⟩ := field.exists_chars
  have hdot : c ≠ '.' := by
    rintro rfl
    exact absurd hc (by decide)
  rw [hchars, formAfterWord]
  · simp [hdot]
  all_goals simp

/-- **A text that starts with a phrase has the form of the phrase.** -/
theorem Phrase.opening_append (p : Phrase) {cs : List Char} (h : EndsPhrase cs) :
    opening (p.chars ++ cs) = p.form := by
  cases p with
  | operation first rest =>
    rw [chars, List.append_assoc]
    cases first with
    | name w fields =>
      rw [Primary.chars, List.append_assoc,
        opening_name w (by decide) (by decide) (parted_fieldChars fields (rest.endsPrimary h).1)]
      cases fields with
      | nil =>
        rw [fieldChars, List.nil_append]
        exact rest.formAfterWord_append h
      | cons field fields =>
        rw [fieldChars, List.cons_append, List.append_assoc]
        exact formAfterWord_field field _
    | parens inside fields =>
      rw [Primary.chars]
      exact opening_of_parted (parted_cons (by decide) _)
  | choice c a b => exact opening_keyword "if" (by decide) _
  | letIn bs => exact opening_keyword "let" (by decide) _
  | reduction kind op iterand =>
    rw [chars, List.append_assoc, List.cons_append, opening_name op (by decide) (by decide)
      (parted_cons (by decide) _)]
    cases kind <;> rfl
  | range bound lower upper =>
    rw [chars, List.append_assoc, List.append_assoc]
    exact opening_range lower bound (by decide) (by decide) _

theorem Phrase.form_eq {p q : Phrase} {cs ds : List Char} (hcs : EndsPhrase cs)
    (hds : EndsPhrase ds) (h : p.chars ++ cs = q.chars ++ ds) : p.form = q.form := by
  rw [← p.opening_append hcs, h, q.opening_append hds]

/-! ## The parts of a phrase -/

theorem fieldChars_append_inj : ∀ {fs gs : List LooseName} {cs ds : List Char}, EndsPrimary cs →
    EndsPrimary ds → fieldChars fs ++ cs = fieldChars gs ++ ds → fs = gs ∧ cs = ds
  | [], [], cs, ds, _, _, h => ⟨rfl, h⟩
  | [], g :: gs, cs, ds, hcs, _, h => by
    rw [fieldChars, fieldChars, List.nil_append] at h
    exact absurd (congrArg List.head? h) hcs.2
  | f :: fs, [], cs, ds, _, hds, h => by
    rw [fieldChars, fieldChars, List.nil_append] at h
    exact absurd (congrArg List.head? h.symm) hds.2
  | f :: fs, g :: gs, cs, ds, hcs, hds, h => by
    rw [fieldChars, fieldChars, List.cons_append, List.cons_append, List.append_assoc,
      List.append_assoc] at h
    obtain ⟨rfl, hrest⟩ := PlainName.append_inj (parted_fieldChars fs hcs.1)
      (parted_fieldChars gs hds.1) (List.cons.inj h).2
    obtain ⟨rfl, hend⟩ := fieldChars_append_inj hcs hds hrest
    exact ⟨rfl, hend⟩

theorem RangeBound.append_inj {b d : RangeBound} {cs ds : List Char} (hcs : cs.head? ≠ some '<')
    (hds : ds.head? ≠ some '<') (h : b.symbol.toList ++ cs = d.symbol.toList ++ ds) :
    b = d ∧ cs = ds := by
  cases b with
  | closed =>
    cases d with
    | closed => exact ⟨rfl, List.append_cancel_left h⟩
    | openHigh => exact absurd (congrArg (fun l => (l.drop 2).head?) h) hcs
  | openHigh =>
    cases d with
    | closed => exact absurd (congrArg (fun l => (l.drop 2).head?) h.symm) hds
    | openHigh => exact ⟨rfl, List.append_cancel_left h⟩

/-- No bound, and no end of a phrase, goes on with the symbol of a range. -/
theorem head?_boundChars_ne (b : Option LooseName) {cs : List Char} (h : EndsPhrase cs) :
    (boundChars b ++ cs).head? ≠ some '<' := by
  cases b with
  | none => cases h <;> nofun
  | some w =>
    obtain ⟨c, ds, hchars, hc⟩ := w.exists_chars
    rw [boundChars, Option.elim_some, hchars]
    rintro ⟨⟩
    exact absurd hc (by decide)

theorem ReductionKind.append_inj {k l : ReductionKind} {cs ds : List Char}
    (h : k.keyword.toList ++ cs = l.keyword.toList ++ ds) : k = l ∧ cs = ds := by
  cases k with
  | reduce =>
    cases l with
    | reduce => exact ⟨rfl, List.append_cancel_left h⟩
    | scan => exact absurd (List.cons.inj h).1 (by decide)
  | scan =>
    cases l with
    | reduce => exact absurd (List.cons.inj h).1 (by decide)
    | scan => exact ⟨rfl, List.append_cancel_left h⟩

/-! ## Operators -/

/-- The symbol of a binary operator, but for `**`, has spaces around it. -/
theorem Bracketed.symbolChars_eq {o : BinaryOp} (h : o ≠ .power) :
    symbolChars false o = ' ' :: (o.symbol.toList ++ [' ']) := by
  cases o <;> first | rfl | exact absurd rfl h

theorem Bracketed.symbolChars_append_inj {o p : BinaryOp} {cs ds : List Char}
    (h : symbolChars false o ++ cs = symbolChars false p ++ ds) : o = p ∧ cs = ds := by
  have hpower : symbolChars false .power = '*' :: ['*'] := rfl
  have hop : o = p := by
    by_cases ho : o = .power
    · by_cases hp : p = .power
      · rw [ho, hp]
      · rw [ho, hpower, symbolChars_eq hp] at h
        exact absurd (List.cons.inj h).1 (by decide)
    · by_cases hp : p = .power
      · rw [hp, hpower, symbolChars_eq ho] at h
        exact absurd (List.cons.inj h).1 (by decide)
      · -- the longest symbol after the space is that of both
        rw [symbolChars_eq ho, symbolChars_eq hp, List.cons_append, List.cons_append,
          List.append_assoc, List.append_assoc] at h
        have hsymbol := congrArg longestSymbol? (List.cons.inj h).2
        rw [List.singleton_append, List.singleton_append, longestSymbol?_spaced,
          longestSymbol?_spaced] at hsymbol
        have hfound := congrArg BinaryOp.ofSymbol? (Option.some.inj hsymbol)
        rw [BinaryOp.ofSymbol?_symbol, BinaryOp.ofSymbol?_symbol] at hfound
        exact Option.some.inj hfound
  subst hop
  exact ⟨rfl, List.append_cancel_left h⟩

/-- Whether a text starts like an operator: a space before an operator is not that before a word. -/
def startsOperator : List Char → Bool
  | '*' :: _ => true
  | ' ' :: c :: _ => !isWordChar c
  | _ => false

theorem EndsPhrase.ne_symbolChars {o : BinaryOp} {cs ds : List Char} (h : EndsPhrase cs) :
    cs ≠ Bracketed.symbolChars false o ++ ds := by
  have hends : startsOperator cs = false := by
    cases h <;> rfl
  have hstarts : startsOperator (Bracketed.symbolChars false o ++ ds) = true := by
    cases o <;> rfl
  rintro rfl
  exact absurd (hends.symm.trans hstarts) (by decide)

/-! ## Phrases -/

theorem Primary.name_append_ne {w : LooseName} {fields fields' : List LooseName} {inside : Phrase}
    {cs ds : List Char} :
    (Primary.name w fields).chars ++ cs ≠ (Primary.parens inside fields').chars ++ ds := by
  obtain ⟨c, es, hchars, hc⟩ := w.exists_chars
  rw [chars, chars, hchars]
  intro h
  rw [(List.cons.inj h).1] at hc
  exact absurd hc (by decide)

mutual

/-- **A text that starts with a phrase starts with no other.** -/
theorem Phrase.append_inj : ∀ {p q : Phrase} {cs ds : List Char}, EndsPhrase cs → EndsPhrase ds →
    p.chars ++ cs = q.chars ++ ds → p = q ∧ cs = ds
  | .operation first rest, q, cs, ds, hcs, hds, h => by
    have hform := Phrase.form_eq hcs hds h
    cases q with
    | operation first' rest' =>
      rw [Phrase.chars, Phrase.chars, List.append_assoc, List.append_assoc] at h
      obtain ⟨rfl, hrest⟩ := Primary.append_inj (rest.endsPrimary hcs) (rest'.endsPrimary hds) h
      obtain ⟨rfl, hend⟩ := Operations.append_inj hcs hds hrest
      exact ⟨rfl, hend⟩
    | _ => exact nomatch hform
  | .choice c a b, q, cs, ds, hcs, hds, h => by
    have hform := Phrase.form_eq hcs hds h
    cases q with
    | choice c' a' b' =>
      rw [Phrase.chars, Phrase.chars] at h
      simp only [List.append_assoc] at h
      obtain ⟨rfl, hthen⟩ := Phrase.append_inj (.thenWord _) (.thenWord _)
        (List.append_cancel_left h)
      obtain ⟨rfl, helse⟩ := Phrase.append_inj (.elseWord _) (.elseWord _)
        (List.append_cancel_left hthen)
      obtain ⟨rfl, hend⟩ := Phrase.append_inj hcs hds (List.append_cancel_left helse)
      exact ⟨rfl, hend⟩
    | _ => exact nomatch hform
  | .letIn bs, q, cs, ds, hcs, hds, h => by
    have hform := Phrase.form_eq hcs hds h
    cases q with
    | letIn bs' =>
      rw [Phrase.chars, Phrase.chars, List.append_assoc, List.append_assoc] at h
      obtain ⟨rfl, hend⟩ := PhraseBindings.append_inj hcs hds (List.append_cancel_left h)
      exact ⟨rfl, hend⟩
    | _ => exact nomatch hform
  | .reduction kind op iterand, q, cs, ds, hcs, hds, h => by
    have hform := Phrase.form_eq hcs hds h
    cases q with
    | reduction kind' op' iterand' =>
      rw [Phrase.chars, Phrase.chars] at h
      simp only [List.append_assoc, List.cons_append] at h
      obtain ⟨rfl, hkeyword⟩ := PlainName.append_inj (parted_cons (by decide) _)
        (parted_cons (by decide) _) h
      obtain ⟨rfl, hiterand⟩ := ReductionKind.append_inj (List.cons.inj hkeyword).2
      obtain ⟨rfl, hend⟩ := Primary.append_inj hcs.endsPrimary hds.endsPrimary
        (List.cons.inj hiterand).2
      exact ⟨rfl, hend⟩
    | _ => exact nomatch hform
  | .range bound lower upper, q, cs, ds, hcs, hds, h => by
    have hform := Phrase.form_eq hcs hds h
    cases q with
    | range bound' lower' upper' =>
      rw [Phrase.chars, Phrase.chars, List.append_assoc, List.append_assoc, List.append_assoc,
        List.append_assoc] at h
      obtain ⟨rfl, hsymbol⟩ := PlainName.option_append_inj (bound.parted_symbol _)
        (bound'.parted_symbol _) h
      obtain ⟨rfl, hupper⟩ := RangeBound.append_inj (head?_boundChars_ne _ hcs)
        (head?_boundChars_ne _ hds) hsymbol
      obtain ⟨rfl, hend⟩ := PlainName.option_append_inj hcs.endsPrimary.1 hds.endsPrimary.1 hupper
      exact ⟨rfl, hend⟩
    | _ => exact nomatch hform

theorem Operations.append_inj : ∀ {ps qs : Operations} {cs ds : List Char}, EndsPhrase cs →
    EndsPhrase ds → ps.chars ++ cs = qs.chars ++ ds → ps = qs ∧ cs = ds
  | .done, .done, cs, ds, _, _, h => by
    rw [Operations.chars] at h
    exact ⟨rfl, h⟩
  | .done, .more o operand rest, cs, ds, hcs, _, h => by
    rw [Operations.chars, Operations.chars, List.nil_append, List.append_assoc] at h
    exact absurd h hcs.ne_symbolChars
  | .more o operand rest, .done, cs, ds, _, hds, h => by
    rw [Operations.chars, Operations.chars, List.nil_append, List.append_assoc] at h
    exact absurd h.symm hds.ne_symbolChars
  | .more o operand rest, .more o' operand' rest', cs, ds, hcs, hds, h => by
    rw [Operations.chars, Operations.chars] at h
    simp only [List.append_assoc] at h
    obtain ⟨rfl, hoperand⟩ := Bracketed.symbolChars_append_inj h
    obtain ⟨rfl, hrest⟩ := Primary.append_inj (rest.endsPrimary hcs) (rest'.endsPrimary hds)
      hoperand
    obtain ⟨rfl, hend⟩ := Operations.append_inj hcs hds hrest
    exact ⟨rfl, hend⟩

theorem Primary.append_inj : ∀ {p q : Primary} {cs ds : List Char}, EndsPrimary cs →
    EndsPrimary ds → p.chars ++ cs = q.chars ++ ds → p = q ∧ cs = ds
  | .name w fields, .name v fields', cs, ds, hcs, hds, h => by
    rw [Primary.chars, Primary.chars, List.append_assoc, List.append_assoc] at h
    obtain ⟨rfl, hfields⟩ := PlainName.append_inj (parted_fieldChars fields hcs.1)
      (parted_fieldChars fields' hds.1) h
    obtain ⟨rfl, hend⟩ := fieldChars_append_inj hcs hds hfields
    exact ⟨rfl, hend⟩
  | .name w fields, .parens inside fields', cs, ds, _, _, h => absurd h Primary.name_append_ne
  | .parens inside fields, .name w fields', cs, ds, _, _, h => absurd h.symm Primary.name_append_ne
  | .parens inside fields, .parens inside' fields', cs, ds, hcs, hds, h => by
    rw [Primary.chars, Primary.chars, List.cons_append, List.cons_append, List.append_assoc,
      List.append_assoc] at h
    obtain ⟨rfl, hclose⟩ := Phrase.append_inj (.close _) (.close _)
      (List.cons.inj h).2
    obtain ⟨rfl, hend⟩ := fieldChars_append_inj hcs hds (List.cons.inj hclose).2
    exact ⟨rfl, hend⟩

theorem PhraseBindings.append_inj : ∀ {bs bs' : PhraseBindings} {cs ds : List Char},
    EndsPhrase cs → EndsPhrase ds → bs.chars ++ cs = bs'.chars ++ ds → bs = bs' ∧ cs = ds
  | .last w init body, .last v init' body', cs, ds, hcs, hds, h => by
    rw [PhraseBindings.chars, PhraseBindings.chars] at h
    simp only [List.append_assoc] at h
    obtain ⟨rfl, hinit⟩ := PlainName.append_inj (parted_assign _) (parted_assign _) h
    obtain ⟨rfl, hbody⟩ := Phrase.append_inj (.inWord _) (.inWord _)
      (List.append_cancel_left hinit)
    obtain ⟨rfl, hend⟩ := Phrase.append_inj hcs hds (List.append_cancel_left hbody)
    exact ⟨rfl, hend⟩
  | .last w init body, .more v init' rest, cs, ds, hcs, hds, h => by
    rw [PhraseBindings.chars, PhraseBindings.chars] at h
    simp only [List.append_assoc] at h
    obtain ⟨rfl, hinit⟩ := PlainName.append_inj (parted_assign _) (parted_assign _) h
    obtain ⟨-, hbody⟩ := Phrase.append_inj (.inWord _) (.comma _)
      (List.append_cancel_left hinit)
    exact absurd (List.cons.inj hbody).1 (by decide)
  | .more w init rest, .last v init' body, cs, ds, hcs, hds, h => by
    rw [PhraseBindings.chars, PhraseBindings.chars] at h
    simp only [List.append_assoc] at h
    obtain ⟨rfl, hinit⟩ := PlainName.append_inj (parted_assign _) (parted_assign _) h
    obtain ⟨-, hrest⟩ := Phrase.append_inj (.comma _) (.inWord _)
      (List.append_cancel_left hinit)
    exact absurd (List.cons.inj hrest).1 (by decide)
  | .more w init rest, .more v init' rest', cs, ds, hcs, hds, h => by
    rw [PhraseBindings.chars, PhraseBindings.chars] at h
    simp only [List.append_assoc] at h
    obtain ⟨rfl, hinit⟩ := PlainName.append_inj (parted_assign _) (parted_assign _) h
    obtain ⟨rfl, hrest⟩ := Phrase.append_inj (.comma _) (.comma _)
      (List.append_cancel_left hinit)
    obtain ⟨rfl, hend⟩ := PhraseBindings.append_inj hcs hds (List.append_cancel_left hrest)
    exact ⟨rfl, hend⟩

end

theorem Phrase.eq_of_chars_eq {p q : Phrase} (h : p.chars = q.chars) : p = q := by
  rw [← List.append_nil p.chars, ← List.append_nil q.chars] at h
  exact (Phrase.append_inj .nil .nil h).1

theorem Primary.eq_of_chars_eq {p q : Primary} (h : p.chars = q.chars) : p = q := by
  rw [← List.append_nil p.chars, ← List.append_nil q.chars] at h
  have hend := EndsPhrase.nil.endsPrimary
  exact (Primary.append_inj hend hend h).1

end ChapelSource
