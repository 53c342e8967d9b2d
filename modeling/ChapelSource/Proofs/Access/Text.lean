import ChapelSource.Access
import ChapelSource.Proofs.Word
import ChapelSource.Proofs.Writing

/-!
# The text of an expression and its chain

A node that is an access tree is written as the chain of the tree, and a text starts with one chain
at most.

* `Node.IsAccess.writes`, `Node.IsAccess.print_eq`: the text of an access tree.
* `EndsAccess`: a text that does not go on with what follows a name.
* **`Chain.append_inj`**: the chain at the front of a text, and what follows it.
-/

namespace ChapelSource

open Layout

/-! ## Printing -/

theorem Suffixes.chars_append : ∀ s more : Suffixes,
    (s.append more).chars = s.chars ++ more.chars
  | .done, more => by rw [append, chars, List.nil_append]
  | .dot field rest, more => by
    rw [append, chars, chars, chars_append rest more, List.cons_append, List.append_assoc]
  | .call actuals rest, more => by
    rw [append, chars, chars, chars_append rest more, List.cons_append, List.append_assoc,
      List.cons_append]

theorem Chain.chars_extend (more : Suffixes) : ∀ c : Chain,
    (c.extend more).chars = c.chars ++ more.chars
  | .led leader rest => by
    rw [extend, chars, chars, chars_extend more rest, List.append_assoc, List.cons_append]
  | .name w suffixes => by
    rw [extend, chars, chars, Suffixes.chars_append, List.append_assoc]

namespace Node

theorem IsAccess.tight_eq {n : Node} {t : AccessTree} (h : n.IsAccess t) : tight n = whole n := by
  cases h <;> rfl

theorem IsAccess.isReserved_eq {n : Node} {t : AccessTree} (h : n.IsAccess t) :
    n.isReserved = false := by
  cases h with
  | name info w =>
    rw [← Bool.not_eq_true]
    intro hreserved
    exact w.not_keyword (List.mem_cons_of_mem _ (List.contains_iff_mem.1 hreserved))
  | dot info field h => rfl
  | call info h hs => rfl
  | newObject info h => rfl
  | reserved info calleeInfo mem h => rfl

section

variable {newLine : String} {comments inType : Bool}

mutual

/-- **A node that is an access tree is written as the chain of the tree.** -/
theorem IsAccess.writes : ∀ {n : Node} {t : AccessTree}, n.IsAccess t →
    n.Writes newLine comments inType .whole t.chain.chars
  | _, _, .name info w => by
    rw [writes_iff, AccessTree.chain, Chain.chars, Suffixes.chars, List.append_nil]
    exact writes_ofList w.chars
  | _, _, .dot info field h => by
    rw [writes_iff, AccessTree.chain, Chain.chars_extend, Suffixes.chars, Suffixes.chars,
      List.append_nil]
    show (tight _ ++ "." ++ field.text).Writes _ _ _ _
    rw [h.tight_eq, List.append_assoc]
    exact (writes_whole h.writes).append ((writes_text ".").append (writes_ofList field.chars))
  | _, _, .call info h hs => by
    rw [writes_iff, AccessTree.chain, Chain.chars_extend, Suffixes.chars, Suffixes.chars]
    show (tight _ ++ _).Writes _ _ _ _
    rw [h.tight_eq, h.isReserved_eq]
    exact (writes_whole h.writes).append hs.writes.parenthesized
  | _, _, .newObject info h => by
    rw [writes_iff, AccessTree.chain, Chain.chars]
    exact (writes_text "new ").append (writes_whole h.writes)
  | _, _, @IsAccess.reserved info calleeInfo name mem _ _ h => by
    rw [writes_iff, AccessTree.chain, Chain.chars]
    have hcallee : (whole (.mk calleeInfo (.identifier name))).Writes newLine comments inType
        name.toList := writes_whole (writes_iff.2 (writes_text name))
    have hreserved : (Node.mk calleeInfo (.identifier name)).isReserved = true :=
      List.contains_iff_mem.2 mem
    show (tight _ ++ _).Writes _ _ _ _
    rw [hreserved]
    exact hcallee.append ((writes_text " ").append (writes_whole h.writes))

theorem AreActuals.writes : ∀ {actuals : List (Actual Node)} {ts : List AccessTree},
    AreActuals actuals ts → (join ", " (actuals.map Actual.layout)).Writes newLine comments inType
      (Chain.listChars (AccessTree.chains ts))
  | _, _, .nil => by
    rw [AccessTree.chains, Chain.listChars]
    exact writes_nil
  | _, _, @AreActuals.cons n _ _ [] h hs => by
    cases hs
    rw [List.map_singleton, join_singleton, AccessTree.chains, AccessTree.chains, Chain.listChars]
    exact writes_whole h.writes
  | _, _, @AreActuals.cons _ _ _ (t' :: ts) h hs => by
    have hrest := hs.writes
    cases hs with
    | cons h' hs =>
      rw [List.map_cons, List.map_cons, join_cons_cons, AccessTree.chains, AccessTree.chains,
        Chain.listChars, List.append_assoc]
      rw [List.map_cons, AccessTree.chains] at hrest
      exact (writes_whole h.writes).append ((writes_text ", ").append hrest)

end

theorem IsAccess.print_eq {n : Node} {t : AccessTree} (h : n.IsAccess t) (o : PrintOptions) :
    n.print o = .ok (String.ofList t.chain.chars) := h.writes.print_eq

end

end Node

/-! ## A text is read as one chain -/

/-- A text that does not go on with what follows a name. -/
def EndsAccess (cs : List Char) : Prop :=
  Parted cs ∧ ∀ c ∈ cs.head?, c ≠ '.' ∧ c ≠ '('

theorem endsAccess_nil : EndsAccess [] := ⟨parted_nil, fun _ h => nomatch h⟩

theorem endsAccess_cons {c : Char} (hword : isWordChar c = false) (hdot : c ≠ '.') (hopen : c ≠ '(')
    (cs : List Char) : EndsAccess (c :: cs) := by
  refine ⟨parted_cons hword cs, ?_⟩
  rintro d ⟨⟩
  exact ⟨hdot, hopen⟩

theorem Leader.text_mem (leader : Leader) : leader.text ∈ leadingWords := by
  cases leader with
  | newObject => exact List.mem_cons_self
  | reserved name mem => exact List.mem_cons_of_mem _ mem

theorem Leader.all_isWordChar (leader : Leader) : leader.text.toList.all isWordChar = true := by
  have hwords : (leadingWords.all fun s => s.toList.all isWordChar) = true := by decide
  exact List.all_eq_true.1 hwords _ leader.text_mem

theorem Leader.isWordChar_of_mem (leader : Leader) :
    ∀ c ∈ leader.text.toList, isWordChar c = true := List.all_eq_true.1 leader.all_isWordChar

theorem Leader.text_inj {l k : Leader} (h : l.text = k.text) : l = k := by
  have hnew : "new" ∉ reservedCallees := by decide
  cases l with
  | newObject =>
    cases k with
    | newObject => rfl
    | reserved name mem =>
      cases h
      exact absurd mem hnew
  | reserved name mem =>
    cases k with
    | newObject =>
      cases h
      exact absurd mem hnew
    | reserved name' mem' =>
      cases h
      rfl

theorem Suffixes.parted (s : Suffixes) {cs : List Char} (h : Parted cs) :
    Parted (s.chars ++ cs) := by
  cases s with
  | done =>
    rw [chars]
    exact h
  | dot field rest =>
    rw [chars]
    exact parted_cons (by decide) _
  | call actuals rest =>
    rw [chars]
    exact parted_cons (by decide) _

theorem Chain.exists_chars (c : Chain) : ∃ d ds, c.chars = d :: ds ∧ isWordChar d = true := by
  cases c with
  | led leader rest =>
    have hword := leader.isWordChar_of_mem
    have hne : leader.text.toList ≠ [] := by
      have hall : ∀ s ∈ leadingWords, s.toList ≠ [] := by decide
      exact hall _ leader.text_mem
    rw [chars]
    cases h : leader.text.toList with
    | nil => exact absurd h hne
    | cons d ds => exact ⟨d, _, rfl, hword d (h ▸ List.mem_cons_self)⟩
  | name w suffixes =>
    obtain ⟨d, ds, h, hd⟩ := w.exists_chars
    rw [chars, h]
    exact ⟨d, _, rfl, hd⟩

/-- Actuals after the first one in writing. -/
def Chain.moreChars : List Chain → List Char
  | [] => []
  | c :: rest => ',' :: ' ' :: listChars (c :: rest)

theorem Chain.listChars_cons (c : Chain) (rest : List Chain) :
    listChars (c :: rest) = c.chars ++ moreChars rest := by
  cases rest with
  | nil => rw [listChars, moreChars, List.append_nil]
  | cons d rest => rw [listChars, moreChars]

theorem Chain.endsAccess_moreChars (rest : List Chain) (cs : List Char) :
    EndsAccess (moreChars rest ++ ')' :: cs) := by
  cases rest with
  | nil => exact endsAccess_cons (by decide) (by decide) (by decide) _
  | cons d rest => exact endsAccess_cons (by decide) (by decide) (by decide) _

theorem Chain.led_append_ne {l : Leader} {c : Chain} {w : AccessName} {s : Suffixes}
    {cs ds : List Char} (hds : Parted ds) :
    (Chain.name w s).chars ++ ds ≠ (Chain.led l c).chars ++ cs := by
  rw [chars, chars, List.append_assoc, List.append_assoc, List.cons_append]
  exact PlainName.append_ne l.text_mem l.all_isWordChar (s.parted hds)
    (parted_cons (by decide) _)

mutual

/-- **A text that starts with a chain starts with no other.** -/
theorem Chain.append_inj : ∀ {c d : Chain} {cs ds : List Char}, EndsAccess cs → EndsAccess ds →
    c.chars ++ cs = d.chars ++ ds → c = d ∧ cs = ds
  | .led l c, .led k d, cs, ds, hcs, hds, h => by
    rw [Chain.chars, Chain.chars, List.append_assoc, List.append_assoc, List.cons_append,
      List.cons_append] at h
    obtain ⟨hword, hrest⟩ := append_inj_of_parted l.isWordChar_of_mem k.isWordChar_of_mem
      (parted_cons (by decide) _) (parted_cons (by decide) _) h
    obtain ⟨rfl, hend⟩ := Chain.append_inj hcs hds (List.cons.inj hrest).2
    rw [Leader.text_inj (String.toList_inj.1 hword)]
    exact ⟨rfl, hend⟩
  | .led l c, .name w s, cs, ds, hcs, hds, h => absurd h.symm (Chain.led_append_ne hds.1)
  | .name w s, .led k d, cs, ds, hcs, hds, h => absurd h (Chain.led_append_ne hcs.1)
  | .name w s, .name v r, cs, ds, hcs, hds, h => by
    rw [Chain.chars, Chain.chars, List.append_assoc, List.append_assoc] at h
    obtain ⟨rfl, hrest⟩ := PlainName.append_inj (s.parted hcs.1) (r.parted hds.1) h
    obtain ⟨rfl, hend⟩ := Suffixes.append_inj hcs hds hrest
    exact ⟨rfl, hend⟩

theorem Suffixes.append_inj : ∀ {s r : Suffixes} {cs ds : List Char}, EndsAccess cs →
    EndsAccess ds → s.chars ++ cs = r.chars ++ ds → s = r ∧ cs = ds
  | .done, .done, cs, ds, _, _, h => by
    rw [Suffixes.chars] at h
    exact ⟨rfl, h⟩
  | .done, .dot field rest, cs, ds, hcs, hds, h => by
    rw [Suffixes.chars, Suffixes.chars, List.nil_append] at h
    exact absurd rfl (hcs.2 '.' (by rw [h]; rfl)).1
  | .done, .call actuals rest, cs, ds, hcs, hds, h => by
    rw [Suffixes.chars, Suffixes.chars, List.nil_append] at h
    exact absurd rfl (hcs.2 '(' (by rw [h]; rfl)).2
  | .dot field rest, .done, cs, ds, hcs, hds, h => by
    rw [Suffixes.chars, Suffixes.chars, List.nil_append] at h
    exact absurd rfl (hds.2 '.' (by rw [← h]; rfl)).1
  | .call actuals rest, .done, cs, ds, hcs, hds, h => by
    rw [Suffixes.chars, Suffixes.chars, List.nil_append] at h
    exact absurd rfl (hds.2 '(' (by rw [← h]; rfl)).2
  | .dot field rest, .call actuals rest', cs, ds, hcs, hds, h => by
    rw [Suffixes.chars, Suffixes.chars] at h
    exact absurd (List.cons.inj h).1 (by decide)
  | .call actuals rest', .dot field rest, cs, ds, hcs, hds, h => by
    rw [Suffixes.chars, Suffixes.chars] at h
    exact absurd (List.cons.inj h).1 (by decide)
  | .dot field rest, .dot field' rest', cs, ds, hcs, hds, h => by
    rw [Suffixes.chars, Suffixes.chars, List.cons_append, List.cons_append, List.append_assoc,
      List.append_assoc] at h
    obtain ⟨rfl, hrest⟩ := PlainName.append_inj (rest.parted hcs.1) (rest'.parted hds.1)
      (List.cons.inj h).2
    obtain ⟨rfl, hend⟩ := Suffixes.append_inj hcs hds hrest
    exact ⟨rfl, hend⟩
  | .call actuals rest, .call actuals' rest', cs, ds, hcs, hds, h => by
    rw [Suffixes.chars, Suffixes.chars, List.cons_append, List.cons_append, List.append_assoc,
      List.append_assoc, List.cons_append, List.cons_append] at h
    obtain ⟨rfl, hrest⟩ := Chain.list_append_inj (List.cons.inj h).2
    obtain ⟨rfl, hend⟩ := Suffixes.append_inj hcs hds hrest
    exact ⟨rfl, hend⟩

theorem Chain.list_append_inj : ∀ {as bs : List Chain} {cs ds : List Char},
    Chain.listChars as ++ ')' :: cs = Chain.listChars bs ++ ')' :: ds → as = bs ∧ cs = ds
  | [], [], _, _, h => ⟨rfl, (List.cons.inj h).2⟩
  | [], b :: bs, _, _, h => by
    obtain ⟨d, ds, hd, hword⟩ := b.exists_chars
    rw [Chain.listChars, Chain.listChars_cons, hd] at h
    rw [← (List.cons.inj h).1] at hword
    exact absurd hword (by decide)
  | a :: as, [], _, _, h => by
    obtain ⟨d, ds, hd, hword⟩ := a.exists_chars
    rw [Chain.listChars, Chain.listChars_cons, hd] at h
    rw [(List.cons.inj h).1] at hword
    exact absurd hword (by decide)
  | a :: as, b :: bs, cs, ds, h => by
    rw [Chain.listChars_cons, Chain.listChars_cons, List.append_assoc, List.append_assoc] at h
    obtain ⟨rfl, hmore⟩ := Chain.append_inj (Chain.endsAccess_moreChars as cs)
      (Chain.endsAccess_moreChars bs ds) h
    have ih := @Chain.list_append_inj as bs cs ds
    cases as with
    | nil =>
      cases bs with
      | nil => exact ⟨rfl, (List.cons.inj hmore).2⟩
      | cons b bs => exact absurd (List.cons.inj hmore).1 (by decide)
    | cons a as =>
      cases bs with
      | nil => exact absurd (List.cons.inj hmore).1 (by decide)
      | cons b bs =>
        obtain ⟨hrest, hend⟩ := ih (List.cons.inj (List.cons.inj hmore).2).2
        rw [hrest]
        exact ⟨rfl, hend⟩

end

end ChapelSource
