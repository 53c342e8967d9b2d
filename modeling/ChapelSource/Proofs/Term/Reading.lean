import ChapelSource.Proofs.Literal
import ChapelSource.Proofs.Word
import ChapelSource.Term.Reader

/-!
# Terms in writing are read back

* `Finds`: what a reader finds at the front of a text.
* `Finds.term`, `Finds.primary_list`, `Finds.suffix_call` and the like: one rule for each step of
  the reader.
* `finds_items`: the items of a list are read up to its closing mark.
* `TermTree.isRead`: a term is read with what follows it.
* **`TermTree.termOfText?_chars`**: a whole term is read as it was written.
-/

namespace ChapelSource

/-! ## The steps of the reader -/

/-- A reader finds `a` at the front of a text, before `rest`. -/
def Finds {α : Type} {n : Nat} (found : Option (Parsed α n)) (a : α) (rest : List Char) : Prop :=
  ∃ h, found = some ⟨a, rest, h⟩

section Steps

variable {α β : Type} {cs rest rest' : List Char}

theorem Finds.weaken {m n : Nat} {found : Option (Parsed α m)} {a : α} (h : Finds found a rest)
    (hle : m ≤ n) : Finds (found.map (Parsed.weaken hle)) a rest := by
  obtain ⟨hlt, rfl⟩ := h
  exact ⟨_, rfl⟩

theorem Finds.map {n : Nat} {found : Option (Parsed α n)} {a : α} (h : Finds found a rest)
    (f : α → β) : Finds (found.map (Parsed.map f)) (f a) rest := by
  obtain ⟨hlt, rfl⟩ := h
  exact ⟨hlt, rfl⟩

/-! ### Words and literals -/

theorem finds_word (w : Word) (hcs : Parted cs) : Finds (readWord (w.chars ++ cs)) w cs := by
  obtain ⟨c, ds, hchars, hc⟩ := w.exists_chars
  obtain ⟨htake, hdrop⟩ := takeWhile_of_parted w.isWordChar_of_mem hcs
  rw [hchars, List.cons_append] at htake hdrop ⊢
  rw [List.takeWhile_cons_of_pos hc] at htake
  rw [List.dropWhile_cons_of_pos hc] at hdrop
  have hword : Word.run c (ds ++ cs) hc = w := Word.ext (htake.trans hchars.symm)
  rw [readWord, dif_pos hc]
  simp only [hword, hdrop]
  exact ⟨_, rfl⟩

theorem finds_literal (bytes : List UInt8) (cs : List Char) :
    Finds (readLiteral ((Literal.quote bytes).toList ++ '"' :: cs)) bytes cs := by
  have huntil := Literal.untilQuote_quote_append bytes cs
  unfold readLiteral
  split
  · next body rest h =>
    cases huntil.symm.trans h
    rw [String.ofList_toList, Literal.unescape_quote]
    exact ⟨_, rfl⟩
  · next h => exact absurd (huntil.symm.trans h) (Option.some_ne_none _)

/-! ### Terms -/

variable {t u v : TermTree} {w : Word} {inBrackets : Bool} {l : ItemList}

theorem opened?_openingMark (inBrackets : Bool) :
    opened? (openingMark inBrackets) = some inBrackets := by
  cases inBrackets <;> rfl

theorem opened?_of_isWordChar {c : Char} (h : isWordChar c = true) : opened? c = none := by
  have hmark : ∀ inBrackets, isWordChar (openingMark inBrackets) = false := by decide
  have hne : ∀ inBrackets, c ≠ openingMark inBrackets := by
    rintro inBrackets rfl
    rw [hmark] at h
    contradiction
  rw [opened?, if_neg (hne false), if_neg (hne true)]

theorem Finds.term (hp : Finds (readPrimary cs) t rest) (hs : Finds (readSuffixes t rest) u rest') :
    Finds (readTerm cs) u rest' := by
  obtain ⟨hlt, hp⟩ := hp
  rw [readTerm, hp]
  exact hs.weaken _

theorem Finds.primary_literal (bytes : List UInt8) (cs : List Char) :
    Finds (readPrimary ('"' :: ((Literal.quote bytes).toList ++ '"' :: cs)))
      (.literal bytes) cs := by
  rw [readPrimary, if_pos rfl]
  obtain ⟨hlt, h⟩ := finds_literal bytes cs
  rw [h]
  exact ⟨_, rfl⟩

theorem Finds.primary_list (hitems : Finds (readItems false inBrackets cs) l rest)
    (ht : l.literal? inBrackets = some t) :
    Finds (readPrimary (openingMark inBrackets :: cs)) t rest := by
  have hquote : openingMark inBrackets ≠ '"' := by cases inBrackets <;> decide
  obtain ⟨hlt, h⟩ := hitems
  rw [readPrimary, if_neg hquote, opened?_openingMark]
  simp only [h, ht]
  exact ⟨_, rfl⟩

theorem Finds.primary_name (w : Word) (hcs : Parted cs) :
    Finds (readPrimary (w.chars ++ cs)) (.name w) cs := by
  have hword := finds_word w hcs
  obtain ⟨c, ds, hchars, hc⟩ := w.exists_chars
  rw [hchars, List.cons_append] at hword ⊢
  have hquote : c ≠ '"' := by
    rintro rfl
    contradiction
  rw [readPrimary, if_neg hquote, opened?_of_isWordChar hc]
  exact hword.map _

theorem Finds.suffix_dot (hcs : Parted cs) (h : Finds (readSuffixes (.dot t w) cs) u rest) :
    Finds (readSuffixes t ('.' :: (w.chars ++ cs))) u rest := by
  obtain ⟨hlt, hword⟩ := finds_word w hcs
  rw [readSuffixes, if_pos rfl, hword]
  exact h.weaken _

theorem Finds.suffix_call (hitems : Finds (readItems true inBrackets cs) l rest)
    (hu : l.call? t inBrackets = some u) (h : Finds (readSuffixes u rest) v rest') :
    Finds (readSuffixes t (openingMark inBrackets :: cs)) v rest' := by
  have hdot : openingMark inBrackets ≠ '.' := by cases inBrackets <;> decide
  obtain ⟨hlt, hitems⟩ := hitems
  rw [readSuffixes, if_neg hdot, opened?_openingMark]
  simp only [hitems, hu]
  exact h.weaken _

/-- A text that does not go on with a word, a member or a call. -/
def EndsTerm (cs : List Char) : Prop :=
  ∀ c ∈ cs.head?, isWordChar c = false ∧ c ≠ '.' ∧ opened? c = none

theorem EndsTerm.parted (h : EndsTerm cs) : Parted cs := fun c hc => (h c hc).1

theorem endsTerm_cons {c : Char} (h : isWordChar c = false ∧ c ≠ '.' ∧ opened? c = none)
    (cs : List Char) : EndsTerm (c :: cs) := by
  rintro d ⟨⟩
  exact h

theorem Finds.suffix_stop (h : EndsTerm cs) : Finds (readSuffixes t cs) t cs := by
  cases cs with
  | nil =>
    rw [readSuffixes]
    exact ⟨_, rfl⟩
  | cons c cs =>
    obtain ⟨-, hdot, hopened⟩ := h c rfl
    rw [readSuffixes, if_neg hdot, hopened]
    exact ⟨_, rfl⟩

/-! ### Items -/

theorem readLabel_of_head (h : ∀ c ∈ cs.head?, c ≠ ' ') : readLabel t cs = none := by
  unfold readLabel
  split
  · exact absurd rfl (h ' ' rfl)
  · rfl

/-- An item without a name is read as a term, save before what follows a name. -/
theorem Finds.item_plain (labelled : Bool) (h : Finds (readTerm cs) t rest)
    (hrest : ∀ c ∈ rest.head?, c ≠ ' ') : Finds (readItem labelled cs) (none, t) rest := by
  have hlabel : (if labelled then readLabel t rest else none) = none := by
    rw [readLabel_of_head hrest, ite_self]
  obtain ⟨hlt, h⟩ := h
  rw [readItem, h]
  simp only [hlabel]
  exact ⟨hlt, rfl⟩

theorem Finds.item_labelled (w : Word) (h : Finds (readTerm cs) t rest) :
    Finds (readItem true (w.chars ++ ' ' :: '=' :: ' ' :: cs)) (some w, t) rest := by
  have hname : Finds (readTerm (w.chars ++ ' ' :: '=' :: ' ' :: cs)) (.name w)
      (' ' :: '=' :: ' ' :: cs) :=
    .term (.primary_name w (parted_cons (by decide) _)) (.suffix_stop (endsTerm_cons (by decide) _))
  obtain ⟨hlt, hname⟩ := hname
  obtain ⟨hlt', h⟩ := h
  rw [readItem, hname]
  simp only [if_pos, readLabel, h]
  exact ⟨_, rfl⟩

variable {labelled : Bool} {item : TermItem}

theorem Finds.items_nil (labelled inBrackets : Bool) (cs : List Char) :
    Finds (readItems labelled inBrackets (closingMark inBrackets :: cs)) ⟨[], false⟩ cs := by
  rw [readItems, if_pos rfl]
  exact ⟨_, rfl⟩

theorem Finds.items_last (comma : Bool)
    (h : Finds (readItem labelled cs) item (lastComma comma ++ closingMark inBrackets :: rest)) :
    Finds (readMoreItems labelled inBrackets cs) ⟨[item], comma⟩ rest := by
  obtain ⟨hlt, h⟩ := h
  rw [readMoreItems, h]
  cases comma <;> cases inBrackets <;> exact ⟨_, rfl⟩

theorem Finds.items_cons (h : Finds (readItem labelled cs) item (',' :: ' ' :: rest))
    (hl : Finds (readMoreItems labelled inBrackets rest) l rest') :
    Finds (readMoreItems labelled inBrackets cs) ⟨item :: l.items, l.comma⟩ rest' := by
  obtain ⟨hlt, h⟩ := h
  obtain ⟨hlt', hl⟩ := hl
  rw [readMoreItems, h]
  simp only [readItemEnd, hl]
  exact ⟨_, rfl⟩

theorem readMoreItems_of_readPrimary (h : readPrimary cs = none) :
    readMoreItems labelled inBrackets cs = none := by
  rw [readMoreItems, readItem, readTerm, h]

theorem readPrimary_closingMark (inBrackets : Bool) (cs : List Char) :
    readPrimary (closingMark inBrackets :: cs) = none := by
  rw [readPrimary]
  cases inBrackets <;> rfl

/-- A list that has an item does not start with its closing mark. -/
theorem Finds.items (h : Finds (readMoreItems labelled inBrackets cs) l rest) :
    Finds (readItems labelled inBrackets cs) l rest := by
  cases cs with
  | nil =>
    obtain ⟨hlt, h⟩ := h
    rw [readMoreItems_of_readPrimary (by rw [readPrimary])] at h
    contradiction
  | cons c cs =>
    have hne : c ≠ closingMark inBrackets := by
      rintro rfl
      obtain ⟨hlt, h⟩ := h
      rw [readMoreItems_of_readPrimary (readPrimary_closingMark inBrackets cs)] at h
      contradiction
    rw [readItems, if_neg hne]
    exact h

end Steps

/-! ## Lists -/

/-- The characters that may stand after an item of a list. -/
def itemMarks : List Char := [',', closingMark false, closingMark true]

theorem endsTerm_itemMark {c : Char} (hc : c ∈ itemMarks) (cs : List Char) :
    EndsTerm (c :: cs) := by
  have hall : (itemMarks.all fun d =>
      decide (isWordChar d = false ∧ d ≠ '.' ∧ opened? d = none)) = true := by decide
  exact endsTerm_cons (of_decide_eq_true (List.all_eq_true.1 hall c hc)) cs

/-- An item is read as it is written. -/
def TermItem.IsRead (labelled : Bool) (item : TermItem) : Prop :=
  ∀ c ∈ itemMarks, ∀ cs, Finds (readItem labelled (item.chars ++ c :: cs)) item (c :: cs)

theorem closingMark_mem (inBrackets : Bool) : closingMark inBrackets ∈ itemMarks := by
  cases inBrackets <;> decide

theorem finds_moreItems {labelled : Bool} (inBrackets comma : Bool) (cs : List Char)
    (item : TermItem) (items : List TermItem)
    (h : ∀ i ∈ item :: items, TermItem.IsRead labelled i) :
    Finds (readMoreItems labelled inBrackets (commaChars ((item :: items).map TermItem.chars) ++
      (lastComma comma ++ closingMark inBrackets :: cs))) ⟨item :: items, comma⟩ cs := by
  have hfirst := h item List.mem_cons_self
  induction items generalizing item with
  | nil =>
    rw [List.map_singleton, commaChars]
    refine .items_last comma ?_
    cases comma with
    | false => exact hfirst _ (closingMark_mem inBrackets) cs
    | true => exact hfirst _ List.mem_cons_self _
  | cons next items ih =>
    have hrest := ih next (fun i hi => h i (List.mem_cons_of_mem _ hi))
      (h next (List.mem_cons_of_mem _ List.mem_cons_self))
    rw [List.map_cons, List.map_cons, commaChars, List.append_assoc]
    exact .items_cons (hfirst _ List.mem_cons_self _) hrest

/-- **The items of a list are read up to its closing mark**, with the comma after the last one. -/
theorem finds_items {labelled : Bool} (inBrackets comma : Bool) (cs : List Char)
    (items : List TermItem) (hcomma : comma → items ≠ [])
    (h : ∀ i ∈ items, TermItem.IsRead labelled i) :
    Finds (readItems labelled inBrackets (commaChars (items.map TermItem.chars) ++
      (lastComma comma ++ closingMark inBrackets :: cs))) ⟨items, comma⟩ cs := by
  cases items with
  | nil =>
    cases comma with
    | false => exact .items_nil labelled inBrackets cs
    | true => exact absurd rfl (hcomma rfl)
  | cons item items => exact .items (finds_moreItems inBrackets comma cs item items h)

/-! ## Trees -/

namespace TermTree

/-- A term is read as it is written, with what follows it. -/
def IsRead (t : TermTree) : Prop :=
  ∀ (cs : List Char) (u : TermTree) (rest : List Char), Parted cs →
    Finds (readSuffixes t cs) u rest → Finds (readTerm (t.chars ++ cs)) u rest

theorem IsRead.finds {t : TermTree} (h : t.IsRead) {cs : List Char} (hcs : EndsTerm cs) :
    Finds (readTerm (t.chars ++ cs)) t cs := h _ _ _ hcs.parted (.suffix_stop hcs)

theorem IsRead.item_none {t : TermTree} (h : t.IsRead) (labelled : Bool) :
    TermItem.IsRead labelled (none, t) := by
  intro c hc cs
  refine .item_plain labelled (h.finds (endsTerm_itemMark hc cs)) ?_
  rintro d ⟨⟩ rfl
  contradiction

theorem IsRead.item {t : TermTree} (h : t.IsRead) (label : Option Word) :
    TermItem.IsRead true (label, t) := by
  cases label with
  | none => exact h.item_none true
  | some w =>
    intro c hc cs
    have hchars : TermItem.chars (some w, t) ++ c :: cs =
        w.chars ++ ' ' :: '=' :: ' ' :: (t.chars ++ c :: cs) := List.append_assoc _ _ _
    rw [hchars]
    exact .item_labelled w (h.finds (endsTerm_itemMark hc cs))

theorem listChars_append (inBrackets comma : Bool) (texts : List (List Char)) (cs : List Char) :
    listChars inBrackets comma texts ++ cs = openingMark inBrackets ::
      (commaChars texts ++ (lastComma comma ++ closingMark inBrackets :: cs)) := by
  simp [listChars]

theorem finds_primary_list {elements : List TermTree} {inBrackets comma : Bool} {t : TermTree}
    (hcomma : comma → elements ≠ []) (h : ∀ t ∈ elements, t.IsRead)
    (ht : ItemList.literal? inBrackets ⟨elements.map fun t => (none, t), comma⟩ = some t)
    (cs : List Char) :
    Finds (readPrimary (listChars inBrackets comma (elementTexts elements) ++ cs)) t cs := by
  rw [listChars_append, elementTexts_eq]
  refine .primary_list (finds_items inBrackets comma cs _ ?_ ?_) ht
  · exact fun hc hnil => hcomma hc (List.map_eq_nil_iff.1 hnil)
  · intro i hi
    obtain ⟨u, hu, rfl⟩ := List.mem_map.1 hi
    exact (h u hu).item_none false

theorem map_snd_none (elements : List TermTree) :
    (elements.map fun t => ((none, t) : TermItem)).map Prod.snd = elements := by
  rw [List.map_map]
  exact List.map_id elements

mutual

/-- **A term is read as it is written**, whatever follows it. -/
theorem isRead : ∀ t : TermTree, t.IsRead
  -- A receiver or a callee is read with what follows it as the first suffix, so `IsRead` speaks of
  -- any suffixes and not only of a term that is over.
  | name w => by
    intro cs u rest hcs h
    rw [chars]
    exact .term (.primary_name w hcs) h
  | literal bytes => by
    intro cs u rest hcs h
    rw [chars, List.cons_append, List.append_assoc]
    exact .term (.primary_literal bytes cs) h
  | tuple elements => by
    intro cs u rest hcs h
    rw [chars]
    refine .term (finds_primary_list ?_ (areRead elements) ?_ cs) h
    -- There is a comma after the last element only if there is one element.
    · intro hlength hnil
      rw [hnil] at hlength
      contradiction
    · rw [ItemList.literal?, map_snd_none, List.length_map]
      exact if_pos rfl
  | array elements => by
    intro cs u rest hcs h
    rw [chars]
    refine .term (finds_primary_list ?_ (areRead elements) ?_ cs) h
    · exact nofun
    · rw [ItemList.literal?, map_snd_none]
      rfl
  | dot receiver field => by
    intro cs u rest hcs h
    rw [chars, List.append_assoc, List.cons_append]
    exact isRead receiver _ _ _ (parted_cons (by decide) _) (.suffix_dot hcs h)
  | call callee actuals inBrackets => by
    intro cs u rest hcs h
    have hmark : isWordChar (openingMark inBrackets) = false := by cases inBrackets <;> decide
    have hitems := finds_items inBrackets false cs actuals nofun fun i hi =>
      (itemsRead actuals i hi).item i.1
    rw [chars, List.append_assoc, listChars_append, actualTexts_eq]
    exact isRead callee _ _ _ (parted_cons hmark _) (.suffix_call hitems rfl h)

theorem areRead : ∀ elements : List TermTree, ∀ t ∈ elements, t.IsRead
  | [], _, h => nomatch h
  | t :: rest, u, h => by
    rcases List.mem_cons.1 h with h | h
    · exact h ▸ isRead t
    · exact areRead rest u h

theorem itemsRead : ∀ items : List (Option Word × TermTree), ∀ i ∈ items, i.2.IsRead
  | [], _, h => nomatch h
  | (label, t) :: rest, i, h => by
    rcases List.mem_cons.1 h with h | h
    · exact h ▸ isRead t
    · exact itemsRead rest i h

end

/-- **The text of a term stands for the term.** -/
theorem termOfText?_chars (t : TermTree) : termOfText? (String.ofList t.chars) = some t := by
  have hfinds : Finds (readTerm (t.chars ++ [])) t [] := t.isRead.finds nofun
  rw [List.append_nil] at hfinds
  obtain ⟨hlt, h⟩ := hfinds
  rw [termOfText?, String.toList_ofList, termOfChars?, h]

end TermTree

end ChapelSource
