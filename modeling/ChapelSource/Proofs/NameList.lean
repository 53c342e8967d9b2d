import Mathlib.Data.List.Forall2
import ChapelSource.Name
import ChapelSource.Term.Tree
import ChapelSource.Proofs.Word
import ChapelSource.Proofs.Writing

/-!
# Names in a row

Items with commas between them, and keywords before a name, are found again in a text.

* `Layout.writes_commaJoin`, `Layout.writes_commaList`, `Node.IsNamed.writes`: parts with commas
  between them, and names, in writing.
* `commaChars_flatMap`: groups of texts with commas between them.
* `Closes`: a text that goes on neither with a word nor with a comma.
* **`commaChars_append_inj`**: the items at the front of a text, and what follows them.
* `keywordChars`, `keywordChars_append_inj`: the keywords at the front of a text, and the name that
  follows them.
* `visibilityWords`, `writes_visibility`: a visibility as a keyword.
-/

namespace ChapelSource

open Layout

/-! ## Writing -/

section

variable {newLine : String} {comments inType : Bool}

theorem Layout.writes_commaJoin {parts : List Layout} {texts : List (List Char)}
    (h : List.Forall₂ (Layout.Writes newLine comments inType) parts texts) :
    (join ", " parts).Writes newLine comments inType (commaChars texts) := by
  induction h with
  | nil => exact writes_nil
  | @cons part text parts texts hpart hparts ih =>
    cases hparts with
    | nil =>
      rw [join_singleton, commaChars]
      exact hpart
    | cons hnext hrest =>
      rw [join_cons_cons, commaChars, List.append_assoc]
      exact hpart.append ((writes_text ", ").append ih)

/-- Nodes that are no comments are written with commas between them, whether comments are written or
not. -/
theorem Layout.writes_commaList {α : Type} {P : Node → α → Prop} {chars : α → List Char}
    (hcomment : ∀ n a, P n a → n.isComment = false)
    (hwrites : ∀ n a, P n a → n.Writes newLine comments inType .whole (chars a)) {ns : List Node}
    {as : List α} (h : List.Forall₂ P ns as) :
    (commaList comments ns).Writes newLine comments inType (commaChars (as.map chars)) := by
  have hall : ∀ n ∈ ns, n.isComment = false :=
    ((List.forall₂_and_left _ _).1 (h.imp fun n a ha => ⟨hcomment n a ha, ha⟩)).1
  have hkept : kept comments ns = ns :=
    List.filter_eq_self.2 fun n hn => by rw [hall n hn, Bool.not_false, Bool.or_true]
  have hparts : List.Forall₂ (Layout.Writes newLine comments inType) (ns.map whole)
      (as.map chars) := by
    rw [List.forall₂_map_left_iff, List.forall₂_map_right_iff]
    exact h.imp fun n a ha => writes_whole (hwrites n a ha)
  rw [commaList, listing, hkept]
  exact writes_commaJoin hparts

theorem Node.IsNamed.writes {keywords : List String} {n : Node} {w : PlainName keywords}
    (h : n.IsNamed w) {role : Role} (hrole : role ≠ .component) :
    n.Writes newLine comments inType role w.chars := by
  cases h with
  | mk info w =>
    rw [writes_iff, layout_of_ne hrole]
    exact writes_ofList w.chars

end

/-! ## Items between commas -/

/-- A text that goes on neither with a word nor with a comma. -/
def Closes (cs : List Char) : Prop := Parted cs ∧ cs.head? ≠ some ','

theorem closes_nil : Closes [] := ⟨parted_nil, nofun⟩

theorem closes_cons {c : Char} (hword : isWordChar c = false) (hcomma : c ≠ ',') (cs : List Char) :
    Closes (c :: cs) :=
  ⟨parted_cons hword cs, fun h => hcomma (Option.some.inj h)⟩

theorem commaChars_cons (cs : List Char) (texts : List (List Char)) :
    commaChars (cs :: texts) = cs ++ texts.flatMap (',' :: ' ' :: ·) := by
  induction texts generalizing cs with
  | nil => rw [commaChars, List.flatMap_nil, List.append_nil]
  | cons ds texts ih => rw [commaChars, ih, List.flatMap_cons, List.cons_append, List.cons_append]

/-- Commas between groups of texts are commas between the texts, if no group is empty. -/
theorem commaChars_flatMap {α : Type} {texts : α → List (List Char)} (h : ∀ a, texts a ≠ [])
    (as : List α) :
    commaChars (as.map fun a => commaChars (texts a)) = commaChars (as.flatMap texts) := by
  have hgroup : ∀ a, ',' :: ' ' :: commaChars (texts a) =
      (texts a).flatMap (',' :: ' ' :: ·) := by
    intro a
    obtain ⟨cs, more, hcs⟩ := List.exists_cons_of_ne_nil (h a)
    rw [hcs, commaChars_cons, List.flatMap_cons]
    rfl
  cases as with
  | nil => rfl
  | cons a as =>
    obtain ⟨cs, more, hcs⟩ := List.exists_cons_of_ne_nil (h a)
    rw [List.map_cons, List.flatMap_cons, hcs, List.cons_append, commaChars_cons, commaChars_cons,
      commaChars_cons, List.flatMap_append, List.append_assoc, List.flatMap_map, List.flatMap_assoc]
    simp only [hgroup]

section Items

variable {α : Type} {chars : α → List Char} {Ends : List Char → Prop}

theorem ends_more (hcomma : ∀ cs, Ends (',' :: cs)) {cs : List Char} (hcs : Ends cs)
    (texts : List (List Char)) : Ends (texts.flatMap (',' :: ' ' :: ·) ++ cs) := by
  cases texts with
  | nil => exact hcs
  | cons ds texts => exact hcomma _

theorem more_append_inj (hcomma : ∀ cs, Ends (',' :: cs))
    (hinj : ∀ a b cs ds, Ends cs → Ends ds → chars a ++ cs = chars b ++ ds → a = b ∧ cs = ds)
    {as bs : List α} {cs ds : List Char} (hcs : Ends cs) (hds : Ends ds) (hclose : Closes cs)
    (hclose' : Closes ds)
    (h : (as.map chars).flatMap (',' :: ' ' :: ·) ++ cs =
      (bs.map chars).flatMap (',' :: ' ' :: ·) ++ ds) : as = bs ∧ cs = ds := by
  -- Where one list ends and the other goes on, a text that closes would start with a comma.
  induction as generalizing bs with
  | nil =>
    cases bs with
    | nil => exact ⟨rfl, h⟩
    | cons b bs => exact absurd (congrArg List.head? h) hclose.2
  | cons a as ih =>
    cases bs with
    | nil => exact absurd (congrArg List.head? h.symm) hclose'.2
    | cons b bs =>
      rw [List.map_cons, List.map_cons, List.flatMap_cons, List.flatMap_cons, List.append_assoc,
        List.append_assoc] at h
      obtain ⟨rfl, hmore⟩ := hinj a b _ _ (ends_more hcomma hcs _) (ends_more hcomma hds _)
        (List.cons.inj (List.cons.inj h).2).2
      obtain ⟨rfl, hend⟩ := ih hmore
      exact ⟨rfl, hend⟩

/-- **A text that starts with some items starts with no others**, if each item is found at the front
of a text and starts with a word. -/
theorem commaChars_append_inj (hcomma : ∀ cs, Ends (',' :: cs))
    (hinj : ∀ a b cs ds, Ends cs → Ends ds → chars a ++ cs = chars b ++ ds → a = b ∧ cs = ds)
    (hstart : ∀ a, ∃ c cs, chars a = c :: cs ∧ isWordChar c = true) {as bs : List α}
    {cs ds : List Char} (hcs : Ends cs) (hds : Ends ds) (hclose : Closes cs) (hclose' : Closes ds)
    (h : commaChars (as.map chars) ++ cs = commaChars (bs.map chars) ++ ds) :
    as = bs ∧ cs = ds := by
  have hne : ∀ a (es fs : List Char), Closes fs → chars a ++ es ≠ fs := by
    rintro a es _ hfs rfl
    obtain ⟨c, gs, hc, hword⟩ := hstart a
    exact absurd hword (by simp [hfs.1 c (by rw [hc]; rfl)])
  cases as with
  | nil =>
    cases bs with
    | nil => exact ⟨rfl, h⟩
    | cons b bs =>
      rw [List.map_cons, commaChars_cons, List.append_assoc] at h
      exact absurd h.symm (hne b _ _ hclose)
  | cons a as =>
    cases bs with
    | nil =>
      rw [List.map_cons, commaChars_cons, List.append_assoc] at h
      exact absurd h (hne a _ _ hclose')
    | cons b bs =>
      rw [List.map_cons, List.map_cons, commaChars_cons, commaChars_cons, List.append_assoc,
        List.append_assoc] at h
      obtain ⟨rfl, hmore⟩ := hinj a b _ _ (ends_more hcomma hcs _) (ends_more hcomma hds _) h
      obtain ⟨rfl, hend⟩ := more_append_inj hcomma hinj hcs hds hclose hclose' hmore
      exact ⟨rfl, hend⟩

end Items

/-! ## Keywords before a name -/

/-- Keywords in writing, each with a space after it. -/
def keywordChars (ws : List String) : List Char := ws.flatMap (·.toList ++ [' '])

theorem keywordChars_append_inj {keywords : List String}
    (hkeywords : ∀ k ∈ keywords, k.toList.all isWordChar = true) {ws vs : List String}
    (hws : ∀ w ∈ ws, w ∈ keywords) (hvs : ∀ v ∈ vs, v ∈ keywords) {n m : PlainName keywords}
    {cs ds : List Char} (hcs : Parted cs) (hds : Parted ds)
    (h : keywordChars ws ++ (n.chars ++ cs) = keywordChars vs ++ (m.chars ++ ds)) :
    ws = vs ∧ n = m ∧ cs = ds := by
  have hspace : ∀ es : List Char, Parted (' ' :: es) := parted_cons (by decide)
  induction ws generalizing vs with
  | nil =>
    cases vs with
    | nil => exact ⟨rfl, PlainName.append_inj hcs hds h⟩
    | cons v vs =>
      have hv := hvs v List.mem_cons_self
      rw [keywordChars, keywordChars, List.flatMap_cons, List.append_assoc, List.append_assoc] at h
      exact absurd h (PlainName.append_ne hv (hkeywords v hv) hcs (hspace _))
  | cons w ws ih =>
    have hw := hws w List.mem_cons_self
    cases vs with
    | nil =>
      rw [keywordChars, keywordChars, List.flatMap_cons, List.append_assoc, List.append_assoc] at h
      exact absurd h.symm (PlainName.append_ne hw (hkeywords w hw) hds (hspace _))
    | cons v vs =>
      have hv := hvs v List.mem_cons_self
      rw [keywordChars, keywordChars, List.flatMap_cons, List.flatMap_cons] at h
      simp only [List.append_assoc] at h
      obtain ⟨hword, hrest⟩ := append_inj_of_parted (List.all_eq_true.1 (hkeywords w hw))
        (List.all_eq_true.1 (hkeywords v hv)) (hspace _) (hspace _) h
      obtain ⟨rfl, hend⟩ := ih (fun x hx => hws x (List.mem_cons_of_mem _ hx))
        (fun x hx => hvs x (List.mem_cons_of_mem _ hx)) (List.cons.inj hrest).2
      exact ⟨congrArg (· :: ws) (String.toList_inj.1 hword), hend⟩

/-- The word of a visibility, if it was written. -/
def visibilityWords (visibility : Option Visibility) : List String :=
  visibility.elim [] ([·.keyword])

theorem writes_visibility {newLine : String} {comments inType : Bool}
    (visibility : Option Visibility) :
    (visibilityLayout visibility).Writes newLine comments inType
      (keywordChars (visibilityWords visibility)) := by
  cases visibility with
  | none => exact writes_nil
  | some v =>
    have hchars : keywordChars (visibilityWords (some v)) = v.keyword.toList ++ " ".toList := by
      cases v <;> rfl
    rw [hchars]
    exact (writes_text v.keyword).append (writes_text " ")

end ChapelSource
