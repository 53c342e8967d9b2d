import Mathlib.Data.List.Chain
import Mathlib.Data.List.TakeWhile
import ChapelSource.ModuleAccess
import ChapelSource.Proofs.NameList

/-!
# Statements that share a text

The text of a statement is known from what stands between its commas. There a listed name after the
first one looks like a clause without a limitation. So statements share a text exactly if their lists
of names go equally far after the names that follow them are taken in.

* `ClausePart`, `AccessClause.parts`: what stands between the commas of a statement.
* `AccessStatement.chars`, `Node.IsModuleAccess.print_eq`: the text of a statement.
* `ClausePart.append_inj`: the part at the front of a text, and what follows it.
* `AccessStatement.chars_eq_iff`: statements with one text have the same parts.
* `AccessStatement.settle_eq_iff_parts`: so have statements that settle alike.
* `AccessStatement.settle_eq_self_iff`: the statements that settling keeps.
* **`Node.IsModuleAccess.print_eq_iff_settle_eq`**,
  `Node.IsModuleAccess.print_eq_iff_settle_eq_import`: the statements that share a text.
* **`AccessStatement.print_only_clause_eq`**: two statements that do.
-/

namespace ChapelSource

open Layout

/-! ## Parts of clauses -/

/-- What follows the name at the start of a part. -/
inductive PartLimit where
  | free
  | listed (word : Listing) (first : ClauseName)
  | braced (names : List ClauseName)

/-- A clause as far as its first comma outside braces, or a name of a list after that. -/
structure ClausePart where
  symbol : ClauseName
  limit : PartLimit

/-- The parts of a clause. -/
def AccessClause.parts (c : AccessClause) : List ClausePart :=
  match c.limit with
  | .free => [⟨c.symbol, .free⟩]
  | .listed word first rest => ⟨c.symbol, .listed word first⟩ :: rest.map (⟨·, .free⟩)
  | .braced names => [⟨c.symbol, .braced names⟩]

/-- A part as a clause of its own. -/
def ClausePart.clause (p : ClausePart) : AccessClause :=
  match p.limit with
  | .free => ⟨p.symbol, .free⟩
  | .listed word first => ⟨p.symbol, .listed word first []⟩
  | .braced names => ⟨p.symbol, .braced names⟩

/-- What follows the name of a part, in writing. -/
def PartLimit.chars : PartLimit → List Char
  | free => []
  | listed word first => ' ' :: (word.text.toList ++ ' ' :: first.chars)
  | braced names => '.' :: '\x7b' :: (commaChars (names.map (·.chars)) ++ ['\x7d'])

/-- A part in writing. -/
def ClausePart.chars (p : ClausePart) : List Char := p.symbol.chars ++ p.limit.chars

/-- The keywords of a statement in writing. -/
def accessChars (kind : AccessKind) (visibility : Option Visibility) : List Char :=
  keywordChars (visibilityWords visibility) ++ kind.keyword.toList ++ [' ']

namespace AccessStatement

/-- The parts of all clauses. -/
def parts (s : AccessStatement) : List ClausePart := s.clauses.flatMap AccessClause.parts

/-- A statement in writing. -/
def chars (s : AccessStatement) : List Char :=
  accessChars s.kind s.visibility ++ commaChars (s.parts.map ClausePart.chars)

end AccessStatement

/-! ## Writing -/

section

variable {newLine : String} {comments inType : Bool}

theorem writes_names {ns : List Node} {ws : List ClauseName} (h : List.Forall₂ Node.IsNamed ns ws) :
    (commaList comments ns).Writes newLine comments inType (commaChars (ws.map (·.chars))) := by
  refine writes_commaList ?_ (fun _ _ hn => hn.writes (by decide)) h
  rintro _ _ ⟨⟩
  rfl

theorem VisibilityClause.IsClause.writes {c : VisibilityClause Node} {a : AccessClause}
    (h : c.IsClause a) : (c.layout comments).Writes newLine comments inType
      (commaChars (a.parts.map ClausePart.chars)) := by
  cases h with
  | free hw => exact (writes_whole (hw.writes (by decide))).append writes_nil
  | @listed symbol first rest w f ws word hw hf hrest =>
    have hnames : Layout.Writes newLine comments inType (commaList comments (first :: rest))
        (commaChars ((f :: ws).map (·.chars))) := writes_names (.cons hf hrest)
    have hlayout : VisibilityClause.layout comments ⟨symbol, word.kind, first :: rest⟩ =
        whole symbol ++ (" " ++ word.text ++ (" " ++ commaList comments (first :: rest))) := by
      cases word <;> rfl
    have hchars : commaChars ((AccessClause.parts ⟨w, .listed word f ws⟩).map ClausePart.chars) =
        w.chars ++ (" ".toList ++ word.text.toList ++
          (" ".toList ++ commaChars ((f :: ws).map (·.chars)))) := by
      simp [AccessClause.parts, ClausePart.chars, PartLimit.chars, commaChars_cons,
        Function.comp_def]
    rw [hlayout, hchars]
    exact (writes_whole (hw.writes (by decide))).append
      (((writes_text " ").append (writes_text word.text)).append ((writes_text " ").append hnames))
  | @braced symbol names w ws hw hnames =>
    exact (writes_whole (hw.writes (by decide))).append
      (((writes_text ".\x7b").append (writes_names hnames)).append (writes_text "\x7d"))

theorem Node.IsModuleAccess.writes {n : Node} {s : AccessStatement} (h : n.IsModuleAccess s) :
    n.Writes newLine comments inType .whole s.chars := by
  cases h with
  | @mk info kind visibility cs clauses hcs =>
    have hparts : List.Forall₂ (Layout.Writes newLine comments inType)
        (cs.map fun c => c.part.layout comments)
        (clauses.map fun a => commaChars (a.parts.map ClausePart.chars)) := by
      rw [List.forall₂_map_left_iff, List.forall₂_map_right_iff]
      exact hcs.imp fun _ _ hc => hc.writes
    have hne : ∀ a : AccessClause, a.parts.map ClausePart.chars ≠ [] := by
      rintro ⟨w, _ | _ | _⟩ <;> exact List.cons_ne_nil _ _
    rw [writes_iff, AccessStatement.chars, AccessStatement.parts, List.map_flatMap,
      ← commaChars_flatMap hne]
    exact (((writes_visibility visibility).append (writes_text kind.keyword)).append
      (writes_text " ")).append (writes_commaJoin hparts)

end

/-- The text of a statement. No option has a part in it. -/
theorem Node.IsModuleAccess.print_eq {n : Node} {s : AccessStatement} (h : n.IsModuleAccess s)
    (o : PrintOptions) : n.print o = .ok (String.ofList s.chars) :=
  h.writes.print_eq

/-! ## Reading -/

/-- A text that ends or goes on with a comma. -/
def Splits (cs : List Char) : Prop := ∀ c ∈ cs.head?, c = ','

theorem splits_nil : Splits [] := nofun

theorem splits_comma (cs : List Char) : Splits (',' :: cs) := by
  rintro _ ⟨⟩
  rfl

theorem Splits.ne_cons {cs : List Char} (h : Splits cs) {c : Char} (hc : c ≠ ',')
    (ds : List Char) : cs ≠ c :: ds := by
  rintro rfl
  exact hc (h c rfl)

theorem PartLimit.parted_append (l : PartLimit) {cs : List Char} (hcs : Splits cs) :
    Parted (l.chars ++ cs) := by
  cases l with
  | free =>
    intro c hc
    rw [hcs c hc]
    decide
  | listed word first => exact parted_cons (by decide) _
  | braced names => exact parted_cons (by decide) _

theorem Listing.append_inj {k l : Listing} {cs ds : List Char}
    (h : k.text.toList ++ ' ' :: cs = l.text.toList ++ ' ' :: ds) : k = l ∧ cs = ds := by
  have hword : ∀ k : Listing, ∀ c ∈ k.text.toList, isWordChar c = true := by
    rintro ⟨⟩ <;> exact List.all_eq_true.1 (by decide)
  obtain ⟨htext, hrest⟩ := append_inj_of_parted (hword k) (hword l) (parted_cons (by decide) _)
    (parted_cons (by decide) _) h
  refine ⟨?_, (List.cons.inj hrest).2⟩
  cases k <;> cases l <;> first | rfl | exact absurd htext (by decide)

theorem PartLimit.append_inj {l m : PartLimit} {cs ds : List Char} (hcs : Splits cs)
    (hds : Splits ds) (h : l.chars ++ cs = m.chars ++ ds) : l = m ∧ cs = ds := by
  cases l with
  | free =>
    cases m with
    | free => exact ⟨rfl, h⟩
    | listed word first => exact absurd h (hcs.ne_cons (by decide) _)
    | braced names => exact absurd h (hcs.ne_cons (by decide) _)
  | listed word first =>
    cases m with
    | free => exact absurd h.symm (hds.ne_cons (by decide) _)
    | listed word' first' =>
      simp only [chars, List.cons_append, List.append_assoc] at h
      obtain ⟨rfl, hnames⟩ := Listing.append_inj (List.cons.inj h).2
      obtain ⟨rfl, hrest⟩ := PlainName.append_inj (free.parted_append hcs)
        (free.parted_append hds) hnames
      exact ⟨rfl, hrest⟩
    | braced names => exact absurd (List.cons.inj h).1 (by decide)
  | braced names =>
    cases m with
    | free => exact absurd h.symm (hds.ne_cons (by decide) _)
    | listed word first => exact absurd (List.cons.inj h).1 (by decide)
    | braced names' =>
      have hclose : ∀ es, Closes ('\x7d' :: es) := closes_cons (by decide) (by decide)
      simp only [chars, List.cons_append, List.append_assoc] at h
      obtain ⟨rfl, hrest⟩ := commaChars_append_inj (parted_cons (by decide))
        (fun _ _ _ _ => PlainName.append_inj) (fun w => w.exists_chars) (hclose _).1 (hclose _).1
        (hclose _) (hclose _) (List.cons.inj (List.cons.inj h).2).2
      exact ⟨rfl, (List.cons.inj hrest).2⟩

theorem ClausePart.append_inj {p q : ClausePart} {cs ds : List Char} (hcs : Splits cs)
    (hds : Splits ds) (h : p.chars ++ cs = q.chars ++ ds) : p = q ∧ cs = ds := by
  obtain ⟨w, l⟩ := p
  obtain ⟨v, m⟩ := q
  rw [chars, chars, List.append_assoc, List.append_assoc] at h
  obtain ⟨rfl, hlimit⟩ := PlainName.append_inj (l.parted_append hcs) (m.parted_append hds) h
  obtain ⟨rfl, hrest⟩ := PartLimit.append_inj hcs hds hlimit
  exact ⟨rfl, hrest⟩

theorem ClausePart.exists_chars (p : ClausePart) :
    ∃ c cs, p.chars = c :: cs ∧ isWordChar c = true := by
  obtain ⟨c, cs, hcs, hc⟩ := p.symbol.exists_chars
  exact ⟨c, cs ++ p.limit.chars, by rw [chars, hcs, List.cons_append], hc⟩

theorem eq_of_accessChars_isPrefixOf {kind kind' : AccessKind}
    {visibility visibility' : Option Visibility}
    (h : accessChars kind visibility <+: accessChars kind' visibility') :
    kind = kind' ∧ visibility = visibility' := by
  revert h
  cases kind <;> cases kind' <;> rcases visibility with _ | _ | _ <;>
    rcases visibility' with _ | _ | _ <;> decide

theorem accessChars_append_inj {kind kind' : AccessKind} {visibility visibility' : Option Visibility}
    {cs ds : List Char}
    (h : accessChars kind visibility ++ cs = accessChars kind' visibility' ++ ds) :
    (kind = kind' ∧ visibility = visibility') ∧ cs = ds := by
  have hwords : kind = kind' ∧ visibility = visibility' := by
    obtain ⟨es, hes, -⟩ | ⟨es, hes, -⟩ := List.append_eq_append_iff.1 h
    · exact eq_of_accessChars_isPrefixOf ⟨es, hes.symm⟩
    · exact (eq_of_accessChars_isPrefixOf ⟨es, hes.symm⟩).imp Eq.symm Eq.symm
  refine ⟨hwords, ?_⟩
  rw [hwords.1, hwords.2] at h
  exact List.append_cancel_left h

namespace AccessStatement

variable {s t : AccessStatement}

theorem chars_eq_iff : s.chars = t.chars ↔
    (s.kind = t.kind ∧ s.visibility = t.visibility) ∧ s.parts = t.parts := by
  constructor
  · intro h
    obtain ⟨hwords, hparts⟩ := accessChars_append_inj h
    refine ⟨hwords, (commaChars_append_inj splits_comma (fun _ _ _ _ => ClausePart.append_inj)
      ClausePart.exists_chars splits_nil splits_nil closes_nil closes_nil ?_).1⟩
    rw [List.append_nil, List.append_nil]
    exact hparts
  · rintro ⟨⟨hkind, hvisibility⟩, hparts⟩
    rw [chars, chars, hkind, hvisibility, hparts]

end AccessStatement

/-! ## Settling -/

namespace AccessClause

theorem absorb_listed (w : ClauseName) (word : Listing) (first : ClauseName) (rest : List ClauseName)
    (cs : List AccessClause) : absorb ⟨w, .listed word first rest⟩ cs =
      ⟨w, .listed word first (rest ++ (cs.takeWhile isFree).map symbol)⟩ :: cs.dropWhile isFree :=
  rfl

/-- A clause without a limitation is one part. -/
theorem parts_of_isFree {c : AccessClause} (h : c.isFree = true) :
    c.parts = [⟨c.symbol, .free⟩] := by
  obtain ⟨w, limit⟩ := c
  cases limit with
  | free => rfl
  | _ => exact nomatch h

/-- The clauses that a list takes in keep their parts. -/
theorem flatMap_parts_absorb (c : AccessClause) (cs : List AccessClause) :
    (c.absorb cs).flatMap parts = c.parts ++ cs.flatMap parts := by
  obtain ⟨w, limit⟩ := c
  cases limit with
  | free => rfl
  | braced names => rfl
  | listed word first rest =>
    have htaken : (cs.takeWhile isFree).flatMap parts =
        (cs.takeWhile isFree).map fun c => ⟨c.symbol, .free⟩ := by
      rw [List.map_eq_flatMap]
      exact List.flatMap_congr fun c hc => parts_of_isFree (List.mem_takeWhile_imp hc)
    have hcs : cs.flatMap parts = (cs.takeWhile isFree).map (fun c => ⟨c.symbol, .free⟩) ++
        (cs.dropWhile isFree).flatMap parts := by
      rw [← htaken, ← List.flatMap_append, List.takeWhile_append_dropWhile]
    rw [hcs]
    simp [absorb_listed, parts, Function.comp_def]

theorem foldr_absorb_free (ws : List ClauseName) (cs : List AccessClause) :
    (ws.map (⟨·, .free⟩)).foldr absorb cs = ws.map (⟨·, .free⟩) ++ cs := by
  induction ws with
  | nil => rfl
  | cons w ws ih => rw [List.map_cons, List.foldr_cons, ih, List.cons_append, absorb]

/-- Its parts tell what a clause is before others. -/
theorem absorb_eq_foldr (c : AccessClause) (cs : List AccessClause) :
    c.absorb cs = (c.parts.map ClausePart.clause).foldr absorb cs := by
  obtain ⟨w, limit⟩ := c
  cases limit with
  | free => rfl
  | braced names => rfl
  | listed word first rest =>
    have hrest : (rest.map (⟨·, .free⟩)).map ClausePart.clause = rest.map (⟨·, .free⟩) := by
      rw [List.map_map]
      rfl
    have hfree : ∀ c ∈ rest.map fun w => (⟨w, .free⟩ : AccessClause), c.isFree = true := by
      intro c hc
      obtain ⟨w, -, rfl⟩ := List.mem_map.1 hc
      rfl
    -- The list starts with its first name alone, and takes the others in as clauses again.
    show _ = absorb ⟨w, .listed word first []⟩ (List.foldr absorb cs (List.map _ (List.map _ rest)))
    rw [hrest, foldr_absorb_free, absorb_listed, absorb_listed, List.takeWhile_append_of_pos hfree,
      List.dropWhile_append_of_pos hfree]
    simp [Function.comp_def]

/-- A list takes nothing in that its clause ends before. -/
theorem absorb_eq_cons {c : AccessClause} {cs : List AccessClause}
    (h : ∀ d ∈ cs.head?, c.EndsBefore d) : c.absorb cs = c :: cs := by
  obtain ⟨w, limit⟩ := c
  cases limit with
  | free => rfl
  | braced names => rfl
  | listed word first rest =>
    cases cs with
    | nil =>
      rw [absorb_listed, List.takeWhile_nil, List.dropWhile_nil, List.map_nil, List.append_nil]
    | cons d cs =>
      have hd : ¬ d.isFree = true := by
        rw [h d rfl rfl]
        exact Bool.false_ne_true
      rw [absorb_listed, List.takeWhile_cons_of_neg hd, List.dropWhile_cons_of_neg hd, List.map_nil,
        List.append_nil]

/-- A list that takes in what it can ends before the next clause. -/
theorem isChain_absorb (c : AccessClause) {cs : List AccessClause} (h : cs.IsChain EndsBefore) :
    (c.absorb cs).IsChain EndsBefore := by
  obtain ⟨w, limit⟩ := c
  cases limit with
  | free => exact List.isChain_cons.2 ⟨fun _ _ => nofun, h⟩
  | braced names => exact List.isChain_cons.2 ⟨fun _ _ => nofun, h⟩
  | listed word first rest =>
    refine List.isChain_cons.2 ⟨fun d hd _ => ?_, h.suffix (List.dropWhile_suffix _)⟩
    have hstop := List.head?_dropWhile_not isFree cs
    rw [Option.mem_def.1 hd] at hstop
    exact hstop

end AccessClause

namespace AccessStatement

variable {s t : AccessStatement}

theorem parts_settle (s : AccessStatement) : s.settle.parts = s.parts := by
  obtain ⟨kind, visibility, clauses⟩ := s
  show List.flatMap _ (List.foldr _ _ _) = List.flatMap _ _
  induction clauses with
  | nil => rfl
  | cons c cs ih => rw [List.foldr_cons, AccessClause.flatMap_parts_absorb, ih, List.flatMap_cons]

theorem clauses_settle (s : AccessStatement) :
    s.settle.clauses = (s.parts.map ClausePart.clause).foldr AccessClause.absorb [] := by
  obtain ⟨kind, visibility, clauses⟩ := s
  show List.foldr _ _ _ = List.foldr _ _ (List.map _ (List.flatMap _ _))
  induction clauses with
  | nil => rfl
  | cons c cs ih =>
    rw [List.foldr_cons, ih, List.flatMap_cons, List.map_append, List.foldr_append,
      AccessClause.absorb_eq_foldr]

theorem settle_eq_iff_parts : s.settle = t.settle ↔
    (s.kind = t.kind ∧ s.visibility = t.visibility) ∧ s.parts = t.parts := by
  constructor
  · intro h
    obtain ⟨hkind, hvisibility, -⟩ := AccessStatement.mk.inj h
    refine ⟨⟨hkind, hvisibility⟩, ?_⟩
    rw [← s.parts_settle, ← t.parts_settle, h]
  · rintro ⟨⟨hkind, hvisibility⟩, hparts⟩
    have hclauses : s.settle.clauses = t.settle.clauses := by
      rw [clauses_settle, clauses_settle, hparts]
    exact AccessStatement.ext hkind hvisibility hclauses

theorem settle_eq_self_iff : s.settle = s ↔ s.IsSettled := by
  obtain ⟨kind, visibility, clauses⟩ := s
  constructor
  · intro h
    -- What settling leaves is settled, whatever the clauses were.
    rw [← h]
    show List.IsChain _ (List.foldr _ _ _)
    clear h
    induction clauses with
    | nil => exact .nil
    | cons c cs ih => exact c.isChain_absorb ih
  · intro h
    refine congrArg (AccessStatement.mk kind visibility) ?_
    show List.foldr _ _ _ = _
    induction clauses with
    | nil => rfl
    | cons c cs ih =>
      obtain ⟨hc, hcs⟩ := List.isChain_cons.1 h
      rw [List.foldr_cons, ih hcs, AccessClause.absorb_eq_cons hc]

end AccessStatement

/-! ## The statements that share a text -/

namespace Node.IsModuleAccess

/-- **Two statements share their text exactly if they settle alike**, and settling keeps exactly the
statements in which no clause without a limitation follows a list of names. -/
theorem print_eq_iff_settle_eq {n m : Node} {s t : AccessStatement} (hn : n.IsModuleAccess s)
    (hm : m.IsModuleAccess t) (o o' : PrintOptions) :
    ∃ text, n.print o = .ok text ∧ (m.print o' = .ok text ↔ s.settle = t.settle) ∧
      (s.settle = s ↔ s.IsSettled) := by
  refine ⟨_, hn.print_eq o, ?_, AccessStatement.settle_eq_self_iff⟩
  rw [hm.print_eq, AccessStatement.settle_eq_iff_parts, ← AccessStatement.chars_eq_iff]
  constructor
  · intro h
    exact (String.ofList_injective (Except.ok.inj h)).symm
  · intro h
    rw [h]

/-- An import after whose list stands a clause in braces. -/
theorem print_eq_iff_settle_eq_import :
    let M : ClauseName := ⟨.single 'M' (by decide), by decide⟩
    let x : ClauseName := ⟨.single 'x' (by decide), by decide⟩
    let y : ClauseName := ⟨.single 'y' (by decide), by decide⟩
    let s : AccessStatement :=
      ⟨.importModule, some .publicAccess, [⟨M, .listed .except x [y]⟩, ⟨M, .braced [x, y]⟩]⟩
    let t : AccessStatement :=
      ⟨.importModule, some .publicAccess,
        [⟨M, .listed .except x []⟩, ⟨y, .free⟩, ⟨M, .braced [x, y]⟩]⟩
    let info : NodeInfo := .sourceless ⟨0⟩
    (s.toNode info).IsModuleAccess s ∧ (t.toNode info).IsModuleAccess t ∧
      s.IsSettled ∧ ¬ t.IsSettled ∧
      ∃ text, (s.toNode info).print {} = .ok text ∧
        ((t.toNode info).print { comments := true } = .ok text ↔ s.settle = t.settle) ∧
        (s.settle = s ↔ s.IsSettled) := by
  intro M x y s t info
  have hs := s.isModuleAccess_toNode info
  have ht := t.isModuleAccess_toNode info
  exact ⟨hs, ht, by decide, by decide, hs.print_eq_iff_settle_eq ht {} { comments := true }⟩

end Node.IsModuleAccess

namespace AccessStatement

/-- **A clause after a list of names shares its text with one more name of the list.** -/
theorem print_only_clause_eq :
    let A : ClauseName := ⟨.single 'A' (by decide), by decide⟩
    let B : ClauseName := ⟨.single 'B' (by decide), by decide⟩
    let x : ClauseName := ⟨.single 'x' (by decide), by decide⟩
    let s : AccessStatement := ⟨.useModule, none, [⟨A, .listed .only x []⟩, ⟨B, .free⟩]⟩
    let t : AccessStatement := ⟨.useModule, none, [⟨A, .listed .only x [B]⟩]⟩
    let info : NodeInfo := .sourceless ⟨0⟩
    ((s.toNode info).IsModuleAccess s ∧ (s.toNode info).print {} = .ok "use A only x, B") ∧
      ((t.toNode info).IsModuleAccess t ∧ (t.toNode info).print {} = .ok "use A only x, B") ∧
      s.clauses ≠ t.clauses := by
  intro A B x s t info
  have hs := s.isModuleAccess_toNode info
  have ht := t.isModuleAccess_toNode info
  have hschars : s.chars = "use A only x, B".toList := by decide
  have htchars : t.chars = "use A only x, B".toList := by decide
  refine ⟨⟨hs, ?_⟩, ⟨ht, ?_⟩, by decide⟩
  · rw [hs.print_eq, hschars, String.ofList_toList]
  · rw [ht.print_eq, htchars, String.ofList_toList]

end AccessStatement

end ChapelSource
