import ChapelSource.Bracket
import ChapelSource.Proofs.Literal

/-!
# Brackets in layouts

A layout turns the brackets that are open before it into those that are open after it. Its children
have no part in that: each closes what it opens.

* `Nesting.scan_untilQuote`: a reader in a literal comes to its closing quote.
* `openAfter`, `openAfter_literal`: the brackets that are open after a text.
* `Layout.turn`: the brackets that are open after the texts of a layout.
* `Layout.Balanced`: a layout that leaves the open brackets as they are.
* `Layout.Balanced.enclosed`: a layout in brackets.
* `SteadyPieces`: pieces whose text leaves the open brackets as they are.
* **`Layout.openAfter_pieces`**, `Layout.Balanced.steadyPieces`: what a layout is written as.
-/

namespace ChapelSource

namespace Nesting

theorem scan_cons (s : Nesting) (c : Char) (cs : List Char) :
    s.scan (c :: cs) = (s.step c).bind (·.scan cs) := List.foldlM_cons

theorem scan_append (s : Nesting) (cs ds : List Char) :
    s.scan (cs ++ ds) = (s.scan cs).bind (·.scan ds) := List.foldlM_append

theorem codeStep_plain (opened : List Bracket) {c : Char} (h : c ∉ bracketMarks) :
    codeStep opened c = some ⟨.code, opened⟩ := by
  have hopened : Bracket.opened? c = none := by
    unfold Bracket.opened?
    split <;> first | rfl | exact absurd (by decide) h
  have hclosed : Bracket.closed? c = none := by
    unfold Bracket.closed?
    split <;> first | rfl | exact absurd (by decide) h
  have hquote : c ≠ '"' := by
    rintro rfl
    exact h (by decide)
  rw [codeStep, if_neg hquote, hopened, hclosed]

theorem scan_plain (opened : List Bracket) {cs : List Char} (h : ∀ c ∈ cs, c ∉ bracketMarks) :
    scan ⟨.code, opened⟩ cs = some ⟨.code, opened⟩ := by
  induction cs with
  | nil => rfl
  | cons c cs ih =>
    have hstep : step ⟨.code, opened⟩ c = some ⟨.code, opened⟩ :=
      codeStep_plain opened (h c List.mem_cons_self)
    rw [scan_cons, hstep]
    exact ih fun d hd => h d (List.mem_cons_of_mem _ hd)

/-- From the inside of a literal a reader comes to the quote that closes it. -/
theorem scan_untilQuote (opened : List Bracket) {cs body rest : List Char}
    (h : Literal.untilQuote cs = some (body, rest)) :
    scan ⟨.literal, opened⟩ cs = scan ⟨.code, opened⟩ rest := by
  fun_induction Literal.untilQuote cs generalizing body with
  | case1 => contradiction
  | case2 cs =>
    cases h
    rfl
  | case3 => contradiction
  | case4 hquote d ds ih =>
    obtain ⟨r, hr, hbody⟩ := Option.map_eq_some_iff.1 h
    cases hbody
    rw [← ih hr]
    rfl
  | case5 c cs hquote hslash ih =>
    obtain ⟨r, hr, hbody⟩ := Option.map_eq_some_iff.1 h
    cases hbody
    have hstep : step ⟨.literal, opened⟩ c = some ⟨.literal, opened⟩ := by
      simp only [step, if_neg hquote, if_neg hslash]
    rw [scan_cons, hstep]
    exact ih hr

end Nesting

/-! ## Texts -/

/-- The brackets that are open after a text, which must not end in a literal. -/
def openAfter (s : String) (opened : List Bracket) : Option (List Bracket) :=
  match Nesting.scan ⟨.code, opened⟩ s.toList with
  | some ⟨.code, after⟩ => some after
  | _ => none

theorem openAfter_eq_some_iff {s : String} {opened after : List Bracket} :
    openAfter s opened = some after ↔
      Nesting.scan ⟨.code, opened⟩ s.toList = some ⟨.code, after⟩ := by
  unfold openAfter
  split <;> simp_all

theorem openAfter_plain {s : String} (h : PlainText s) (opened : List Bracket) :
    openAfter s opened = some opened :=
  openAfter_eq_some_iff.2 (Nesting.scan_plain opened h)

theorem openAfter_append {s t : String} {opened mid after : List Bracket}
    (hs : openAfter s opened = some mid) (ht : openAfter t mid = some after) :
    openAfter (s ++ t) opened = some after := by
  rw [openAfter_eq_some_iff] at *
  rw [String.toList_append, Nesting.scan_append, hs]
  exact ht

/-- A body that ends at its closing quote. -/
def ClosedBody (body : String) : Prop :=
  Literal.untilQuote (body.toList ++ ['"']) = some (body.toList, [])

/-- A literal leaves the open brackets as they are, whatever stands in it. -/
theorem openAfter_literal {marker body : String} (hm : PlainText marker) (hb : ClosedBody body)
    (opened : List Bracket) : openAfter (marker ++ "\"" ++ body ++ "\"") opened = some opened := by
  have hbody : Nesting.scan ⟨.literal, opened⟩ (body.toList ++ ['"']) = some ⟨.code, opened⟩ :=
    Nesting.scan_untilQuote opened hb
  have hmarker : Nesting.scan ⟨.code, opened⟩ marker.toList = some ⟨.code, opened⟩ :=
    Nesting.scan_plain opened hm
  rw [openAfter_eq_some_iff, String.append_assoc, String.append_assoc, String.toList_append,
    Nesting.scan_append, hmarker]
  show Nesting.scan ⟨.code, opened⟩ ("\"" ++ (body ++ "\"")).toList = _
  rw [String.toList_append, String.toList_append]
  exact hbody

theorem closedBody_quote (bytes : List UInt8) : ClosedBody (Literal.quote bytes) :=
  Literal.untilQuote_quote_append bytes []

theorem closedBody_of_all {body : String}
    (h : (body.toList.all fun c => c != '"' && c != Literal.backslash) = true) :
    ClosedBody body := by
  unfold ClosedBody
  generalize body.toList = cs at h
  induction cs with
  | nil => exact Literal.untilQuote_closing []
  | cons c cs ih =>
    simp only [List.all_cons, Bool.and_eq_true, bne_iff_ne] at h
    obtain ⟨⟨hquote, hslash⟩, hrest⟩ := h
    rw [List.cons_append, Literal.untilQuote_cons hquote hslash, ih hrest, Option.map_some]

theorem closedBody_primitive (prim : Primitive) : ClosedBody prim.name :=
  closedBody_of_all (by cases prim <;> decide)

theorem closedBody_pragma (p : Pragma) : ClosedBody p.name :=
  closedBody_of_all (by cases p <;> decide)

/-! ## Layouts -/

variable {newLine : String}

/-- The brackets that are open after an item. Children close what they open, and nothing is written
after a fault. -/
def Item.turn (newLine : String) (opened : List Bracket) : Item → Option (List Bracket)
  | .atom (.text s) => openAfter s opened
  | .atom (.literal marker body) => openAfter (marker ++ "\"" ++ body ++ "\"") opened
  | .atom .lineBreak => openAfter newLine opened
  | .atom (.fault _) => some opened
  | .operator symbol => openAfter symbol opened
  | .child _ _ => some opened

namespace Layout

/-- The brackets that are open after a layout. -/
def turn (newLine : String) (l : Layout) (opened : List Bracket) : Option (List Bracket) :=
  l.foldlM (Item.turn newLine) opened

/-- A layout that leaves the open brackets as they are. -/
def Balanced (newLine : String) (l : Layout) : Prop := ∀ opened, l.turn newLine opened = some opened

theorem turn_append (l m : Layout) (opened : List Bracket) :
    turn newLine (l ++ m) opened = (turn newLine l opened).bind (turn newLine m) :=
  List.foldlM_append

theorem turn_singleton (i : Item) (opened : List Bracket) :
    turn newLine [i] opened = i.turn newLine opened := by
  simp [turn]

theorem balanced_nil : Balanced newLine [] := fun _ => rfl

theorem Balanced.append {l m : Layout} (hl : Balanced newLine l) (hm : Balanced newLine m) :
    Balanced newLine (l ++ m) := fun opened => by
  rw [turn_append, hl opened]
  exact hm opened

theorem balanced_text {s : String} (h : PlainText s) : Balanced newLine s := fun opened => by
  rw [turn_singleton]
  exact openAfter_plain h opened

theorem Balanced.text {l : Layout} (hl : Balanced newLine l) {s : String} (h : PlainText s) :
    Balanced newLine (l ++ s) :=
  hl.append (balanced_text h)

theorem balanced_whole (n : Node) : Balanced newLine (whole n) := fun _ => rfl

theorem balanced_asType (n : Node) : Balanced newLine (asType n) := fun _ => rfl

theorem balanced_component (n : Node) : Balanced newLine (component n) := fun _ => rfl

theorem balanced_fault (e : PrintError) : Balanced newLine (fault e) := fun _ => rfl

theorem balanced_operator {s : String} (h : PlainText s) :
    Balanced newLine (Layout.operator s) := fun opened => by
  rw [Layout.operator, turn_singleton]
  exact openAfter_plain h opened

theorem balanced_lineBreak (h : PlainText newLine) : Balanced newLine lineBreak := fun opened => by
  rw [lineBreak, turn_singleton]
  exact openAfter_plain h opened

theorem balanced_literal {marker body : String} (hm : PlainText marker) (hb : ClosedBody body) :
    Balanced newLine (literal marker body) := fun opened => by
  rw [literal, turn_singleton]
  exact openAfter_literal hm hb opened

/-! ## Composition -/

/-- Two texts that open a bracket and close it again. -/
def Encloses (opening closing : String) : Prop :=
  ∃ b, ∀ opened, openAfter opening opened = some (b :: opened) ∧
    openAfter closing (b :: opened) = some opened

/-- **A balanced layout in brackets is balanced.** -/
theorem Balanced.enclosed {opening closing : String} {l : Layout} (hl : Balanced newLine l)
    (h : Encloses opening closing) : Balanced newLine (opening ++ l ++ closing) := fun opened => by
  obtain ⟨b, hb⟩ := h
  obtain ⟨hopening, hclosing⟩ := hb opened
  rw [turn_append, turn_append, turn_singleton]
  show ((openAfter opening opened).bind _).bind _ = _
  rw [hopening, Option.bind_some, hl, Option.bind_some, turn_singleton]
  exact hclosing

theorem Balanced.parenthesized {l : Layout} (hl : Balanced newLine l) :
    Balanced newLine (parenthesized l) :=
  hl.enclosed ⟨.paren, fun _ => ⟨rfl, rfl⟩⟩

theorem Balanced.inCurly {l : Layout} (hl : Balanced newLine l) :
    Balanced newLine ("\x7b" ++ l ++ "\x7d") :=
  hl.enclosed ⟨.curly, fun _ => ⟨rfl, rfl⟩⟩

theorem Balanced.inSquare {l : Layout} (hl : Balanced newLine l) :
    Balanced newLine ("[" ++ l ++ "]") :=
  hl.enclosed ⟨.square, fun _ => ⟨rfl, rfl⟩⟩

theorem balanced_grouped (parens : Bool) (n : Node) : Balanced newLine (grouped parens n) := by
  cases parens with
  | false => exact balanced_whole n
  | true => exact (balanced_whole n).parenthesized

theorem balanced_ifSome {β : Type} {o : Option β} {f : β → Layout}
    (h : ∀ a ∈ o, Balanced newLine (f a)) : Balanced newLine (ifSome o f) := by
  cases o with
  | none => exact balanced_nil
  | some a => exact h a rfl

theorem balanced_ifTrue {l : Layout} (h : Balanced newLine l) (b : Bool) :
    Balanced newLine (ifTrue b l) := by
  cases b with
  | false => exact balanced_nil
  | true => exact h

theorem balanced_flatMap {β : Type} {xs : List β} {f : β → Layout}
    (h : ∀ x ∈ xs, Balanced newLine (f x)) : Balanced newLine (xs.flatMap f) := by
  induction xs with
  | nil => exact balanced_nil
  | cons x xs ih =>
    rw [List.flatMap_cons]
    exact (h x List.mem_cons_self).append (ih fun y hy => h y (List.mem_cons_of_mem _ hy))

theorem balanced_join {β : Type} {separator : Layout} (hs : Balanced newLine separator)
    {xs : List β} {f : β → Layout} (h : ∀ x ∈ xs, Balanced newLine (f x)) :
    Balanced newLine (join separator (xs.map f)) := by
  cases xs with
  | nil => exact balanced_nil
  | cons x xs =>
    rw [List.map_cons, join_cons, List.flatMap_map]
    exact (h x List.mem_cons_self).append
      (balanced_flatMap fun y hy => hs.append (h y (List.mem_cons_of_mem _ hy)))

/-! ## Lists of children -/

theorem balanced_listing (comments : Bool) {separator : Layout}
    (hs : Balanced newLine separator) (nodes : List Node) :
    Balanced newLine (listing comments separator nodes) :=
  balanced_join hs fun n _ => balanced_whole n

theorem balanced_comma : Balanced newLine ", " := balanced_text (by decide)

theorem balanced_commaList (comments : Bool) (nodes : List Node) :
    Balanced newLine (commaList comments nodes) :=
  balanced_listing comments balanced_comma nodes

theorem balanced_components (nodes : List Node) :
    Balanced newLine (join ", " (nodes.map component)) :=
  balanced_join balanced_comma fun n _ => balanced_component n

variable (hn : PlainText newLine)

include hn

theorem balanced_lines (comments : Bool) (nodes : List Node) :
    Balanced newLine (lines comments nodes) :=
  balanced_listing comments (balanced_lineBreak hn) nodes

theorem balanced_braced (comments : Bool) (nodes : List Node) :
    Balanced newLine (braced comments nodes) :=
  (balanced_lines hn comments nodes).inCurly

theorem balanced_body (comments : Bool) {keyword : String} (hk : PlainText keyword)
    (b : Body Node) : Balanced newLine (b.layout comments keyword) := by
  unfold Body.layout
  split
  · exact balanced_braced hn comments b.stmts
  · exact balanced_text hk |>.append (balanced_lines hn comments b.stmts)
  · exact balanced_text hk |>.append (balanced_braced hn comments b.stmts)

theorem balanced_plainBody (comments : Bool) (b : Body Node) :
    Balanced newLine (b.plainLayout comments) :=
  balanced_body hn comments (by decide) b

end Layout

/-! ## Pieces -/

theorem exists_of_write_append {ps qs : List Piece} {text : String}
    (h : write newLine "" (ps ++ qs) = .ok text) :
    ∃ s t, write newLine "" ps = .ok s ∧ write newLine "" qs = .ok t ∧ text = s ++ t := by
  rw [write_append] at h
  cases hs : write newLine "" ps with
  | error e =>
    rw [hs] at h
    contradiction
  | ok s =>
    rw [hs, Except.bind, write_eq_map] at h
    cases ht : write newLine "" qs with
    | error e =>
      rw [ht] at h
      contradiction
    | ok t =>
      rw [ht] at h
      exact ⟨s, t, rfl, rfl, (Except.ok.inj h).symm⟩

theorem exists_of_write_singleton {p : Piece} {text : String}
    (h : write newLine "" [p] = .ok text) : p.text newLine = .ok text := by
  rw [write] at h
  cases hp : p.text newLine with
  | error e =>
    rw [hp] at h
    contradiction
  | ok s =>
    rw [hp] at h
    have htext : "" ++ s = text := Except.ok.inj h
    rw [← htext, String.empty_append]

/-- Some pieces are written as a text that leaves the open brackets as they are. -/
def SteadyPieces (newLine : String) (ps : List Piece) : Prop :=
  ∀ text, write newLine "" ps = .ok text → ∀ opened, openAfter text opened = some opened

/-- An item is written as a text that does to the open brackets what the item does. -/
theorem Item.openAfter_pieces {comments inType : Bool} {i : Item}
    (hc : ∀ role n, i = .child role n →
      SteadyPieces newLine (n.pieces comments (role.inType inType) role))
    {opened after : List Bracket} (h : i.turn newLine opened = some after) {text : String}
    (hw : write newLine "" (i.pieces comments inType) = .ok text) :
    openAfter text opened = some after := by
  cases i with
  | child role n =>
    cases h
    exact hc role n rfl text hw opened
  | operator symbol =>
    have hspace : ∀ bs, openAfter " " bs = some bs := fun bs => openAfter_plain (by decide) bs
    have htext := exists_of_write_singleton hw
    cases hs : Operator.spaced symbol inType with
    | false =>
      rw [hs] at htext
      cases htext
      exact h
    | true =>
      rw [hs] at htext
      cases htext
      exact openAfter_append (openAfter_append (hspace opened) h) (hspace after)
  | atom a =>
    have htext := exists_of_write_singleton hw
    cases a with
    | fault e => contradiction
    | text s =>
      cases htext
      exact h
    | literal marker body =>
      cases htext
      exact h
    | lineBreak =>
      cases htext
      exact h

/-- **A layout is written as a text that does to the open brackets what the layout does**, if its
children leave them as they are. -/
theorem Layout.openAfter_pieces {comments inType : Bool} {l : Layout}
    (hc : ∀ role n, Item.child role n ∈ l →
      SteadyPieces newLine (n.pieces comments (role.inType inType) role))
    {opened after : List Bracket} (h : l.turn newLine opened = some after) {text : String}
    (hw : write newLine "" (l.pieces comments inType) = .ok text) :
    openAfter text opened = some after := by
  induction l generalizing opened text with
  | nil =>
    cases hw
    cases h
    rfl
  | cons i l ih =>
    obtain ⟨s, t, hs, ht, rfl⟩ := exists_of_write_append hw
    obtain ⟨mid, hmid, hrest⟩ := Option.bind_eq_some_iff.1
      ((List.foldlM_cons (m := Option)).symm.trans h)
    exact openAfter_append
      (Item.openAfter_pieces (fun role n hi => hc role n (hi ▸ List.mem_cons_self)) hmid hs)
      (ih (fun role n hi => hc role n (List.mem_cons_of_mem _ hi)) hrest ht)

theorem Layout.Balanced.steadyPieces {comments inType : Bool} {l : Layout}
    (hl : l.Balanced newLine) (hc : ∀ role n, Item.child role n ∈ l →
      SteadyPieces newLine (n.pieces comments (role.inType inType) role)) :
    SteadyPieces newLine (l.pieces comments inType) :=
  fun _ hw opened => Layout.openAfter_pieces hc (hl opened) hw

end ChapelSource
