import ChapelSource.Branching
import ChapelSource.Proofs.Statement
import ChapelSource.Proofs.Word

/-!
# The `if` of every `else`

A text is that of one attached choice at most, up to what sets off its branches. A choice that is not
attached holds one that shares its text with another: an open branch takes the `else` after it.

* `EndsChoice`: a text that does not go on with what ends before it.
* `Choice.append_inj`: the choice at the front of a text, and what follows it.
* `Choice.chars_addElse`: an open choice takes the `else` after it.
* **`Choice.attached_iff`**: the choices that are told apart by their texts.
* **`Choice.dangling_else_eq`**: two choices that share a text.
-/

namespace ChapelSource

variable {newLine : String} {comments : Bool}

/-! ## Choices in writing -/

namespace Choice

theorem chars_name (w : ChoiceName) : (name w).chars newLine comments = w.chars := by
  rw [chars, statement, Statement.chars]

theorem chars_ifThen (w : ChoiceName) (a : Branch) :
    (ifThen w a).chars newLine comments =
      "if".toList ++ ' ' :: (w.chars ++ ' ' :: a.chars newLine comments "then ") := by
  rw [chars, statement, Statement.chars]
  rfl

theorem chars_ifElse (w : ChoiceName) (a e : Branch) :
    (ifElse w a e).chars newLine comments =
      "if".toList ++ ' ' :: (w.chars ++ ' ' :: (a.chars newLine comments "then " ++
        (" else ".toList ++ e.chars newLine comments ""))) := by
  rw [chars, statement, Statement.chars]
  rfl

theorem isWritten_statement (c : Choice) : c.statement.isWritten comments = true := by
  cases c <;> exact Bool.or_true comments

theorem lineChars_nil : lineChars newLine comments [] = [] := by
  rw [lineChars, statements, Statement.lineChars]

theorem moreChars_nil : moreChars newLine comments [] = [] := by
  rw [moreChars, statements, Statement.moreChars]

theorem lineChars_cons (c : Choice) (cs : List Choice) : lineChars newLine comments (c :: cs) =
    c.chars newLine comments ++ moreChars newLine comments cs := by
  rw [lineChars, statements, Statement.lineChars_cons c.isWritten_statement, chars, moreChars]

theorem moreChars_cons (c : Choice) (cs : List Choice) : moreChars newLine comments (c :: cs) =
    newLine.toList ++ lineChars newLine comments (c :: cs) := by
  rw [moreChars, statements, Statement.moreChars_cons c.isWritten_statement, lineChars, statements]

theorem exists_chars (c : Choice) :
    ∃ d ds, c.chars newLine comments = d :: ds ∧ isWordChar d = true := by
  cases c with
  | name w =>
    rw [chars_name]
    exact w.exists_chars
  | ifThen w a =>
    rw [chars_ifThen]
    exact ⟨'i', _, rfl, by decide⟩
  | ifElse w a e =>
    rw [chars_ifElse]
    exact ⟨'i', _, rfl, by decide⟩

end Choice

namespace Branch

theorem chars_bare (keyword : String) (c : Choice) :
    (bare c).chars newLine comments keyword = keyword.toList ++ c.chars newLine comments := by
  rw [chars, body, Statement.bodyChars, BlockStyle.setOff,
    Statement.lineChars_cons c.isWritten_statement, Statement.moreChars, List.append_nil,
    Choice.chars]

theorem chars_braced (keyword : String) (after : Bool) (cs : List Choice) :
    (braced after cs).chars newLine comments keyword =
      (if after then keyword.toList else []) ++
        '\x7b' :: (Choice.lineChars newLine comments cs ++ ['\x7d']) := by
  cases after <;> rfl

end Branch

/-! ## A text is read as one choice -/

/-- A text does not go on with a word, nor with an `else` after something open. -/
def EndsChoice (isOpen : Bool) (cs : List Char) : Prop :=
  Parted cs ∧ (isOpen = true → cs.head? ≠ some ' ')

theorem EndsChoice.of_isOpen {isOpen : Bool} {cs : List Char} (h : EndsChoice true cs) :
    EndsChoice isOpen cs := ⟨h.1, fun _ => h.2 rfl⟩

theorem endsChoice_nil (isOpen : Bool) : EndsChoice isOpen [] :=
  ⟨parted_nil, fun _ h => nomatch h⟩

theorem endsChoice_else (cs : List Char) : EndsChoice false (" else ".toList ++ cs) :=
  ⟨parted_cons (by decide) _, fun h => nomatch h⟩

theorem endsChoice_cons {c : Char} (hword : isWordChar c = false) (hspace : c ≠ ' ')
    (isOpen : Bool) (cs : List Char) : EndsChoice isOpen (c :: cs) :=
  ⟨parted_cons hword cs, fun _ h => hspace (Option.some.inj h)⟩

theorem SeparatesLines.endsChoice (h : SeparatesLines newLine) (isOpen : Bool) (cs : List Choice)
    (r : List Char) : EndsChoice isOpen (Choice.moreChars newLine comments cs ++ '\x7d' :: r) := by
  cases cs with
  | nil =>
    rw [Choice.moreChars_nil]
    exact endsChoice_cons (by decide) (by decide) _ _
  | cons c cs =>
    obtain ⟨d, ds, hd, hword, hspace, -⟩ := h
    rw [Choice.moreChars_cons, hd]
    exact endsChoice_cons hword hspace _ _

theorem SeparatesLines.moreChars_ne (h : SeparatesLines newLine) {c : Choice} {cs : List Choice}
    {r q : List Char} : Choice.moreChars newLine comments (c :: cs) ++ r ≠ '\x7d' :: q := by
  obtain ⟨d, ds, hd, -, -, hbrace⟩ := h
  rw [Choice.moreChars_cons, hd]
  intro heq
  exact hbrace (List.cons.inj heq).1

theorem Choice.append_ne_brace {c : Choice} {brace : Char} (hbrace : isWordChar brace = false)
    {r q : List Char} : c.chars newLine comments ++ r ≠ brace :: q := by
  obtain ⟨d, ds, hd, hword⟩ := @Choice.exists_chars newLine comments c
  rw [hd]
  intro heq
  rw [(List.cons.inj heq).1, hbrace] at hword
  exact absurd hword (by decide)

theorem ChoiceName.append_ne_if {w : ChoiceName} {r q : List Char} (hr : Parted r) :
    w.chars ++ r ≠ "if".toList ++ ' ' :: q :=
  PlainName.append_ne (k := "if") (by decide) (by decide) hr (parted_cons (by decide) _)

theorem condition_append_inj {w v : ChoiceName} {a b r q : List Char}
    (h : "if".toList ++ ' ' :: (w.chars ++ ' ' :: a) ++ r =
      "if".toList ++ ' ' :: (v.chars ++ ' ' :: b) ++ q) : w = v ∧ a ++ r = b ++ q := by
  rw [List.append_assoc, List.append_assoc, List.cons_append, List.cons_append, List.append_assoc,
    List.append_assoc] at h
  obtain ⟨hname, hrest⟩ := PlainName.append_inj (parted_cons (by decide) _)
    (parted_cons (by decide) _) (List.cons.inj (List.append_cancel_left h)).2
  exact ⟨hname, (List.cons.inj hrest).2⟩

theorem braced_append_inj {keyword : List Char} (hkeyword : keyword.head?.all isWordChar = true)
    {k l : Bool} {r q : List Char}
    (h : (if k then keyword else []) ++ '\x7b' :: r = (if l then keyword else []) ++ '\x7b' :: q) :
    r = q := by
  have hbrace : isWordChar '\x7b' = false := by decide
  cases keyword with
  | nil =>
    rw [ite_self, ite_self] at h
    exact (List.cons.inj h).2
  | cons d ds =>
    have hd : d ≠ '\x7b' := by
      rintro rfl
      have hword : isWordChar '\x7b' = true := hkeyword
      exact absurd hword (by decide)
    cases k with
    | false =>
      cases l with
      | false => exact (List.cons.inj h).2
      | true => exact absurd (List.cons.inj h).1.symm hd
    | true =>
      cases l with
      | false => exact absurd (List.cons.inj h).1 hd
      | true => exact (List.cons.inj (List.append_cancel_left h)).2

theorem bare_append_ne {keyword : String} (hkeyword : keyword.toList.head?.all isWordChar = true)
    {c : Choice} {k : Bool} {r q : List Char} :
    keyword.toList ++ (c.chars newLine comments ++ r) ≠
      (if k then keyword.toList else []) ++ '\x7b' :: q := by
  intro h
  cases k with
  | true => exact Choice.append_ne_brace (by decide) (List.append_cancel_left h)
  | false =>
    cases hchars : keyword.toList with
    | nil =>
      rw [hchars] at h
      exact Choice.append_ne_brace (by decide) h
    | cons d ds =>
      rw [hchars] at h hkeyword
      rw [(List.cons.inj h).1] at hkeyword
      have hword : isWordChar '\x7b' = true := hkeyword
      exact absurd hword (by decide)

mutual

/-- **A text that starts with an attached choice starts with no other**, up to what sets off its
branches. -/
theorem Choice.append_inj (hnewLine : SeparatesLines newLine) :
    ∀ {c d : Choice} {r q : List Char}, c.Attached → d.Attached →
    EndsChoice c.isOpen r → EndsChoice d.isOpen q →
    c.chars newLine comments ++ r = d.chars newLine comments ++ q →
    c.unstyled = d.unstyled ∧ r = q
  | .name w, .name v, r, q, _, _, hr, hq, h => by
    rw [Choice.chars_name, Choice.chars_name] at h
    obtain ⟨rfl, hrest⟩ := PlainName.append_inj hr.1 hq.1 h
    exact ⟨rfl, hrest⟩
  | .name w, .ifThen v b, r, q, _, _, hr, _, h => by
    rw [Choice.chars_name, Choice.chars_ifThen] at h
    exact absurd h (ChoiceName.append_ne_if hr.1)
  | .name w, .ifElse v b f, r, q, _, _, hr, _, h => by
    rw [Choice.chars_name, Choice.chars_ifElse] at h
    exact absurd h (ChoiceName.append_ne_if hr.1)
  | .ifThen w a, .name v, r, q, _, _, _, hq, h => by
    rw [Choice.chars_name, Choice.chars_ifThen] at h
    exact absurd h.symm (ChoiceName.append_ne_if hq.1)
  | .ifElse w a e, .name v, r, q, _, _, _, hq, h => by
    rw [Choice.chars_name, Choice.chars_ifElse] at h
    exact absurd h.symm (ChoiceName.append_ne_if hq.1)
  | .ifThen w a, .ifThen v b, r, q, hc, hd, hr, hq, h => by
    rw [Choice.chars_ifThen, Choice.chars_ifThen] at h
    obtain ⟨rfl, hbranch⟩ := condition_append_inj h
    obtain ⟨hunstyled, hrest⟩ := Branch.append_inj hnewLine (by decide) hc hd hr.of_isOpen
      hq.of_isOpen hbranch
    rw [Choice.unstyled, Choice.unstyled, hunstyled]
    exact ⟨rfl, hrest⟩
  | .ifThen w a, .ifElse v b f, r, q, hc, hd, hr, hq, h => by
    rw [Choice.chars_ifThen, Choice.chars_ifElse] at h
    obtain ⟨rfl, hbranch⟩ := condition_append_inj h
    rw [List.append_assoc, List.append_assoc] at hbranch
    -- the branch before the `else` is closed, so both branches end at the same place
    obtain ⟨-, hrest⟩ := Branch.append_inj hnewLine (by decide) hc hd.2.1 hr.of_isOpen
      (hd.1 ▸ endsChoice_else _) hbranch
    exact absurd (congrArg List.head? hrest) (hr.2 rfl)
  | .ifElse w a e, .ifThen v b, r, q, hc, hd, hr, hq, h => by
    rw [Choice.chars_ifThen, Choice.chars_ifElse] at h
    obtain ⟨rfl, hbranch⟩ := condition_append_inj h
    rw [List.append_assoc, List.append_assoc] at hbranch
    obtain ⟨-, hrest⟩ := Branch.append_inj hnewLine (by decide) hc.2.1 hd (hc.1 ▸ endsChoice_else _)
      hq.of_isOpen hbranch
    exact absurd (congrArg List.head? hrest.symm) (hq.2 rfl)
  | .ifElse w a e, .ifElse v b f, r, q, hc, hd, hr, hq, h => by
    rw [Choice.chars_ifElse, Choice.chars_ifElse] at h
    obtain ⟨rfl, hbranch⟩ := condition_append_inj h
    rw [List.append_assoc, List.append_assoc, List.append_assoc, List.append_assoc] at hbranch
    obtain ⟨hthen, helse⟩ := Branch.append_inj hnewLine (by decide) hc.2.1 hd.2.1
      (hc.1 ▸ endsChoice_else _) (hd.1 ▸ endsChoice_else _) hbranch
    obtain ⟨hunstyled, hrest⟩ := Branch.append_inj hnewLine (by decide) hc.2.2 hd.2.2 hr hq
      (List.append_cancel_left helse)
    rw [Choice.unstyled, Choice.unstyled, hthen, hunstyled]
    exact ⟨rfl, hrest⟩

theorem Branch.append_inj (hnewLine : SeparatesLines newLine) {keyword : String}
    (hkeyword : keyword.toList.head?.all isWordChar = true) :
    ∀ {a b : Branch} {r q : List Char}, a.Attached → b.Attached →
    EndsChoice a.isOpen r → EndsChoice b.isOpen q →
    a.chars newLine comments keyword ++ r = b.chars newLine comments keyword ++ q →
    a.unstyled = b.unstyled ∧ r = q
  | .bare c, .bare d, r, q, ha, hb, hr, hq, h => by
    rw [Branch.chars_bare, Branch.chars_bare, List.append_assoc, List.append_assoc] at h
    obtain ⟨hunstyled, hrest⟩ := Choice.append_inj hnewLine ha hb hr hq (List.append_cancel_left h)
    rw [Branch.unstyled, Branch.unstyled, hunstyled]
    exact ⟨rfl, hrest⟩
  | .bare c, .braced k ds, r, q, _, _, _, _, h => by
    rw [Branch.chars_bare, Branch.chars_braced, List.append_assoc, List.append_assoc] at h
    exact absurd h (bare_append_ne hkeyword)
  | .braced k cs, .bare d, r, q, _, _, _, _, h => by
    rw [Branch.chars_bare, Branch.chars_braced, List.append_assoc, List.append_assoc] at h
    exact absurd h.symm (bare_append_ne hkeyword)
  | .braced k cs, .braced l ds, r, q, ha, hb, _, _, h => by
    rw [Branch.chars_braced, Branch.chars_braced, List.append_assoc, List.append_assoc,
      List.cons_append, List.cons_append] at h
    have hinner := braced_append_inj hkeyword h
    rw [List.append_assoc, List.append_assoc] at hinner
    obtain ⟨hunstyled, hrest⟩ := Choice.list_append_inj hnewLine ha hb hinner
    rw [Branch.unstyled, Branch.unstyled, hunstyled]
    exact ⟨rfl, hrest⟩

theorem Choice.list_append_inj (hnewLine : SeparatesLines newLine) :
    ∀ {cs ds : List Choice} {r q : List Char},
    Choice.AllAttached cs → Choice.AllAttached ds →
    Choice.lineChars newLine comments cs ++ '\x7d' :: r =
      Choice.lineChars newLine comments ds ++ '\x7d' :: q →
    Choice.allUnstyled cs = Choice.allUnstyled ds ∧ r = q
  | [], [], r, q, _, _, h => by
    rw [Choice.lineChars_nil] at h
    exact ⟨rfl, (List.cons.inj h).2⟩
  | [], d :: ds, r, q, _, _, h => by
    rw [Choice.lineChars_nil, Choice.lineChars_cons, List.append_assoc] at h
    exact absurd h.symm (Choice.append_ne_brace (by decide))
  | c :: cs, [], r, q, _, _, h => by
    rw [Choice.lineChars_nil, Choice.lineChars_cons, List.append_assoc] at h
    exact absurd h (Choice.append_ne_brace (by decide))
  | c :: cs, d :: ds, r, q, hc, hd, h => by
    rw [Choice.lineChars_cons, Choice.lineChars_cons, List.append_assoc, List.append_assoc] at h
    obtain ⟨hunstyled, hmore⟩ := Choice.append_inj hnewLine hc.1 hd.1 (hnewLine.endsChoice _ cs r)
      (hnewLine.endsChoice _ ds q) h
    have ih := @Choice.list_append_inj hnewLine cs ds r q hc.2 hd.2
    rw [Choice.allUnstyled, Choice.allUnstyled, hunstyled]
    cases cs with
    | nil =>
      rw [Choice.moreChars_nil] at hmore
      cases ds with
      | nil =>
        rw [Choice.moreChars_nil] at hmore
        exact ⟨rfl, (List.cons.inj hmore).2⟩
      | cons d' ds => exact absurd hmore.symm hnewLine.moreChars_ne
    | cons c' cs =>
      cases ds with
      | nil =>
        rw [Choice.moreChars_nil] at hmore
        exact absurd hmore hnewLine.moreChars_ne
      | cons d' ds =>
        rw [Choice.moreChars_cons, Choice.moreChars_cons, List.append_assoc,
          List.append_assoc] at hmore
        obtain ⟨hall, hrest⟩ := ih (List.append_cancel_left hmore)
        rw [hall]
        exact ⟨rfl, hrest⟩

end

/-- Attached choices that share their text are the same but for what sets off their branches. -/
theorem Choice.unstyled_eq (hnewLine : SeparatesLines newLine) {c d : Choice} (hc : c.Attached)
    (hd : d.Attached) (h : c.chars newLine comments = d.chars newLine comments) :
    c.unstyled = d.unstyled := by
  rw [← List.append_nil (c.chars _ _), ← List.append_nil (d.chars _ _)] at h
  exact (Choice.append_inj hnewLine hc hd (endsChoice_nil _) (endsChoice_nil _) h).1

/-! ## An `else` after an open branch -/

mutual

/-- **An open choice takes the `else` after it.** -/
theorem Choice.chars_addElse : ∀ {c : Choice} (added : Branch), c.isOpen = true →
    (c.addElse added).chars newLine comments =
      c.chars newLine comments ++ (" else ".toList ++ added.chars newLine comments "")
  | .ifThen w a, added, _ => by
    rw [Choice.addElse]
    split
    · next hopen =>
      rw [Choice.chars_ifThen, Choice.chars_ifThen, Branch.chars_addElse "then " added hopen,
        List.append_assoc, List.cons_append, List.append_assoc, List.cons_append]
    · rw [Choice.chars_ifThen, Choice.chars_ifElse, List.append_assoc, List.cons_append,
        List.append_assoc, List.cons_append]
  | .ifElse w a e, added, h => by
    rw [Choice.addElse, Choice.chars_ifElse, Choice.chars_ifElse, Branch.chars_addElse "" added h,
      List.append_assoc, List.cons_append, List.append_assoc, List.cons_append, List.append_assoc,
      List.append_assoc]

theorem Branch.chars_addElse (keyword : String) : ∀ {a : Branch} (added : Branch),
    a.isOpen = true → (a.addElse added).chars newLine comments keyword =
      a.chars newLine comments keyword ++ (" else ".toList ++ added.chars newLine comments "")
  | .bare c, added, h => by
    rw [Branch.addElse, Branch.chars_bare, Branch.chars_bare, Choice.chars_addElse added h,
      List.append_assoc]

end

mutual

theorem Choice.attached_addElse : ∀ {c : Choice} {added : Branch}, c.isOpen = true → c.Attached →
    added.Attached → (c.addElse added).Attached
  | .ifThen w a, added, _, hc, hadded => by
    rw [Choice.addElse]
    split
    · next hopen => exact Branch.attached_addElse hopen hc hadded
    · next hopen => exact ⟨Bool.eq_false_iff.2 hopen, hc, hadded⟩
  | .ifElse _ _ _, _, hopen, hc, hadded =>
    ⟨hc.1, hc.2.1, Branch.attached_addElse hopen hc.2.2 hadded⟩

theorem Branch.attached_addElse : ∀ {a added : Branch}, a.isOpen = true → a.Attached →
    added.Attached → (a.addElse added).Attached
  | .bare _, _, hopen, ha, hadded => Choice.attached_addElse hopen ha hadded

end

mutual

/-- A choice that is not attached holds an `else` after an open branch. -/
theorem Choice.exists_open : ∀ {c : Choice}, ¬ c.Attached → ∃ w a e, .ifElse w a e ∈ c.subtrees ∧
    a.isOpen = true ∧ a.Attached ∧ e.Attached
  | .name w, h => absurd trivial h
  | .ifThen w a, h => by
    obtain ⟨v, b, e, hmem, hfound⟩ := Branch.exists_open h
    exact ⟨v, b, e, List.mem_cons_of_mem _ hmem, hfound⟩
  | .ifElse w a e, h => by
    by_cases ha : a.Attached
    · by_cases he : e.Attached
      · -- both branches are attached, so it is the `else` of this choice
        refine ⟨w, a, e, List.mem_cons_self, ?_, ha, he⟩
        rw [← Bool.not_eq_false]
        exact fun hopen => h ⟨hopen, ha, he⟩
      · obtain ⟨v, b, f, hmem, hfound⟩ := Branch.exists_open he
        exact ⟨v, b, f, List.mem_cons_of_mem _ (List.mem_append_right _ hmem), hfound⟩
    · obtain ⟨v, b, f, hmem, hfound⟩ := Branch.exists_open ha
      exact ⟨v, b, f, List.mem_cons_of_mem _ (List.mem_append_left _ hmem), hfound⟩

theorem Branch.exists_open : ∀ {a : Branch}, ¬ a.Attached → ∃ w b e, .ifElse w b e ∈ a.subtrees ∧
    b.isOpen = true ∧ b.Attached ∧ e.Attached
  | .bare c, h => @Choice.exists_open c h
  | .braced _ cs, h => @Choice.exists_open_of_mem cs h

theorem Choice.exists_open_of_mem : ∀ {cs : List Choice}, ¬ Choice.AllAttached cs →
    ∃ w a e, .ifElse w a e ∈ Choice.allSubtrees cs ∧ a.isOpen = true ∧ a.Attached ∧ e.Attached
  | [], h => absurd trivial h
  | c :: cs, h => by
    by_cases hc : c.Attached
    · obtain ⟨w, a, e, hmem, hfound⟩ := Choice.exists_open_of_mem fun hcs => h ⟨hc, hcs⟩
      exact ⟨w, a, e, List.mem_append_right _ hmem, hfound⟩
    · obtain ⟨w, a, e, hmem, hfound⟩ := Choice.exists_open hc
      exact ⟨w, a, e, List.mem_append_left _ hmem, hfound⟩

end

mutual

theorem Choice.Attached.of_mem : ∀ {c d : Choice}, c.Attached → d ∈ c.subtrees → d.Attached
  | .name w, d, h, hmem => by
    rw [List.mem_singleton.1 hmem]
    exact h
  | .ifThen w a, d, h, hmem => by
    rcases List.mem_cons.1 hmem with rfl | hmem
    · exact h
    · exact Branch.Attached.of_mem h hmem
  | .ifElse w a e, d, h, hmem => by
    rcases List.mem_cons.1 hmem with rfl | hmem
    · exact h
    · rcases List.mem_append.1 hmem with hmem | hmem
      · exact Branch.Attached.of_mem h.2.1 hmem
      · exact Branch.Attached.of_mem h.2.2 hmem

theorem Branch.Attached.of_mem : ∀ {a : Branch} {d : Choice}, a.Attached → d ∈ a.subtrees →
    d.Attached
  | .bare c, _, h, hmem => @Choice.Attached.of_mem c _ h hmem
  | .braced _ cs, _, h, hmem => @Choice.AllAttached.of_mem cs _ h hmem

theorem Choice.AllAttached.of_mem : ∀ {cs : List Choice} {d : Choice}, Choice.AllAttached cs →
    d ∈ Choice.allSubtrees cs → d.Attached
  | c :: cs, d, h, hmem => by
    rcases List.mem_append.1 hmem with hmem | hmem
    · exact Choice.Attached.of_mem h.1 hmem
    · exact Choice.AllAttached.of_mem h.2 hmem

end

/-! ## The choices that are told apart -/

theorem separatesLines_default : SeparatesLines ({} : PrintOptions).newLine :=
  ⟨'\n', [], rfl, by decide, by decide, by decide⟩

namespace Choice

/-- **A choice is attached exactly if the source text of each part of it is that of no other attached
choice**, up to what sets off branches. -/
theorem attached_iff (c : Choice) :
    c.Attached ↔ ∀ s ∈ c.subtrees, ∀ d : Choice, d.Attached →
      ∀ (n m : Node) (o : PrintOptions), SeparatesLines o.newLine → n.IsStatement s.statement →
        m.IsStatement d.statement → n.print o = m.print o → s.unstyled = d.unstyled := by
  constructor
  · intro hc s hs d hd n m o hnewLine hn hm heq
    rw [hn.print_eq, hm.print_eq] at heq
    exact unstyled_eq hnewLine (hc.of_mem hs) hd (String.ofList_injective (Except.ok.inj heq))
  · intro h
    apply Classical.byContradiction
    intro hc
    obtain ⟨w, a, e, hmem, hopen, ha, he⟩ := exists_open hc
    -- the open branch takes the `else`, and the choice loses it
    let d := ifThen w (a.addElse e)
    have hd : d.Attached := Branch.attached_addElse hopen ha he
    have hs := (ifElse w a e).statement.isStatement_toNode (.sourceless ⟨0⟩)
    have hm := d.statement.isStatement_toNode (.sourceless ⟨0⟩)
    have htext : (ifElse w a e).chars "\n" false = d.chars "\n" false := by
      rw [chars_ifElse, chars_ifThen, Branch.chars_addElse "then " e hopen]
    have heq := h _ hmem d hd _ _ {} separatesLines_default hs hm (by
      rw [hs.print_eq, hm.print_eq]
      exact congrArg (Except.ok ∘ String.ofList) htext)
    rw [unstyled, unstyled] at heq
    exact nomatch heq

/-- **An `else` after a choice in a branch that nothing sets off is read as its `else`.** -/
theorem dangling_else_eq :
    let a : ChoiceName := ⟨.single 'a' (by decide), by decide⟩
    let b : ChoiceName := ⟨.single 'b' (by decide), by decide⟩
    let x := Branch.bare (name ⟨.single 'x' (by decide), by decide⟩)
    let y := Branch.bare (name ⟨.single 'y' (by decide), by decide⟩)
    let c := ifElse a (.bare (ifThen b x)) y
    let d := ifThen a (.bare (ifElse b x y))
    (c.statement.toNode (.sourceless ⟨0⟩)).print {} =
        (d.statement.toNode (.sourceless ⟨0⟩)).print {} ∧ c.unstyled ≠ d.unstyled := by
  intro a b x y c d
  refine ⟨?_, fun h => nomatch h⟩
  rw [(c.statement.isStatement_toNode _).print_eq, (d.statement.isStatement_toNode _).print_eq]
  rfl

end Choice

end ChapelSource
