import ChapelSource.CommentLine
import ChapelSource.Proofs.Statement

/-!
# Comments that cover code

* `Shows`: what is read of a text, next to the text that is written without its comments.
* `Shows.close`: what stands right after a comment is not read.
* `Statement.shows`: this of every statement.
* **`Node.IsStatement.visible_iff`**: the statements of which everything is read.
* `Node.visible_iff_leading`: one of them.
* **`Node.covered_brace`**: a block whose closing brace is not read.
-/

namespace ChapelSource

/-! ## Reading past comments -/

theorem Word.slash_notMem (w : Word) : '/' ∉ w.chars :=
  fun h => absurd (w.isWordChar_of_mem _ h) (by decide)

theorem visible_append (cs ds : List Char) : visible (cs ++ ds) = visible cs ++ visible ds :=
  List.filter_append cs ds

theorem stripComments_cons {c : Char} (h : c ≠ '/') (cs : List Char) :
    stripComments (c :: cs) = c :: stripComments cs := by
  rw [stripComments]
  intro ds hc
  exact absurd hc h

theorem skipLine_cons {c : Char} (h : c ≠ '\n') (cs : List Char) :
    skipLine (c :: cs) = skipLine cs := by
  rw [skipLine]
  exact h

theorem stripComments_append {w : List Char} (h : '/' ∉ w) (cs : List Char) :
    stripComments (w ++ cs) = w ++ stripComments cs := by
  induction w with
  | nil => rfl
  | cons c w ih =>
    have hc := List.ne_of_not_mem_cons h
    rw [List.cons_append, stripComments_cons hc.symm, ih (List.not_mem_of_not_mem_cons h),
      List.cons_append]

/-- What stands on the line of a comment is not read. -/
theorem skipLine_append {w : List Char} (h : '\n' ∉ w) (cs : List Char) :
    skipLine (w ++ cs) = skipLine cs := by
  induction w with
  | nil => rfl
  | cons c w ih =>
    have hc := List.ne_of_not_mem_cons h
    rw [List.cons_append, skipLine_cons hc.symm, ih (List.not_mem_of_not_mem_cons h)]

theorem length_visible_skipLine_le : ∀ cs : List Char,
    (visible (skipLine cs)).length ≤ (visible (stripComments cs)).length := by
  intro cs
  induction cs with
  | nil => exact Nat.le_refl _
  | cons c cs ih =>
    by_cases hline : c = '\n'
    · exact Nat.le_of_eq (by rw [hline, skipLine, stripComments_cons (by decide)])
    · rw [skipLine_cons hline]
      by_cases hslash : ∃ ds, c = '/' ∧ cs = '/' :: ds
      · obtain ⟨ds, rfl, rfl⟩ := hslash
        exact Nat.le_of_eq (by rw [stripComments, skipLine_cons (by decide)])
      · have hcons : stripComments (c :: cs) = c :: stripComments cs := by
          rw [stripComments]
          intro ds hc hcs
          exact hslash ⟨ds, hc, hcs⟩
        rw [hcons]
        exact Nat.le_trans ih ((List.sublist_cons_self c _).filter _).length_le

/-- What is read after a text that ends with a comment or does not. -/
def readAfter (inComment : Bool) (cs : List Char) : List Char :=
  visible (if inComment then skipLine cs else stripComments cs)

theorem readAfter_lineBreak (inComment : Bool) (cs : List Char) :
    readAfter inComment ('\n' :: cs) = readAfter false cs := by
  cases inComment with
  | false =>
    rw [readAfter, if_neg (by decide), stripComments_cons (by decide)]
    rfl
  | true =>
    rw [readAfter, if_pos rfl, skipLine]
    rfl

/-- A text is read like one that is written without its comments, but for some words that come right
after a comment. -/
structure Shows (text plain : List Char) (inComment : Bool) (missing : Nat) : Prop where
  length_le (cs : List Char) : (readAfter false (text ++ cs)).length + missing ≤
    (visible plain).length + (readAfter inComment cs).length
  eq_of_none (cs : List Char) : missing = 0 →
    readAfter false (text ++ cs) = visible plain ++ readAfter inComment cs

namespace Shows

variable {text plain text' plain' w : List Char} {e e' : Bool} {k k' : Nat}

theorem of_eq (h : ∀ cs, readAfter false (text ++ cs) = visible plain ++ readAfter e cs) :
    Shows text plain e 0 where
  length_le cs := Nat.le_of_eq (by rw [h cs, List.length_append, Nat.add_zero])
  eq_of_none cs _ := h cs

theorem word (h : '/' ∉ w) : Shows w w false 0 := by
  refine .of_eq fun cs => ?_
  rw [readAfter, if_neg (by decide), stripComments_append h, visible_append, readAfter,
    if_neg (by decide)]

theorem comment (c : LineComment) : Shows c.chars [] true 0 := by
  refine .of_eq fun cs => ?_
  rw [LineComment.chars, List.cons_append, List.cons_append, readAfter, if_neg (by decide),
    stripComments, skipLine_append c.rest_inline]
  rfl

theorem congr (h : Shows text plain e k) (hplain : visible plain = visible plain') :
    Shows text plain' e k := by
  constructor
  · rw [← hplain]
    exact h.length_le
  · rw [← hplain]
    exact h.eq_of_none

/-- Two texts are read one after the other, if the first one does not end with a comment. -/
theorem append (h : Shows text plain false k) (h' : Shows text' plain' e k') :
    Shows (text ++ text') (plain ++ plain') e (k + k') where
  length_le cs := by
    have hfirst := h.length_le (text' ++ cs)
    have hsecond := h'.length_le cs
    rw [List.append_assoc, visible_append, List.length_append]
    omega
  eq_of_none cs hnone := by
    obtain ⟨hk, hk'⟩ := Nat.add_eq_zero_iff.1 hnone
    rw [List.append_assoc, h.eq_of_none _ hk, h'.eq_of_none _ hk', visible_append,
      List.append_assoc]

theorem line (h : Shows text plain e k) (h' : Shows text' plain' e' k') :
    Shows (text ++ '\n' :: text') (plain ++ plain') e' (k + k') where
  length_le cs := by
    have hfirst := h.length_le ('\n' :: (text' ++ cs))
    have hsecond := h'.length_le cs
    rw [readAfter_lineBreak] at hfirst
    rw [List.append_assoc, List.cons_append, visible_append, List.length_append]
    omega
  eq_of_none cs hnone := by
    obtain ⟨hk, hk'⟩ := Nat.add_eq_zero_iff.1 hnone
    rw [List.append_assoc, List.cons_append, h.eq_of_none _ hk, readAfter_lineBreak,
      h'.eq_of_none _ hk', visible_append, List.append_assoc]

/-- A word right after a comment is not read, a word after anything else is. -/
theorem close (h : Shows text plain e k) (hslash : '/' ∉ w) (hline : '\n' ∉ w)
    (hvisible : visible w ≠ []) (h' : Shows text' plain' e' k') :
    Shows (text ++ (w ++ text')) (plain ++ (w ++ plain')) e' (k + k' + e.toNat) := by
  have hrest : Shows (w ++ text') (w ++ plain') e' (0 + k') := (word hslash).append h'
  rw [Nat.zero_add] at hrest
  cases e with
  | false => exact h.append hrest
  | true =>
    -- the word is lost, and what is read of the rest of its line can only be less
    refine ⟨fun cs => ?_, fun cs hnone => by cases hnone⟩
    have hfirst := h.length_le (w ++ (text' ++ cs))
    have hsecond := h'.length_le cs
    have hskip : (readAfter true (w ++ (text' ++ cs))).length ≤
        (readAfter false (text' ++ cs)).length := by
      rw [readAfter, if_pos rfl, skipLine_append hline]
      exact length_visible_skipLine_le _
    have hlost : 0 < (visible w).length := List.length_pos_iff.2 hvisible
    rw [List.append_assoc, List.append_assoc, visible_append, visible_append, List.length_append,
      List.length_append, Bool.toNat_true]
    omega

theorem after_word (h : Shows text plain e k) (hslash : '/' ∉ w) :
    Shows (w ++ text) (w ++ plain) e k := by
  have hword := (word hslash).append h
  rwa [Nat.zero_add] at hword

theorem headed (h : Shows text plain e k) (keyword : String) (hkeyword : '/' ∉ keyword.toList)
    (condition : Word) :
    Shows (condition.headed keyword text) (condition.headed keyword plain) e k := by
  have hspace : Shows ([' '] ++ text) ([' '] ++ plain) e k := h.after_word (by decide)
  exact (hspace.after_word condition.slash_notMem).after_word hkeyword

/-- A closing brace right after a comment is not read. -/
theorem setOff (h : Shows text plain e k) (keyword : String) (hkeyword : '/' ∉ keyword.toList)
    (style : BlockStyle) : Shows (style.setOff keyword text) (style.setOff keyword plain)
      (style == .implicit && e) (k + (style != .implicit && e).toNat) := by
  have hbraced : Shows ('\x7b' :: (text ++ ['\x7d'])) ('\x7b' :: (plain ++ ['\x7d'])) false
      (k + e.toNat) :=
    (h.close (w := ['\x7d']) (by decide) (by decide) (by decide) (word List.not_mem_nil)).after_word
      (w := ['\x7b']) (by decide)
  cases style with
  | explicit => exact hbraced
  | implicit => exact h.after_word hkeyword
  | keywordAndBraces => exact hbraced.after_word hkeyword

end Shows

/-! ## Statements -/

namespace Statement

/-- Comments have no visible place among statements that are written without them. -/
theorem visible_moreChars (ss : List Statement) :
    visible (moreChars "\n" false ss) = visible (lineChars "\n" false ss) := by
  induction ss with
  | nil => rw [moreChars, lineChars]
  | cons s ss ih =>
    rw [moreChars, lineChars]
    split
    · rfl
    · exact ih

theorem visible_lineChars_cons (s : Statement) (ss : List Statement) :
    visible (lineChars "\n" false (s :: ss)) =
      visible (s.chars "\n" false ++ lineChars "\n" false ss) := by
  rw [lineChars, visible_append]
  split
  · rw [visible_append, visible_moreChars]
  · next hwritten =>
    cases s with
    | comment c => rw [chars]; rfl
    | _ => exact absurd rfl hwritten

mutual

/-- **A statement is read up to what comes right after its comments.** -/
theorem shows : ∀ s : Statement,
    Shows (s.chars "\n" true) (s.chars "\n" false) s.endsInComment s.covered
  | name w => by
    rw [chars, chars]
    exact .word w.slash_notMem
  | comment c => by
    rw [chars, chars]
    exact .comment c
  | block body => by
    rw [chars, chars]
    exact bodyShows "" (by decide) body
  | whileDo w body => by
    rw [chars, chars]
    exact (bodyShows "do " (by decide) body).headed "while " (by decide) w
  | ifThen w body => by
    rw [chars, chars]
    exact (bodyShows "then " (by decide) body).headed "if " (by decide) w
  | ifElse w body elseBody => by
    rw [chars, chars]
    exact ((bodyShows "then " (by decide) body).close (by decide) (by decide) (by decide)
      (bodyShows "" (by decide) elseBody)).headed "if " (by decide) w

theorem bodyShows (keyword : String) (hkeyword : '/' ∉ keyword.toList) : ∀ body : Body Statement,
    Shows (bodyChars "\n" true keyword body) (bodyChars "\n" false keyword body)
      (bodyEndsInComment body) (bodyCovered body)
  | ⟨style, ss⟩ => by
    rw [bodyChars, bodyChars]
    exact (lineShows ss).setOff keyword hkeyword style

theorem lineShows : ∀ ss : List Statement,
    Shows (lineChars "\n" true ss) (lineChars "\n" false ss) (linesEndInComment ss)
      (linesCovered ss)
  | [] => .word List.not_mem_nil
  | s :: ss => by
    have hfirst := shows s
    have hrest := lineShows ss
    refine Shows.congr ?_ (visible_lineChars_cons s ss).symm
    rw [lineChars_cons rfl, linesCovered]
    cases ss with
    | nil =>
      rw [moreChars, lineChars, List.append_nil, List.append_nil, linesCovered, linesEndInComment]
      exact hfirst
    | cons t ss =>
      rw [moreChars_cons rfl, linesEndInComment]
      exact hfirst.line hrest

end

end Statement

/-! ## Printing -/

namespace Node

/-- **Everything is read of a statement with its comments exactly if none of its closing braces and
`else`s comes right after a comment.** -/
theorem IsStatement.visible_iff {n : Node} {s : Statement} (h : n.IsStatement s) :
    ∃ text plain, n.print ⟨true, "\n"⟩ = .ok text ∧ n.print ⟨false, "\n"⟩ = .ok plain ∧
      (visible (stripComments text.toList) = visible plain.toList ↔ s.covered = 0) := by
  refine ⟨_, _, h.print_eq _, h.print_eq _, ?_⟩
  have hle := s.shows.length_le []
  have heq := s.shows.eq_of_none []
  have hend : readAfter s.endsInComment [] = [] := by cases s.endsInComment <;> rfl
  rw [List.append_nil, hend] at hle heq
  rw [List.append_nil] at heq
  rw [String.toList_ofList, String.toList_ofList]
  constructor
  · intro hsame
    have hlength : (readAfter false (s.chars "\n" true)).length =
        (visible (s.chars "\n" false)).length := congrArg List.length hsame
    rw [hlength, List.length_nil] at hle
    omega
  · exact heq

/-- The block of a comment and a name after it is read in whole. -/
theorem visible_iff_leading :
    let s := Statement.block ⟨.explicit,
      [.comment ⟨" note".toList, by decide⟩, .name (.single 'a' (by decide))]⟩
    (s.toNode (.sourceless ⟨0⟩)).IsStatement s ∧
      ∃ text plain, (s.toNode (.sourceless ⟨0⟩)).print ⟨true, "\n"⟩ = .ok text ∧
        (s.toNode (.sourceless ⟨0⟩)).print ⟨false, "\n"⟩ = .ok plain ∧
        (visible (stripComments text.toList) = visible plain.toList ↔ s.covered = 0) := by
  intro s
  have h := s.isStatement_toNode (.sourceless ⟨0⟩)
  exact ⟨h, h.visible_iff⟩

/-- **The closing brace of a block whose last statement is a comment is not read.** -/
theorem covered_brace :
    let s := Statement.block ⟨.explicit, [.comment ⟨" c".toList, by decide⟩]⟩
    (s.toNode (.sourceless ⟨0⟩)).print ⟨true, "\n"⟩ = .ok "{// c}" ∧
      (s.toNode (.sourceless ⟨0⟩)).print ⟨false, "\n"⟩ = .ok "{}" ∧
      visible (stripComments "{// c}".toList) ≠ visible "{}".toList := by
  intro s
  have h := s.isStatement_toNode (.sourceless ⟨0⟩)
  refine ⟨?_, ?_, by decide⟩
  · rw [h.print_eq]
    rfl
  · rw [h.print_eq]
    rfl

end Node

end ChapelSource
