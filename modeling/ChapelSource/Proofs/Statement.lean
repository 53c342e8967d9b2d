import ChapelSource.Statement
import ChapelSource.Proofs.Writing

/-!
# The text of a statement

* `Node.IsStatement.writes`, **`Node.IsStatement.print_eq`**: a node that is a statement is written
  as the statement is.
-/

namespace ChapelSource

open Layout

namespace Node

theorem IsStatement.isComment_eq {n : Node} {s : Statement} (h : n.IsStatement s) :
    n.isComment = s.isComment := by
  cases h <;> rfl

theorem kept_cons_of_isWritten {comments : Bool} {n : Node} {s : Statement}
    (h : n.IsStatement s) (hs : s.isWritten comments = true) (ns : List Node) :
    kept comments (n :: ns) = n :: kept comments ns := by
  rw [kept, List.filter_cons_of_pos (by rw [h.isComment_eq]; exact hs), kept]

theorem kept_cons_of_not_isWritten {comments : Bool} {n : Node} {s : Statement}
    (h : n.IsStatement s) (hs : ¬ s.isWritten comments = true) (ns : List Node) :
    kept comments (n :: ns) = kept comments ns := by
  rw [kept, List.filter_cons_of_neg (by rw [h.isComment_eq]; exact hs), kept]

section

variable {newLine : String} {comments inType : Bool}

theorem writes_name (info : NodeInfo) (w : Word) :
    (Node.mk info (.identifier w.text)).Writes newLine comments inType .whole w.chars :=
  writes_iff.2 (writes_ofList w.chars)

theorem writes_body {ns : List Node} {cs : List Char}
    (h : (lines comments ns).Writes newLine comments inType cs) (keyword : String)
    (style : BlockStyle) : (Body.layout comments keyword ⟨style, ns⟩).Writes newLine comments inType
      (style.setOff keyword cs) := by
  have hbraced : (braced comments ns).Writes newLine comments inType ('\x7b' :: (cs ++ ['\x7d'])) :=
    ((writes_text "\x7b").append h).append (writes_text "\x7d")
  cases style with
  | explicit => exact hbraced
  | implicit => exact (writes_text keyword).append h
  | keywordAndBraces => exact (writes_text keyword).append hbraced

theorem writes_headed {l : Layout} {cs : List Char} (h : l.Writes newLine comments inType cs)
    (keyword : String) (info : NodeInfo) (w : Word) : Layout.Writes newLine comments inType
      (keyword ++ whole (.mk info (.identifier w.text)) ++ " " ++ l)
      (w.headed keyword cs) := by
  rw [List.append_assoc, List.append_assoc]
  exact (writes_text keyword).append
    ((writes_whole (writes_name info w)).append ((writes_text " ").append h))

mutual

/-- **A node that is a statement is written as the statement is.** -/
theorem IsStatement.writes : ∀ {n : Node} {s : Statement}, n.IsStatement s →
    n.Writes newLine comments inType .whole (s.chars newLine comments)
  | _, _, .name info w => writes_name info w
  | _, _, .comment info c => by
    rw [writes_iff, Statement.chars]
    cases comments with
    | false => exact writes_nil
    | true => exact writes_ofList c.chars
  | _, _, .block info style hs => by
    rw [writes_iff, Statement.chars]
    exact writes_body hs.writes "" style
  | _, _, .whileDo info nameInfo w style hs => by
    rw [writes_iff, Statement.chars]
    exact writes_headed (writes_body hs.writes "do " style) "while " nameInfo w
  | _, _, .ifThen info nameInfo w style hs => by
    have h := writes_headed (writes_body hs.writes "then " style) "if " nameInfo w
    rw [← List.append_nil (_ ++ Body.layout _ _ _)] at h
    rw [writes_iff, Statement.chars]
    exact h
  | _, _, .ifElse info nameInfo w style elseStyle hs ht => by
    have h := writes_headed ((writes_body hs.writes "then " style).append
      ((writes_text " else ").append (writes_body ht.writes "" elseStyle))) "if " nameInfo w
    rw [← List.append_assoc] at h
    rw [writes_iff, Statement.chars]
    exact h

theorem AreStatements.writes : ∀ {ns : List Node} {ss : List Statement}, AreStatements ns ss →
    (lines comments ns).Writes newLine comments inType (Statement.lineChars newLine comments ss)
  | _, _, .nil => by
    rw [Statement.lineChars]
    exact writes_nil
  | _, _, @AreStatements.cons _ s ns _ h hs => by
    rw [Statement.lineChars]
    split
    · next hwritten =>
      rw [lines, listing, kept_cons_of_isWritten h hwritten, List.map_cons, join_cons]
      exact (writes_whole h.writes).append hs.writes_more
    · next hwritten =>
      rw [lines, listing, kept_cons_of_not_isWritten h hwritten]
      exact hs.writes

theorem AreStatements.writes_more : ∀ {ns : List Node} {ss : List Statement},
    AreStatements ns ss → Layout.Writes newLine comments inType
      (((kept comments ns).map whole).flatMap (lineBreak ++ ·))
      (Statement.moreChars newLine comments ss)
  | _, _, .nil => by
    rw [Statement.moreChars]
    exact writes_nil
  | _, _, .cons h hs => by
    rw [Statement.moreChars]
    split
    · next hwritten =>
      rw [kept_cons_of_isWritten h hwritten, List.map_cons, List.flatMap_cons, List.append_assoc]
      exact writes_lineBreak.append ((writes_whole h.writes).append hs.writes_more)
    · next hwritten =>
      rw [kept_cons_of_not_isWritten h hwritten]
      exact hs.writes_more

end

theorem IsStatement.print_eq {n : Node} {s : Statement} (h : n.IsStatement s) (o : PrintOptions) :
    n.print o = .ok (String.ofList (s.chars o.newLine o.comments)) := h.writes.print_eq

end

end Node

end ChapelSource
