import ChapelSource.Head
import ChapelSource.Proofs.Writing
import ChapelSource.Proofs.Tally.Faults

/-!
# What follows an expression that ends with its body

A loop or a `try` around a single expression is written without parentheses where it is the left
operand of an operator or the receiver of a member. What follows it then stands right after its
body, as if it belonged to the body. The two are told apart by the parentheses of the body, if it
needs any.

* `Head.exists_pieces`: what is written before the body does not depend on the body.
* `write_grouped_ne_iff`: parentheses around a part are seen in a text.
* **`Head.print_ne_iff`**: when an operator or a member after a loop or a `try` is told from one
  inside its body.
* **`Head.sum_after_loop_eq`**: a sum after a loop that is written like one inside its body.
-/

namespace ChapelSource

open Layout

/-! ## The body of a head -/

/-- What is laid out before the body does not depend on the body. -/
theorem Head.exists_layout (h : Head) (comments : Bool) : ∃ l : Layout, ∀ info body,
    (h.withBody info body).layout comments .whole = l ++ lines comments [body] := by
  cases h with
  | indexedLoop kind index iterand withClause =>
    let head := IndexedLoop.headLayout comments ⟨index, iterand, withClause, ⟨.implicit, []⟩⟩
    have hkeyword : ∀ (keyword : String) (body : Node),
        IndexedLoop.keywordLayout comments keyword
            ⟨index, iterand, withClause, ⟨.implicit, [body]⟩⟩ =
          keyword ++ " " ++ head ++ " " ++ "do " ++ lines comments [body] :=
      fun _ _ => (List.append_assoc _ _ _).symm
    cases kind with
    | coforallLoop => exact ⟨_, fun _ => hkeyword "coforall"⟩
    | forallLoop => exact ⟨_, fun _ => hkeyword "forall"⟩
    | foreachLoop => exact ⟨_, fun _ => hkeyword "foreach"⟩
    | bracketLoop =>
      refine ⟨"[" ++ head ++ "]" ++ " " ++ "", fun _ _ => ?_⟩
      simp only [Head.withBody, Head.form, Node.layout, Node.form_mk, Form.layout,
        IndexedLoop.layout, IndexedLoop.bracketLayout, Body.plainLayout, Body.layout,
        List.isEmpty_cons, Bool.not_false, Bool.or_true, ifTrue, if_true, List.append_assoc]
      rfl
  | forLoop index iterand isParam =>
    refine ⟨"for " ++ ifTrue isParam "param " ++ loopIndexLayout index ++ whole iterand ++ " " ++
      "do ", fun _ _ => ?_⟩
    exact (List.append_assoc _ _ _).symm
  | attempt isBang handlers => exact ⟨(if isBang then "try! " else "try " : String), fun _ _ => rfl⟩

theorem Head.exists_pieces (h : Head) (comments inType : Bool) : ∃ ps, ∀ info body,
    (h.withBody info body).pieces comments inType .whole =
      ps ++ body.pieces comments inType .whole := by
  obtain ⟨l, hl⟩ := h.exists_layout comments
  refine ⟨l.pieces comments inType, fun info body => ?_⟩
  rw [Node.pieces_eq, hl, pieces_append, pieces_lines_singleton]

/-! ## Parentheses in a text -/

theorem exists_writesPieces (newLine : String) {ps : List Piece}
    (h : ps.findSome? Piece.fault? = none) : ∃ cs, WritesPieces newLine ps cs := by
  obtain ⟨text, ht⟩ : ∃ text, write newLine "" ps = .ok text := write_of_no_fault h ""
  exact ⟨text.toList, by rw [WritesPieces, ht, String.ofList_toList]⟩

/-- Pieces in parentheses. -/
def enclose (ps : List Piece) : List Piece := [.atom (.text "(")] ++ ps ++ [.atom (.text ")")]

theorem WritesPieces.enclose {newLine : String} {ps : List Piece} {cs : List Char}
    (h : WritesPieces newLine ps cs) :
    WritesPieces newLine (enclose ps) ('(' :: (cs ++ [')'])) := by
  have hopen : WritesPieces newLine [.atom (.text "(")] ['('] := rfl
  have hclose : WritesPieces newLine [.atom (.text ")")] [')'] := rfl
  exact (hopen.append h).append hclose

theorem fault?_enclose (ps : List Piece) :
    (enclose ps).findSome? Piece.fault? = ps.findSome? Piece.fault? := by
  rw [enclose, List.findSome?_append, List.findSome?_append]
  exact Option.or_none.trans Option.none_or

theorem write_enclose_ne_iff (newLine : String) (before part after : List Piece) :
    write newLine "" (before ++ part ++ after) ≠
        write newLine "" (before ++ enclose part ++ after) ↔
      ∃ text, write newLine "" (before ++ part ++ after) = .ok text := by
  have hfault : (before ++ enclose part ++ after).findSome? Piece.fault? =
      (before ++ part ++ after).findSome? Piece.fault? := by
    simp only [List.findSome?_append, fault?_enclose]
  cases hf : (before ++ part ++ after).findSome? Piece.fault? with
  | some e =>
    rw [write_of_fault hf, write_of_fault (hfault.trans hf)]
    exact ⟨fun h => absurd rfl h, fun ⟨_, h⟩ => nomatch h⟩
  | none =>
    rw [List.findSome?_append, Option.or_eq_none_iff, List.findSome?_append,
      Option.or_eq_none_iff] at hf
    obtain ⟨bs, hbefore⟩ := exists_writesPieces newLine hf.1.1
    obtain ⟨ps, hpart⟩ := exists_writesPieces newLine hf.1.2
    obtain ⟨as, hafter⟩ := exists_writesPieces newLine hf.2
    have hbare : write newLine "" (before ++ part ++ after) = _ :=
      (hbefore.append hpart).append hafter
    have henclosed : write newLine "" (before ++ enclose part ++ after) = _ :=
      (hbefore.append hpart.enclose).append hafter
    rw [hbare, henclosed]
    refine ⟨fun _ => ⟨_, rfl⟩, fun _ h => ?_⟩
    have hlength := congrArg List.length (String.ofList_injective (Except.ok.inj h))
    simp only [List.length_append, List.length_cons, List.length_nil] at hlength
    omega

theorem Layout.pieces_grouped (comments inType parens : Bool) (n : Node) :
    (grouped parens n).pieces comments inType =
      if parens then enclose (n.pieces comments inType .whole)
      else n.pieces comments inType .whole := by
  have hwhole : (whole n).pieces comments inType = n.pieces comments inType .whole :=
    List.append_nil _
  cases parens with
  | false => exact hwhole
  | true =>
    simp only [grouped, if_true, parenthesized, pieces_append, hwhole]
    rfl

/-- A child and the same child in the parentheses that it may need are told apart by the text around
them exactly if there is a text and the child needs them. -/
theorem write_grouped_ne_iff (newLine : String) (comments inType parens : Bool) (n : Node)
    (before after : List Piece) :
    write newLine "" (before ++ n.pieces comments inType .whole ++ after) ≠
        write newLine "" (before ++ (grouped parens n).pieces comments inType ++ after) ↔
      (∃ text, write newLine "" (before ++ n.pieces comments inType .whole ++ after) = .ok text) ∧
        parens = true := by
  rw [pieces_grouped]
  cases parens with
  | false => exact ⟨fun h => absurd rfl h, fun h => nomatch h.2⟩
  | true => exact (write_enclose_ne_iff newLine before _ after).trans (and_iff_left rfl).symm

/-! ## What follows a body -/

namespace Node

variable (comments : Bool) (info : NodeInfo)

theorem pieces_binary (op : BinaryOp) (left right : Node) :
    (binary info op left right).pieces comments false .whole =
      (operand op.operator left false).pieces comments false ++
        (Layout.operator op.symbol ++ operand op.operator right true).pieces comments false := by
  rw [pieces_eq, ← pieces_append, ← List.append_assoc]
  rfl

theorem pieces_member (receiver : Node) (field : String) :
    (member info receiver field).pieces comments false .whole =
      (tight receiver).pieces comments false ++ Layout.pieces comments false ("." ++ field) := by
  rw [pieces_eq, ← pieces_append, ← List.append_assoc]
  rfl

end Node

namespace Head

variable (h : Head)

theorem operand_withBody (outer : Operator) (info : NodeInfo) (body : Node) :
    operand outer (h.withBody info body) false = whole (h.withBody info body) := by
  cases h <;> rfl

theorem tight_withBody (info : NodeInfo) (body : Node) :
    tight (h.withBody info body) = whole (h.withBody info body) := by
  cases h <;> rfl

/-- **What follows a loop or a `try` around a single expression is told from the same inside its
body exactly if there is a text and the body is parenthesized there.** What follows is an operator
with its right operand, or a member. -/
theorem print_ne_iff (o : PrintOptions) (op : BinaryOp) (field : String)
    (outer inner outer' inner' : NodeInfo) (body right : Node) :
    ((Node.binary outer op (h.withBody inner body) right).print o ≠
        (h.withBody outer' (Node.binary inner' op body right)).print o ↔
      (∃ text, (Node.binary outer op (h.withBody inner body) right).print o = .ok text) ∧
        operandNeedsParens op.operator body false = true) ∧
    ((Node.member outer (h.withBody inner body) field).print o ≠
        (h.withBody outer' (Node.member inner' body field)).print o ↔
      (∃ text, (Node.member outer (h.withBody inner body) field).print o = .ok text) ∧
        (body.opCall?.isSome || body.bindsLoosely) = true) := by
  obtain ⟨before, hbefore⟩ := h.exists_pieces o.comments false
  have hwhole : (whole (h.withBody inner body)).pieces o.comments false =
      before ++ body.pieces o.comments false .whole :=
    (List.append_nil _).trans (hbefore inner body)
  constructor
  · rw [Node.print, Node.print, hbefore, Node.pieces_binary, Node.pieces_binary, operand_withBody,
      hwhole, ← List.append_assoc before]
    exact write_grouped_ne_iff _ _ _ _ _ _ _
  · rw [Node.print, Node.print, hbefore, Node.pieces_member, Node.pieces_member, tight_withBody,
      hwhole, ← List.append_assoc before]
    exact write_grouped_ne_iff _ _ _ _ _ _ _

theorem writes_forLoop {newLine : String} {comments inType : Bool} {index iterand body : Node}
    {is as bs : List Char} (hindex : index.Writes newLine comments inType .whole is)
    (hiterand : iterand.Writes newLine comments inType .whole as)
    (hbody : body.Writes newLine comments inType .whole bs) (info : NodeInfo) :
    ((forLoop (some index) iterand false).withBody info body).Writes newLine comments inType .whole
      ("for ".toList ++ is ++ " in ".toList ++ as ++ " do ".toList ++ bs) := by
  have hin := ((writes_text "for ").append (writes_whole hindex)).append (writes_text " in ")
  have hdo := (writes_text " ").append (writes_branch hbody "do ")
  have hloop := (hin.append (writes_whole hiterand)).append hdo
  rw [Node.writes_iff]
  simpa [withBody, form, Node.layout, Form.layout, forLayout, loopIndexLayout, ifSome, ifTrue,
    Body.layout] using hloop

/-- **A sum after a loop is written like the loop over a sum.** -/
theorem sum_after_loop_eq :
    let info := NodeInfo.sourceless ⟨0⟩
    let name (s : String) : Node := .mk info (.identifier s)
    let loop := forLoop (some (name "i")) (name "A") false
    (Node.binary info .plus (loop.withBody info (name "e")) (name "x")).print {} =
        .ok "for i in A do e + x" ∧
      (loop.withBody info (Node.binary info .plus (name "e") (name "x"))).print {} =
        .ok "for i in A do e + x" := by
  intro info name loop
  have hname (s : String) : (name s).Writes "\n" false false .whole s.toList :=
    Node.writes_iff.2 (writes_text s)
  have hsum {l : Node} {ls : List Char} (hl : l.Writes "\n" false false .whole ls)
      (h : operandNeedsParens BinaryOp.plus.operator l false = false) :
      (Node.binary info .plus l (name "x")).Writes "\n" false false .whole
        (ls ++ " + x".toList) := by
    have hleft : (operand BinaryOp.plus.operator l false).Writes "\n" false false ls := by
      rw [operand, h]
      exact writes_whole hl
    have hright : Layout.Writes "\n" false false
        (Layout.operator "+" ++ operand BinaryOp.plus.operator (name "x") true) " + x".toList :=
      (writes_operator "+").append (writes_grouped (hname "x") false)
    rw [Node.Writes, Node.pieces_binary, ← pieces_append]
    exact hleft.append hright
  exact ⟨(hsum (writes_forLoop (hname "i") (hname "A") (hname "e") _) rfl).print_eq,
    (writes_forLoop (hname "i") (hname "A") (hsum (hname "e") rfl) _).print_eq⟩

end Head

end ChapelSource
