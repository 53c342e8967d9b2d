import Mathlib.Data.List.Basic
import ChapelSource.Spacing
import ChapelSource.Proofs.Tally.Faults
import ChapelSource.Proofs.Printer

/-!
# Types are written without spaces around operators

A tree in the place of a type has the same pieces as elsewhere, with the same parentheses, and only
its binary operators lose their spaces. What stands inside a type already is not touched.

* `Node.pieces_unspaced`: the pieces of a type.
* `Node.symbol_ne_power`: no `**` has spaces to lose.
* `exists_spelled`: pieces cut at their spaced symbols.
* `Printing.writes_type`: what a printer writes of a type, wherever it stands.
* **`Node.printType_spelled`**: the text of a tree as a type, beside its text elsewhere.
-/

namespace ChapelSource

/-! ## Pieces of a type -/

/-- Inside a type is every type, and all that is inside a type elsewhere. -/
theorem Role.inType_true (role : Role) : role.inType true = true := by cases role <;> rfl

/-- **A node has the same pieces inside a type as elsewhere**, save the spaces around operators. -/
theorem Node.pieces_unspaced (comments inType : Bool) (role : Role) (n : Node) :
    n.pieces comments true role = (n.pieces comments inType role).map Piece.unspaced := by
  rw [pieces_eq, pieces_eq, Layout.pieces, Layout.pieces, List.map_flatMap]
  refine List.flatMap_congr fun i hi => ?_
  cases i with
  | atom a => rfl
  | operator symbol =>
    show [Piece.operator symbol (symbol != "**" && !true)] = [.operator symbol false]
    rw [Bool.not_true, Bool.and_false]
  | child r m =>
    have hlt : sizeOf m < sizeOf n := n.below_layout comments role r m hi
    show m.pieces comments (r.inType true) r = _
    rw [r.inType_true]
    exact m.pieces_unspaced comments (r.inType inType) r
termination_by sizeOf n

/-- The symbol `**` has no spaces anywhere. -/
theorem Node.symbol_ne_power (comments inType : Bool) (role : Role) (n : Node) :
    ∀ p ∈ n.pieces comments inType role, p.spacedSymbol? ≠ some "**" := by
  intro p hp
  rw [pieces_eq, Layout.pieces, List.mem_flatMap] at hp
  obtain ⟨i, hi, hp⟩ := hp
  cases i with
  | atom a =>
    rw [List.mem_singleton.1 hp]
    exact (Option.some_ne_none _).symm
  | operator symbol =>
    rw [List.mem_singleton.1 hp]
    cases hspaced : Operator.spaced symbol inType with
    | false => exact (Option.some_ne_none _).symm
    | true =>
      rintro ⟨⟩
      exact absurd hspaced (by cases inType <;> decide)
  | child r m =>
    have hlt : sizeOf m < sizeOf n := n.below_layout comments role r m hi
    exact m.symbol_ne_power comments (r.inType inType) r p hp
termination_by sizeOf n

/-! ## Texts cut at symbols -/

theorem Piece.fault?_unspaced (p : Piece) : p.unspaced.fault? = p.fault? := by cases p <;> rfl

/-- Pieces without a fault are cut at their spaced symbols. -/
theorem exists_spelled (newLine : String) {ps : List Piece}
    (h : ps.findSome? Piece.fault? = none) :
    ∃ t : SymbolText, t.symbols = ps.filterMap Piece.spacedSymbol? ∧
      write newLine "" ps = .ok (t.spelled " ") ∧
      write newLine "" (ps.map Piece.unspaced) = .ok (t.spelled "") := by
  induction ps with
  | nil => exact ⟨⟨"", []⟩, rfl, rfl, rfl⟩
  | cons p ps ih =>
    rw [findSome?_cons_or, Option.or_eq_none_iff] at h
    obtain ⟨t, hsymbols, hspaced, hunspaced⟩ := ih h.2
    -- A piece that stays as it is goes to the text before the first symbol.
    have hplain : p.unspaced = p → p.spacedSymbol? = none → ∃ t : SymbolText,
        t.symbols = (p :: ps).filterMap Piece.spacedSymbol? ∧
        write newLine "" (p :: ps) = .ok (t.spelled " ") ∧
        write newLine "" ((p :: ps).map Piece.unspaced) = .ok (t.spelled "") := by
      intro hsame hnone
      obtain ⟨s, hs⟩ := Piece.text_of_no_fault h.1 newLine
      refine ⟨⟨s ++ t.first, t.rest⟩, ?_, ?_, ?_⟩
      · rw [List.filterMap_cons_none hnone, ← hsymbols]
        rfl
      · rw [write_cons hs hspaced, SymbolText.spelled, SymbolText.spelled, String.append_assoc]
      · rw [List.map_cons, hsame, write_cons hs hunspaced, SymbolText.spelled, SymbolText.spelled,
          String.append_assoc]
    cases p with
    | atom a => exact hplain rfl rfl
    | operator symbol spaced =>
      cases spaced with
      | false => exact hplain rfl rfl
      | true =>
        refine ⟨⟨"", (symbol, t.first) :: t.rest⟩, ?_, ?_, ?_⟩
        · have hhead : (Piece.operator symbol true).spacedSymbol? = some symbol := rfl
          rw [List.filterMap_cons_some hhead, ← hsymbols]
          rfl
        · rw [write_cons rfl hspaced]
          simp [SymbolText.spelled, String.append_assoc]
        · rw [List.map_cons, Piece.unspaced, write_cons rfl hunspaced]
          simp [SymbolText.spelled, String.append_assoc]

/-! ## Types -/

/-- Wherever a printer stands, it writes a type in the context of types and then goes on where it
was. -/
theorem Printing.writes_type (n : Node) :
    (inRole .typeExpr (node .typeExpr n)).Writes fun comments _ => n.pieces comments true .typeExpr :=
  (writes_node .typeExpr n).inRole .typeExpr

namespace Node

/-- **A tree is written as a type like anywhere else, without the spaces around operators.** Its
pieces are the same but for these spaces. So either it has no text in both places, for the same
cause, or its text is cut at the symbols of its operators outside types, none of them a `**`, and has
a space on each side of these symbols in the one place and none in the other. A printer that meets
the tree in the place of a type writes these pieces wherever it stands, inside a type already or
not. -/
theorem printType_spelled (o : PrintOptions) (n : Node) :
    n.pieces o.comments true .typeExpr = (n.pieces o.comments false .whole).map Piece.unspaced ∧
    ((∃ e, n.print o = .error e ∧ n.printType o = .error e) ∨
      ∃ t : SymbolText,
        t.symbols = (n.pieces o.comments false .whole).filterMap Piece.spacedSymbol? ∧
        "**" ∉ t.symbols ∧ n.print o = .ok (t.spelled " ") ∧
        n.printType o = .ok (t.spelled "")) ∧
    (Printing.inRole .typeExpr (Printing.node .typeExpr n)).Writes
      fun comments _ => n.pieces comments true .typeExpr := by
  have hpieces : n.pieces o.comments true .typeExpr =
      (n.pieces o.comments false .whole).map Piece.unspaced := by
    rw [pieces_of_ne (by decide)]
    exact n.pieces_unspaced o.comments false .whole
  refine ⟨hpieces, ?_, Printing.writes_type n⟩
  unfold print printType
  rw [hpieces]
  cases hf : (n.pieces o.comments false .whole).findSome? Piece.fault? with
  | some e =>
    have hf' : ((n.pieces o.comments false .whole).map Piece.unspaced).findSome? Piece.fault? =
        some e := by
      rw [List.findSome?_map, ← hf]
      exact congrArg (List.findSome? · _) (funext Piece.fault?_unspaced)
    exact .inl ⟨e, write_of_fault hf "", write_of_fault hf' ""⟩
  | none =>
    obtain ⟨t, hsymbols, hspaced, hunspaced⟩ := exists_spelled o.newLine hf
    refine .inr ⟨t, hsymbols, ?_, hspaced, hunspaced⟩
    rw [hsymbols, List.mem_filterMap]
    rintro ⟨p, hp, hsymbol⟩
    exact n.symbol_ne_power o.comments false .whole p hp hsymbol

end Node

end ChapelSource
