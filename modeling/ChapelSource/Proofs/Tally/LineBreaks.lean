import ChapelSource.Proofs.Tally.Faults

/-!
# Texts between line breaks

What separates statements is written between segments of the text that do not depend on it. The tree
says how many there are.

* `Node.tallyOf_of_no_fault`: without a fault a tree amounts to its line breaks.
* `exists_segments`: pieces cut at their line breaks.
* **`Node.print_segments`**: the text of a tree is the same for every line break, save the line
  breaks.
-/

namespace ChapelSource

open Visit

/-! ## Line breaks of a tree -/

/-- Texts that are no more than line breaks amount to all of them. -/
theorem Tally.sum_breaks {α : Type} {f : α → Tally} {count : α → Nat} {l : List α}
    (h : ∀ a ∈ l, f a = .breaks (count a)) : (l.map f).sum = .breaks (l.map count).sum := by
  induction l with
  | nil => rfl
  | cons a l ih =>
    rw [List.map_cons, List.sum_cons, h a List.mem_cons_self,
      ih fun b hb => h b (List.mem_cons_of_mem _ hb)]
    rfl

/-- Without a fault a tree amounts to its line breaks. -/
theorem Node.tallyOf_of_no_fault (comments : Bool) {n : Node}
    (h : firstFault? ⟨.whole, n⟩ = none) :
    tallyOf comments [⟨.whole, n⟩] = .breaks (n.lineBreaks comments) := by
  rw [tallyOf, List.flatMap_singleton]
  refine Tally.sum_breaks fun v hv => ?_
  rw [Visit.tally, firstFault?_eq_none_iff.1 h v hv]
  rfl

/-! ## Segments -/

/-- Pieces without a fault are cut at their line breaks. -/
theorem exists_segments {ps : List Piece} {k : Nat} (h : (ps.map Piece.tally).sum = .breaks k) :
    ∃ first rest, rest.length = k ∧
      ∀ newLine : String, write newLine "" ps = .ok (newLine.intercalate (first :: rest)) := by
  induction ps generalizing k with
  | nil =>
    obtain rfl : 0 = k := Tally.breaks.inj h
    exact ⟨"", [], rfl, fun newLine => by simp [write]⟩
  | cons p ps ih =>
    rw [List.map_cons, List.sum_cons] at h
    -- A piece that is no line break goes to the segment before the first of them.
    have hplain : p.tally = 0 → ∀ s, (∀ newLine, p.text newLine = .ok s) →
        ∃ first rest, rest.length = k ∧
          ∀ newLine : String, write newLine "" (p :: ps) =
            .ok (newLine.intercalate (first :: rest)) := by
      intro hzero s hs
      rw [hzero, zero_add] at h
      obtain ⟨first, rest, hlength, hwrite⟩ := ih h
      refine ⟨s ++ first, rest, hlength, fun newLine => ?_⟩
      rw [write_cons (hs newLine) (hwrite newLine), String.intercalate_cons_append]
    cases p with
    | operator symbol spaced => cases spaced <;> exact hplain rfl _ fun _ => rfl
    | atom a =>
      cases a with
      | text s => exact hplain rfl s fun _ => rfl
      | literal marker body => exact hplain rfl _ fun _ => rfl
      | fault e => contradiction
      | lineBreak =>
        cases hrest : (ps.map Piece.tally).sum with
        | fault e =>
          rw [hrest] at h
          contradiction
        | breaks m =>
          rw [hrest] at h
          obtain ⟨first, rest, hlength, hwrite⟩ := ih hrest
          refine ⟨"", first :: rest, ?_, fun newLine => ?_⟩
          · rw [List.length_cons, hlength, Nat.add_comm]
            exact Tally.breaks.inj h
          · rw [write_cons rfl (hwrite newLine), String.intercalate_cons_cons, String.empty_append]

namespace Node

/-- **What separates statements is a pure separator.** Either a tree has no text, for the same cause
whatever separates statements, or it has the same segments for every separator, joined by it. There
is one segment more than the constructs of the tree write line breaks. -/
theorem print_segments (comments : Bool) (n : Node) :
    (∃ e, ∀ newLine, n.print ⟨comments, newLine⟩ = .error e) ∨
      ∃ segments : List String, segments.length = n.lineBreaks comments + 1 ∧
        ∀ newLine, n.print ⟨comments, newLine⟩ = .ok (newLine.intercalate segments) := by
  cases hf : firstFault? ⟨.whole, n⟩ with
  | some e => exact .inl ⟨e, fun newLine => print_eq_error_iff.2 hf⟩
  | none =>
    have hpieces : ((n.pieces comments false .whole).map Piece.tally).sum =
        .breaks (n.lineBreaks comments) :=
      (n.tally_pieces comments false .whole).trans (tallyOf_of_no_fault comments hf)
    obtain ⟨first, rest, hlength, hwrite⟩ := exists_segments hpieces
    exact .inr ⟨first :: rest, congrArg (· + 1) hlength, hwrite⟩

end Node

end ChapelSource
