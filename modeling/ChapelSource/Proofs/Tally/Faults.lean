import ChapelSource.Print
import ChapelSource.Proofs.Tally.Construct

/-!
# When printing fails

Printing stops at the first fault of a tree, which is that of the first malformed node that is
reached. No option has a part in it.

* `Piece.fault?`, `write_of_fault`, `write_of_no_fault`: what is written of pieces.
* `Node.tally_pieces`: the pieces of a node amount to all that is reached from it.
* `Visit.firstFault?`: the first fault from a visit on.
* `Node.fault?_pieces`: the pieces of a node have the first fault that is found from there on.
* `Visit.after_of_firstFault?`, `Visit.firstFault?_of_mem`: without a fault from a visit on there is
  none from its children on.
* `Node.print_eq_error_iff`, `Node.exists_print_iff`: the results of printing.
* **`Node.print_fails_iff`**: printing succeeds if no reached node is malformed, and otherwise gives
  the error of the first one.
-/

namespace ChapelSource

/-! ## Pieces -/

theorem findSome?_cons_or {α β : Type} (f : α → Option β) (a : α) (l : List α) :
    (a :: l).findSome? f = (f a).or (l.findSome? f) := by
  rw [List.findSome?_cons]
  cases f a <;> rfl

/-- The fault that a piece is. -/
def Piece.fault? : Piece → Option PrintError
  | .atom (.fault e) => some e
  | _ => none

theorem Piece.text_of_fault {p : Piece} {e : PrintError} (h : p.fault? = some e)
    (newLine : String) : p.text newLine = .error e := by
  cases p with
  | operator symbol spaced => exact nomatch h
  | atom a =>
    cases a with
    | fault e' =>
      rw [Piece.fault?, Option.some.injEq] at h
      rw [h]
      rfl
    | text s => exact nomatch h
    | literal marker body => exact nomatch h
    | lineBreak => exact nomatch h

theorem Piece.text_of_no_fault {p : Piece} (h : p.fault? = none) (newLine : String) :
    ∃ s, p.text newLine = .ok s := by
  cases p with
  | operator symbol spaced => cases spaced <;> exact ⟨_, rfl⟩
  | atom a =>
    cases a with
    | fault e' => exact nomatch h
    | text s => exact ⟨_, rfl⟩
    | literal marker body => exact ⟨_, rfl⟩
    | lineBreak => exact ⟨_, rfl⟩

theorem write_of_fault {newLine : String} {ps : List Piece} {e : PrintError}
    (h : ps.findSome? Piece.fault? = some e) (out : String) : write newLine out ps = .error e := by
  induction ps generalizing out with
  | nil => exact nomatch h
  | cons p ps ih =>
    rw [write]
    cases hp : p.fault? with
    | some e' =>
      rw [List.findSome?_cons, hp, Option.some.injEq] at h
      rw [Piece.text_of_fault hp, h]
    | none =>
      obtain ⟨s, hs⟩ := Piece.text_of_no_fault hp newLine
      rw [List.findSome?_cons, hp] at h
      rw [hs]
      exact ih h (out ++ s)

theorem write_of_no_fault {newLine : String} {ps : List Piece}
    (h : ps.findSome? Piece.fault? = none) (out : String) :
    ∃ text, write newLine out ps = .ok text := by
  induction ps generalizing out with
  | nil => exact ⟨out, rfl⟩
  | cons p ps ih =>
    rw [findSome?_cons_or, Option.or_eq_none_iff] at h
    obtain ⟨s, hs⟩ := Piece.text_of_no_fault h.1 newLine
    rw [write, hs]
    exact ih h.2 (out ++ s)

/-! ## Trees -/

/-- What a piece amounts to. -/
def Piece.tally : Piece → Tally
  | .atom (.fault e) => .fault e
  | .atom .lineBreak => .breaks 1
  | _ => 0

theorem Piece.fault?_tally (p : Piece) : p.tally.fault? = p.fault? := by
  cases p with
  | operator symbol spaced => rfl
  | atom a => cases a <;> rfl

/-- **The pieces of a node amount to all that is reached from it.** -/
theorem Node.tally_pieces (comments inType : Bool) (role : Role) (n : Node) :
    ((n.pieces comments inType role).map Piece.tally).sum = Visit.tallyOf comments [⟨role, n⟩] := by
  rw [pieces_eq, Layout.pieces, List.map_flatMap, List.flatMap_def, List.sum_flatten, List.map_map,
    ← n.tally_layout comments role, Layout.tally]
  refine congrArg List.sum (List.map_congr_left fun i hi => ?_)
  cases i with
  | atom a => cases a <;> rfl
  | operator symbol => rfl
  | child r m =>
    have hlt : sizeOf m < sizeOf n := n.below_layout comments role r m hi
    exact m.tally_pieces comments (r.inType inType) r
termination_by sizeOf n

/-- The first fault from a visit on. -/
def Visit.firstFault? (v : Visit) : Option PrintError := v.reached.findSome? Visit.fault?

/-- The pieces of a node in a role have the first fault that is found from there on. -/
theorem Node.fault?_pieces (comments inType : Bool) (role : Role) (n : Node) :
    (n.pieces comments inType role).findSome? Piece.fault? = Visit.firstFault? ⟨role, n⟩ := by
  have htally := congrArg Tally.fault? (n.tally_pieces comments inType role)
  rw [Visit.tallyOf, Tally.fault?_sum, Tally.fault?_sum, List.flatMap_singleton] at htally
  simp only [Piece.fault?_tally, Visit.fault?_tally] at htally
  exact htally

namespace Visit

variable {v : Visit}

theorem mem_reached_self (v : Visit) : v ∈ v.reached := by
  rw [reached_eq]
  exact List.mem_append_right _ List.mem_cons_self

theorem mem_reached_of_mem_after {w : Visit} (h : w ∈ v.after) : w ∈ v.reached := by
  rw [reached_eq]
  exact List.mem_append_right _
    (List.mem_cons_of_mem _ (List.mem_flatMap.2 ⟨w, h, w.mem_reached_self⟩))

theorem firstFault?_eq_none_iff : v.firstFault? = none ↔ ∀ w ∈ v.reached, w.fault? = none :=
  List.findSome?_eq_none_iff

theorem fault?_of_firstFault? (h : v.firstFault? = none) : v.fault? = none :=
  firstFault?_eq_none_iff.1 h v v.mem_reached_self

theorem after_of_firstFault? (h : v.firstFault? = none) : ∀ w ∈ v.after, w.fault? = none :=
  fun w hw => firstFault?_eq_none_iff.1 h w (mem_reached_of_mem_after hw)

/-- What is written of a tree without faults has none. -/
theorem firstFault?_of_mem {comments : Bool} {role r : Role} {n m : Node}
    (h : firstFault? ⟨role, n⟩ = none) (hm : Item.child r m ∈ n.layout comments role) :
    firstFault? ⟨r, m⟩ = none := by
  rw [← n.fault?_pieces comments false role, List.findSome?_eq_none_iff] at h
  rw [← m.fault?_pieces comments (r.inType false) r, List.findSome?_eq_none_iff]
  refine fun p hp => h p ?_
  rw [Node.pieces_eq]
  exact List.mem_flatMap.2 ⟨.child r m, hm, hp⟩

end Visit

/-! ## Results of printing -/

namespace Node

variable {n : Node} {o : PrintOptions}

theorem print_eq_error_iff {e : PrintError} :
    n.print o = .error e ↔ Visit.firstFault? ⟨.whole, n⟩ = some e := by
  rw [← n.fault?_pieces o.comments false .whole]
  constructor
  · intro h
    cases hf : (n.pieces o.comments false .whole).findSome? Piece.fault? with
    | none =>
      obtain ⟨text, ht⟩ : ∃ text, n.print o = .ok text := write_of_no_fault hf ""
      rw [ht] at h
      contradiction
    | some e' =>
      have he : n.print o = .error e' := write_of_fault hf ""
      rwa [he, Except.error.injEq, ← Option.some.injEq] at h
  · intro h
    exact write_of_fault h ""

theorem exists_print_iff :
    (∃ text, n.print o = .ok text) ↔ Visit.firstFault? ⟨.whole, n⟩ = none := by
  constructor
  · rintro ⟨text, ht⟩
    cases hf : Visit.firstFault? ⟨.whole, n⟩ with
    | none => rfl
    | some e =>
      rw [print_eq_error_iff.2 hf] at ht
      contradiction
  · intro h
    rw [← n.fault?_pieces o.comments false .whole] at h
    exact write_of_no_fault h ""

/-- **Printing succeeds exactly if no node that is reached is malformed, and otherwise gives the error
of the first that is.** -/
theorem print_fails_iff (o : PrintOptions) (n : Node) :
    ((∃ text, n.print o = .ok text) ↔ ∀ v ∈ n.reached, v.fault? = none) ∧
      ∀ e, n.print o = .error e ↔ ∃ vs v ws, n.reached = vs ++ v :: ws ∧ v.fault? = some e ∧
        ∀ w ∈ vs, w.fault? = none := by
  constructor
  · rw [exists_print_iff]
    exact Visit.firstFault?_eq_none_iff
  · intro e
    rw [print_eq_error_iff]
    exact List.findSome?_eq_some_iff

end Node

end ChapelSource
