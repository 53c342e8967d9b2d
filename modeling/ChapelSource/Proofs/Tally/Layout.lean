import Mathlib.Algebra.Group.Nat.Defs
import Mathlib.Algebra.BigOperators.Group.List.Basic
import ChapelSource.LineBreak

/-!
# The tally of a layout

What the text of a tree amounts to, its wording aside: so many line breaks, or the first fault, which
ends it. A layout amounts to what is reached from its children, in the order in which they stand in
it, with the line breaks and the fault of its own.

* `Tally`: line breaks, or a fault. Tallies are added as texts are written in a row.
* `Tally.breaks_add_comm`: line breaks may be counted at any time.
* `Visit.tallyOf`: what all that is reached from some visits amounts to.
* `Layout.tally`: what a layout amounts to.
* `Layout.tally_append`, `Layout.tally_joined`, `Layout.tally_commaList`, `Layout.tally_body`: the
  parts of a layout.
-/

namespace ChapelSource

/-! ## Tallies -/

/-- What a text amounts to: its line breaks, or the fault that ends it. -/
inductive Tally where
  | breaks (count : Nat)
  | fault (error : PrintError)

namespace Tally

instance : Zero Tally := ⟨breaks 0⟩

/-- Texts in a row. Nothing is written after a fault. -/
instance : Add Tally where
  add
    | .fault e, _ => .fault e
    | .breaks _, .fault e => .fault e
    | .breaks j, .breaks k => .breaks (j + k)

@[simp] theorem breaks_zero : breaks 0 = 0 := rfl

@[simp] theorem fault_add (e : PrintError) (t : Tally) : fault e + t = fault e := rfl

@[simp] theorem breaks_add_fault (k : Nat) (e : PrintError) : breaks k + fault e = fault e := rfl

@[simp] theorem breaks_add_breaks (j k : Nat) : breaks j + breaks k = breaks (j + k) := rfl

instance : AddMonoid Tally where
  add_assoc r s t := by cases r <;> cases s <;> cases t <;> simp [Nat.add_assoc]
  zero_add
    | breaks k => congrArg breaks (Nat.zero_add k)
    | fault _ => rfl
  add_zero
    | breaks _ => rfl
    | fault _ => rfl
  nsmul := nsmulRec

theorem breaks_add_comm (k : Nat) (t : Tally) : breaks k + t = t + breaks k := by
  cases t <;> simp [Nat.add_comm]

/-- The fault that ends a text. -/
def fault? : Tally → Option PrintError
  | breaks _ => none
  | fault e => some e

theorem fault?_add (s t : Tally) : (s + t).fault? = s.fault?.or t.fault? := by
  cases s <;> cases t <;> rfl

/-- The fault of texts in a row is the first there is. -/
theorem fault?_sum {α : Type} (f : α → Tally) (l : List α) :
    (l.map f).sum.fault? = l.findSome? fun a => (f a).fault? := by
  induction l with
  | nil => rfl
  | cons a l ih =>
    rw [List.map_cons, List.sum_cons, fault?_add, ih, List.findSome?_cons]
    cases (f a).fault? <;> rfl

end Tally

/-! ## The tally of a tree -/

/-- What a construct amounts to, its children aside. -/
def Form.tally (comments : Bool) (f : Form Node) : Tally :=
  f.fault?.elim (.breaks (f.lineBreaks comments)) .fault

namespace Visit

/-- What a node amounts to where it is reached, its children aside. -/
def tally (comments : Bool) (v : Visit) : Tally :=
  v.fault?.elim (.breaks (v.lineBreaks comments)) .fault

theorem fault?_tally (comments : Bool) (v : Visit) : (v.tally comments).fault? = v.fault? := by
  unfold tally
  cases v.fault? <;> rfl

/-- What all that is reached from some visits amounts to. -/
def tallyOf (comments : Bool) (vs : List Visit) : Tally :=
  ((vs.flatMap reached).map (tally comments)).sum

end Visit

open Visit

section TallyOf

variable {comments : Bool}

@[simp] theorem tallyOf_nil : tallyOf comments [] = 0 := rfl

theorem tallyOf_append (vs ws : List Visit) :
    tallyOf comments (vs ++ ws) = tallyOf comments vs + tallyOf comments ws := by
  rw [tallyOf, List.flatMap_append, List.map_append, List.sum_append]
  rfl

theorem tallyOf_cons (v : Visit) (vs : List Visit) :
    tallyOf comments (v :: vs) = tallyOf comments [v] + tallyOf comments vs :=
  tallyOf_append [v] vs

/-- What is reached from a node amounts to its children that lead, itself and its other children. -/
theorem tallyOf_singleton (v : Visit) :
    tallyOf comments [v] =
      tallyOf comments v.before + v.tally comments + tallyOf comments v.after := by
  rw [tallyOf, List.flatMap_singleton, reached_eq, List.map_append, List.map_cons, List.sum_append,
    List.sum_cons, add_assoc]
  rfl

/-! The tally of a construct is put in the form of its visits in a row, then its line breaks. -/

@[simp] theorem tallyOf_add (vs ws : List Visit) :
    tallyOf comments vs + tallyOf comments ws = tallyOf comments (vs ++ ws) :=
  (tallyOf_append vs ws).symm

@[simp] theorem tallyOf_add_add (vs ws : List Visit) (t : Tally) :
    tallyOf comments vs + (tallyOf comments ws + t) = tallyOf comments (vs ++ ws) + t := by
  rw [← add_assoc, tallyOf_add]

@[simp] theorem breaks_add_tallyOf (k : Nat) (vs : List Visit) :
    .breaks k + tallyOf comments vs = tallyOf comments vs + .breaks k := Tally.breaks_add_comm k _

@[simp] theorem breaks_add_tallyOf_add (k : Nat) (vs : List Visit) (t : Tally) :
    .breaks k + (tallyOf comments vs + t) = tallyOf comments vs + (.breaks k + t) := by
  rw [← add_assoc, breaks_add_tallyOf, add_assoc]

end TallyOf

/-- What an item of a layout amounts to. -/
def Item.tally (comments : Bool) : Item → Tally
  | .atom (.fault e) => .fault e
  | .atom .lineBreak => .breaks 1
  | .atom _ => 0
  | .operator _ => 0
  | .child role n => tallyOf comments [⟨role, n⟩]

/-- What a layout amounts to. -/
def Layout.tally (comments : Bool) (l : Layout) : Tally := (l.map (Item.tally comments)).sum

variable {comments : Bool}

/-! ## Visits in a row -/

@[simp] theorem wholes_nil : wholes [] = [] := rfl

@[simp] theorem wholes_cons (n : Node) (ns : List Node) :
    wholes (n :: ns) = ⟨.whole, n⟩ :: wholes ns := rfl

@[simp] theorem wholes_append (ns ms : List Node) : wholes (ns ++ ms) = wholes ns ++ wholes ms :=
  List.map_append

/-! ## Small layouts -/

namespace Layout

@[simp] theorem tally_nil : tally comments [] = 0 := rfl

@[simp] theorem tally_append (l m : Layout) :
    tally comments (l ++ m) = tally comments l + tally comments m := by
  rw [tally, List.map_append, List.sum_append]
  rfl

@[simp] theorem tally_text (s : String) (l : Layout) :
    tally comments (.atom (.text s) :: l) = tally comments l := zero_add _

@[simp] theorem tally_whole (n : Node) :
    tally comments (whole n) = tallyOf comments [⟨.whole, n⟩] := add_zero _

@[simp] theorem tally_asType (n : Node) :
    tally comments (asType n) = tallyOf comments [⟨.typeExpr, n⟩] := add_zero _

@[simp] theorem tally_component (n : Node) :
    tally comments (component n) = tallyOf comments [⟨.component, n⟩] := add_zero _

@[simp] theorem tally_lineBreak : tally comments lineBreak = .breaks 1 := rfl

@[simp] theorem tally_literal (marker body : String) : tally comments (literal marker body) = 0 :=
  rfl

@[simp] theorem tally_operator (s : String) : tally comments (Layout.operator s) = 0 := rfl

@[simp] theorem tally_fault (e : PrintError) : tally comments (fault e) = .fault e := rfl

@[simp] theorem tally_parenthesized (l : Layout) :
    tally comments (parenthesized l) = tally comments l := by
  simp [parenthesized]

@[simp] theorem tally_grouped (parens : Bool) (n : Node) :
    tally comments (grouped parens n) = tallyOf comments [⟨.whole, n⟩] := by
  cases parens <;> simp [grouped]

/-! ## Composition -/

theorem tally_ifTrue (b : Bool) (l : Layout) :
    tally comments (ifTrue b l) = if b then tally comments l else 0 := by
  cases b <;> rfl

theorem tally_ifSome_text {α : Type} (o : Option α) {f : α → Layout}
    (h : ∀ a, tally comments (f a) = 0) : tally comments (ifSome o f) = 0 := by
  cases o with
  | none => rfl
  | some a => exact h a

theorem tally_ifSome (role : Role) (o : Option Node) {f : Node → Layout}
    (h : ∀ n, tally comments (f n) = tallyOf comments [⟨role, n⟩]) :
    tally comments (ifSome o f) = tallyOf comments (o.toList.map (⟨role, ·⟩)) := by
  cases o with
  | none => rfl
  | some n => exact h n

/-- Parts in a row amount to their visits in a row. -/
theorem tally_flatMap {α : Type} {f : α → Layout} {role : Role} {child : α → Node}
    (h : ∀ a, tally comments (f a) = tallyOf comments [⟨role, child a⟩]) (parts : List α) :
    tally comments (parts.flatMap f) = tallyOf comments ((parts.map child).map (⟨role, ·⟩)) := by
  induction parts with
  | nil => rfl
  | cons a parts ih =>
    rw [List.flatMap_cons, tally_append, ih, h, tallyOf_add]
    rfl

/-- With a separator between each two they amount to the separators too. -/
theorem tally_joined {α : Type} {separator : Layout} {k : Nat}
    (hs : tally comments separator = .breaks k) {f : α → Layout} {role : Role} {child : α → Node}
    (h : ∀ a, tally comments (f a) = tallyOf comments [⟨role, child a⟩]) (parts : List α) :
    tally comments (join separator (parts.map f)) =
      tallyOf comments ((parts.map child).map (⟨role, ·⟩)) + .breaks ((parts.length - 1) * k) := by
  induction parts with
  | nil => simp [join]
  | cons a parts ih =>
    cases parts with
    | nil => simp [join_singleton, h]
    | cons b parts =>
      rw [List.map_cons, List.map_cons, join_cons_cons, ← List.map_cons, tally_append, tally_append,
        ih, h, hs]
      simp [add_assoc, Nat.add_mul, Nat.add_comm]

/-- A separator that is text amounts to nothing. -/
theorem tally_commaJoined {α : Type} {f : α → Layout} {role : Role} {child : α → Node}
    (h : ∀ a, tally comments (f a) = tallyOf comments [⟨role, child a⟩]) (parts : List α) :
    tally comments (join ", " (parts.map f)) =
      tallyOf comments ((parts.map child).map (⟨role, ·⟩)) :=
  (tally_joined (k := 0) rfl h parts).trans (add_zero _)

/-! ## Lists of children -/

theorem tallyOf_comment {n : Node} (h : n.isComment = true) :
    tallyOf comments [⟨.whole, n⟩] = 0 := by
  obtain ⟨info, form⟩ := n
  cases form with
  | comment text => rw [tallyOf_singleton]; rfl
  | _ => exact nomatch h

theorem tallyOf_kept (ns : List Node) :
    tallyOf comments (wholes (kept comments ns)) = tallyOf comments (wholes ns) := by
  induction ns with
  | nil => rfl
  | cons n ns ih =>
    rw [kept, List.filter_cons, wholes_cons, tallyOf_cons, ← ih]
    split
    · rw [wholes_cons, tallyOf_cons]
      rfl
    · next h =>
      have hcomment : n.isComment = true := by
        rw [Bool.not_eq_true, Bool.or_eq_false_iff, Bool.not_eq_false'] at h
        exact h.2
      rw [tallyOf_comment hcomment, zero_add]
      rfl

@[simp] theorem tally_commaList (ns : List Node) :
    tally comments (commaList comments ns) = tallyOf comments (wholes ns) := by
  rw [commaList, listing, tally_commaJoined tally_whole, List.map_id', ← tallyOf_kept]
  rfl

@[simp] theorem tally_lines (ns : List Node) :
    tally comments (lines comments ns) =
      tallyOf comments (wholes ns) + .breaks ((kept comments ns).length - 1) := by
  rw [lines, listing, tally_joined tally_lineBreak tally_whole, List.map_id', Nat.mul_one,
    ← tallyOf_kept]
  rfl

@[simp] theorem tally_braced (ns : List Node) :
    tally comments (braced comments ns) =
      tallyOf comments (wholes ns) + .breaks ((kept comments ns).length - 1) := by
  simp [braced]

@[simp] theorem tally_body (keyword : String) (b : Body Node) :
    tally comments (b.layout comments keyword) =
      tallyOf comments (wholes b.stmts) + .breaks ((kept comments b.stmts).length - 1) := by
  unfold Body.layout
  split <;> simp

end Layout

end ChapelSource
