import ChapelSource.Proofs.Grouping.RoundTrip

/-!
# Any tree with parentheses can be read

Where the parentheses of a tree do not say how its text is read, the reader finds another tree with
the same text. It is built from readable parts: an operator beside a readable tree moves into the
edge of the tree, to the operand that it is read with.

* `Bracketed.withTrailing`, `Bracketed.withLeading`, `Bracketed.withOperand`: a readable tree and an
  operator at its edge.
* `Bracketed.join`: two readable trees and an operator between them.
* `Bracketed.settle`: the tree that is read instead of a given one.
* `Bracketed.chars_settle`, `Bracketed.readable_settle`: it has the same text, and it is readable.
* **`Bracketed.readText_chars`**: the text of a tree is read as the tree that it settles to.
-/

namespace ChapelSource

namespace Bracketed

/-- A tree that closes `o` has no looser operator at its root. -/
theorem Closes.bindsAt {c : Bracketed} {o : BinaryOp} (h : c.Closes o) : c.BindsAt o.rank := by
  cases c with
  | binary p l r => exact Nat.le_of_lt_succ (Nat.lt_of_lt_of_le h.1 p.rightLevel_le)
  | name w => trivial
  | parens c => trivial
  | leading p e => trivial
  | trailing e p => trivial

/-! ## A trailing operator after a tree -/

/-- A tree and a trailing operator after it, which the operand at the right edge takes. -/
def withTrailing (o : TrailingOp) : Bracketed → Bracketed
  | leading p e => leading p (withTrailing o e)
  | binary p l r => binary p l (withTrailing o r)
  | c => trailing c o

section Trailing

variable (o : TrailingOp)

theorem chars_withTrailing (inType : Bool) (c : Bracketed) :
    (withTrailing o c).chars inType = c.chars inType ++ o.symbol.toList := by
  induction c with
  | leading p e ih => rw [withTrailing, chars, ih, chars, List.append_assoc]
  | binary p l r _ ih => rw [withTrailing, chars, ih, chars, List.append_assoc, List.append_assoc]
  | name w => rfl
  | parens c => rfl
  | trailing e p => rfl

theorem bindsAt_withTrailing (c : Bracketed) (k : Nat) :
    (withTrailing o c).BindsAt k ↔ c.BindsAt k := by
  cases c <;> exact Iff.rfl

theorem Readable.withTrailing {c : Bracketed} (h : c.Readable) : (withTrailing o c).Readable := by
  induction c with
  | leading p e ih => exact ⟨(bindsAt_withTrailing o e _).mpr h.1, ih h.2⟩
  | binary p l r _ ih => exact ⟨h.1, (bindsAt_withTrailing o r _).mpr h.2.1, ih h.2.2⟩
  | name w => exact ⟨trivial, h⟩
  | parens c => exact ⟨trivial, h⟩
  | trailing e p => exact ⟨trivial, h⟩

end Trailing

/-! ## A leading operator before a tree -/

/-- A tree and a leading operator before it, which takes what binds tighter at the left edge. -/
def withLeading (o : LeadingOp) : Bracketed → Bracketed
  | binary p l r =>
    if o.rank < p.rank then leading o (binary p l r) else binary p (withLeading o l) r
  | c => leading o c

section Leading

variable (o : LeadingOp)

theorem chars_withLeading (inType : Bool) (c : Bracketed) :
    (withLeading o c).chars inType = o.symbol.toList ++ c.chars inType := by
  induction c with
  | binary p l r ih =>
    rw [withLeading]
    split
    · rfl
    · rw [chars, ih, chars, List.append_assoc]
  | name w => rfl
  | parens c => rfl
  | leading p e => rfl
  | trailing e p => rfl

variable {o}

theorem bindsAt_withLeading {c : Bracketed} {k : Nat} (h : c.BindsAt k) :
    (withLeading o c).BindsAt k := by
  cases c with
  | binary p l r =>
    rw [withLeading]
    split
    · trivial
    · exact h
  | name w => trivial
  | parens c => trivial
  | leading p e => trivial
  | trailing e p => trivial

theorem closes_withLeading {c : Bracketed} {k : BinaryOp} (h : c.Closes k) (hk : k.rank ≤ o.rank) :
    (withLeading o c).Closes k := by
  cases c with
  | binary p l r =>
    rw [withLeading]
    split
    · exact ⟨hk, h⟩
    · exact h
  | name w => exact ⟨hk, h⟩
  | parens c => exact ⟨hk, h⟩
  | leading p e => exact ⟨hk, h⟩
  | trailing e p => exact ⟨hk, h⟩

theorem Readable.withLeading {c : Bracketed} (h : c.Readable) : (withLeading o c).Readable := by
  induction c with
  | binary p l r ih =>
    rw [Bracketed.withLeading]
    split
    case isTrue hlt => exact ⟨hlt, h⟩
    case isFalse hlt =>
      obtain ⟨⟨hbinds, hcloses, hl⟩, hr⟩ := h
      exact ⟨⟨bindsAt_withLeading hbinds, closes_withLeading hcloses (Nat.le_of_not_lt hlt), ih hl⟩,
        hr⟩
  | name w => exact ⟨trivial, h⟩
  | parens c => exact ⟨trivial, h⟩
  | leading p e => exact ⟨trivial, h⟩
  | trailing e p => exact ⟨trivial, h⟩

end Leading

/-! ## A binary operator after a tree -/

/-- A tree and a binary operator after it, whose right operand is `r`. It moves into the right edge
to the first operand that closes it. -/
def withOperand (o : BinaryOp) (r : Bracketed) : Bracketed → Bracketed
  | leading p e =>
    if (leading p e).Closes o then binary o (leading p e) r else leading p (withOperand o r e)
  | binary p a b =>
    if (binary p a b).Closes o then binary o (binary p a b) r else binary p a (withOperand o r b)
  | c => binary o c r

section Operand

variable (o : BinaryOp) (r : Bracketed)

theorem chars_withOperand (inType : Bool) (c : Bracketed) :
    (withOperand o r c).chars inType =
      c.chars inType ++ (symbolChars inType o ++ r.chars inType) := by
  induction c with
  | leading p e ih =>
    rw [withOperand]
    split
    · rfl
    · rw [chars, ih, chars, List.append_assoc]
  | binary p a b _ ih =>
    rw [withOperand]
    split
    · rfl
    · rw [chars, ih, chars, List.append_assoc, List.append_assoc]
  | name w => rfl
  | parens c => rfl
  | trailing e p => rfl

variable {o r}

/-- Either the tree closes `o`, which is then at the root, or its own root stays. -/
theorem bindsAt_withOperand {c : Bracketed} {k : Nat} (h : c.BindsAt k)
    (ho : c.Closes o → k ≤ o.rank) : (withOperand o r c).BindsAt k := by
  cases c with
  | leading p e =>
    rw [withOperand]
    split
    case isTrue hc => exact ho hc
    case isFalse => trivial
  | binary p a b =>
    rw [withOperand]
    split
    case isTrue hc => exact ho hc
    case isFalse => exact h
  | name w => exact ho trivial
  | parens c => exact ho trivial
  | trailing e p => exact ho trivial

theorem Readable.withOperand {c : Bracketed} (hc : c.Readable) (hr : r.Readable)
    (hlevel : r.BindsAt o.rightLevel) : (withOperand o r c).Readable := by
  have here : ∀ {c : Bracketed}, c.Readable → c.Closes o → (binary o c r).Readable :=
    fun hc hcloses => ⟨⟨hcloses.bindsAt, hcloses, hc⟩, hlevel, hr⟩
  induction c with
  | leading p e ih =>
    rw [Bracketed.withOperand]
    split
    case isTrue h => exact here hc h
    case isFalse h =>
      refine ⟨bindsAt_withOperand hc.1 fun he => ?_, ih hc.2⟩
      exact Nat.lt_of_not_le fun hle => h ⟨hle, he⟩
  | binary p a b _ ih =>
    rw [Bracketed.withOperand]
    split
    case isTrue h => exact here hc h
    case isFalse h =>
      refine ⟨hc.1, bindsAt_withOperand hc.2.1 fun hb => ?_, ih hc.2.2⟩
      exact Nat.le_of_not_lt fun hlt => h ⟨hlt, hb⟩
  | name w => exact here hc trivial
  | parens c => exact here hc trivial
  | trailing e p => exact here hc trivial

end Operand

/-! ## A binary operator between two trees -/

/-- Two trees and a binary operator between them, which takes what binds tight enough at the left
edge of the right one. What is looser there comes after it. -/
def join (o : BinaryOp) (l : Bracketed) : Bracketed → Bracketed
  | binary p a b =>
    if o.rightLevel ≤ p.rank then withOperand o (binary p a b) l else withOperand p b (join o l a)
  | r => withOperand o r l

section Join

variable (o : BinaryOp) (l : Bracketed)

theorem chars_join (inType : Bool) (r : Bracketed) :
    (join o l r).chars inType = l.chars inType ++ (symbolChars inType o ++ r.chars inType) := by
  induction r with
  | binary p a b ih =>
    rw [join]
    split
    · exact chars_withOperand o _ inType l
    · rw [chars_withOperand, ih, chars, List.append_assoc, List.append_assoc]
  | name w => exact chars_withOperand o _ inType l
  | parens c => exact chars_withOperand o _ inType l
  | leading p e => exact chars_withOperand o _ inType l
  | trailing e p => exact chars_withOperand o _ inType l

variable {o l}

theorem Readable.join {r : Bracketed} (hl : l.Readable) (hr : r.Readable) :
    (join o l r).Readable := by
  induction r with
  | binary p a b ih =>
    rw [Bracketed.join]
    split
    case isTrue hle => exact hl.withOperand hr hle
    case isFalse =>
      obtain ⟨⟨-, -, ha⟩, hlevel, hb⟩ := hr
      exact (ih ha).withOperand hb hlevel
  | name w => exact hl.withOperand hr trivial
  | parens c => exact hl.withOperand hr trivial
  | leading p e => exact hl.withOperand hr trivial
  | trailing e p => exact hl.withOperand hr trivial

end Join

/-! ## The tree that is read -/

/-- The tree that the reader takes a tree for. -/
def settle : Bracketed → Bracketed
  | name w => name w
  | parens c => parens c.settle
  | leading o e => withLeading o e.settle
  | trailing e o => withTrailing o e.settle
  | binary o l r => join o l.settle r.settle

theorem chars_settle (inType : Bool) (c : Bracketed) :
    c.settle.chars inType = c.chars inType := by
  induction c with
  | name w => rfl
  | parens c ih => rw [settle, chars, ih, chars]
  | leading o e ih => rw [settle, chars_withLeading, ih, chars]
  | trailing e o ih => rw [settle, chars_withTrailing, ih, chars]
  | binary o l r ihl ihr => rw [settle, chars_join, ihl, ihr, chars]

theorem readable_settle (c : Bracketed) : c.settle.Readable := by
  induction c with
  | name w => trivial
  | parens c ih => exact ih
  | leading o e ih => exact ih.withLeading
  | trailing e o ih => exact ih.withTrailing o
  | binary o l r ihl ihr => exact ihl.join ihr

/-- **The text of a tree with parentheses is read as the tree that it settles to.** -/
theorem readText_chars (c : Bracketed) :
    readText (String.ofList (c.chars false)) = some c.settle.erase := by
  rw [← chars_settle, (readable_settle c).readText_chars]

end Bracketed

end ChapelSource
