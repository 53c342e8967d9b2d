import ChapelSource.Grouping.Bracketed
import ChapelSource.Grouping.Reader

/-!
# Reading trees that show their parentheses

* `ReadsTrailing`, `ReadsOperand`, `Climbs`, `Extends`: what the reader finds, with one rule for each
  of its steps.
* `Bracketed.Readable`: the trees whose parentheses say how they are read.
* **`readTokens_tokens`**: the tokens of a readable tree are read as the tree.
-/

namespace ChapelSource

/-! ## The steps of the reader -/

section Steps

variable {ts rest rest' : List Token} {t u : OpTree} {level : Nat}

/-- After `t` the trailing operators make `u` of it and leave `rest`. -/
def ReadsTrailing (t : OpTree) (ts : List Token) (u : OpTree) (rest : List Token) : Prop :=
  ∃ h, readTrailing t ts = ⟨u, rest, h⟩

/-- An operand is read as `u` and leaves `rest`. -/
def ReadsOperand (ts : List Token) (u : OpTree) (rest : List Token) : Prop :=
  ∃ h, readOperand ts = some ⟨u, rest, h⟩

/-- An expression at a level is read as `u` and leaves `rest`. -/
def Climbs (level : Nat) (ts : List Token) (u : OpTree) (rest : List Token) : Prop :=
  ∃ h, climb level ts = some ⟨u, rest, h⟩

/-- After `t` the binary operators at a level make `u` of it and leave `rest`. -/
def Extends (level : Nat) (t : OpTree) (ts : List Token) (u : OpTree) (rest : List Token) : Prop :=
  ∃ h, extend level t ts = some ⟨u, rest, h⟩

theorem ReadsTrailing.symbol {o : TrailingOp} (h : ReadsTrailing (.trailing t o) ts u rest) :
    ReadsTrailing t (.symbol o.symbol :: ts) u rest := by
  obtain ⟨hlt, h⟩ := h
  refine ⟨by rw [List.length_cons]; omega, ?_⟩
  simp only [readTrailing, TrailingOp.ofSymbol?_symbol, h]
  rfl

theorem ReadsTrailing.stop (hts : ∀ s ts', ts = .symbol s :: ts' → TrailingOp.ofSymbol? s = none) :
    ReadsTrailing t ts t ts := by
  refine ⟨Nat.lt_succ_self _, ?_⟩
  cases ts with
  | nil => rfl
  | cons token ts' =>
    cases token with
    | symbol s => simp only [readTrailing, hts s ts' rfl]
    | word w => rfl
    | openParen => rfl
    | closeParen => rfl

theorem ReadsTrailing.length_le (h : ReadsTrailing t ts u rest) : rest.length ≤ ts.length := by
  obtain ⟨hlt, -⟩ := h
  omega

theorem ReadsOperand.name {w : Word} (h : ReadsTrailing (.name w) ts u rest) :
    ReadsOperand (.word w :: ts) u rest := by
  obtain ⟨hlt, h⟩ := h
  exact ⟨hlt, by rw [readOperand, h]⟩

theorem ReadsOperand.parens (hc : Climbs 0 ts t (.closeParen :: rest))
    (h : ReadsTrailing t rest u rest') : ReadsOperand (.openParen :: ts) u rest' := by
  obtain ⟨hlt, hc⟩ := hc
  have hle := h.length_le
  have hclose : rest.length + 1 < ts.length := hlt
  obtain ⟨hlt', h⟩ := h
  refine ⟨by rw [List.length_cons]; omega, ?_⟩
  rw [readOperand, hc]
  dsimp only
  rw [h]
  rfl

theorem ReadsOperand.leading {o : LeadingOp} (h : Climbs (o.rank + 1) ts t rest) :
    ReadsOperand (.symbol o.symbol :: ts) (.leading o t) rest := by
  obtain ⟨hlt, h⟩ := h
  refine ⟨by rw [List.length_cons]; omega, ?_⟩
  simp only [readOperand, LeadingOp.ofSymbol?_symbol, h]

theorem Climbs.mk (ho : ReadsOperand ts t rest) (h : Extends level t rest u rest') :
    Climbs level ts u rest' := by
  obtain ⟨hlt, ho⟩ := ho
  obtain ⟨hlt', h⟩ := h
  refine ⟨by omega, ?_⟩
  rw [climb, ho]
  dsimp only
  rw [h]
  rfl

theorem Extends.symbol {o : BinaryOp} (hl : level ≤ o.rank) (hc : Climbs o.rightLevel ts t rest)
    {left : OpTree} (h : Extends level (.binary o left t) rest u rest') :
    Extends level left (.symbol o.symbol :: ts) u rest' := by
  obtain ⟨hlt, hc⟩ := hc
  obtain ⟨hlt', h⟩ := h
  refine ⟨by rw [List.length_cons]; omega, ?_⟩
  simp only [extend, BinaryOp.ofSymbol?_symbol, if_pos hl, hc, h]
  rfl

theorem Extends.stop
    (hts : ∀ s ts', ts = .symbol s :: ts' → ∀ o ∈ BinaryOp.ofSymbol? s, o.rank < level) :
    Extends level t ts t ts := by
  refine ⟨Nat.lt_succ_self _, ?_⟩
  cases ts with
  | nil => rw [extend]; simp
  | cons token ts' =>
    cases token with
    | symbol s =>
      cases ho : BinaryOp.ofSymbol? s with
      | none => simp only [extend, ho]
      | some o =>
        have hlt := hts s ts' rfl o ho
        simp only [extend, ho, if_neg (Nat.not_le.2 hlt)]
    | word w => rw [extend]; simp
    | openParen => rw [extend]; simp
    | closeParen => rw [extend]; simp

end Steps

/-! ## Readable trees -/

namespace Bracketed

/-- A binary operator at the root binds at `level` or tighter. -/
def BindsAt (level : Nat) : Bracketed → Prop
  | binary o _ _ => level ≤ o.rank
  | _ => True

/-- A trailing operator may follow. -/
def IsPrimary : Bracketed → Prop
  | name _ | parens _ | trailing _ _ => True
  | _ => False

/-- The parentheses of a tree, and the ranks of its operators, say how its text is read. -/
def Readable : Bracketed → Prop
  | name _ => True
  | parens c => c.Readable
  | leading o e => e.BindsAt (o.rank + 1) ∧ e.Readable
  | trailing e _ => e.IsPrimary ∧ e.Readable
  | binary o l r =>
    (l.BindsAt o.rank ∧ l.Closes o ∧ l.Readable) ∧ r.BindsAt o.rightLevel ∧ r.Readable

/-- No operator at the front of some tokens is read into a tree before them. -/
def Stops (c : Bracketed) (ts : List Token) : Prop :=
  ∀ s ts', ts = .symbol s :: ts' →
    TrailingOp.ofSymbol? s = none ∧ ∀ o ∈ BinaryOp.ofSymbol? s, c.Closes o

theorem BindsAt.mono {c : Bracketed} {k m : Nat} (h : c.BindsAt m) (hk : k ≤ m) :
    c.BindsAt k := by
  cases c with
  | binary o l r => exact Nat.le_trans hk h
  | name w => trivial
  | parens c => trivial
  | leading o e => trivial
  | trailing e o => trivial

theorem BindsAt.zero (c : Bracketed) : c.BindsAt 0 := by
  cases c with
  | binary o l r => exact Nat.zero_le _
  | _ => trivial

theorem stops_closeParen (c : Bracketed) (ts : List Token) : c.Stops (.closeParen :: ts) := by
  rintro s ts' ⟨⟩

theorem stops_binary {c : Bracketed} {o : BinaryOp} (h : c.Closes o) (ts : List Token) :
    c.Stops (.symbol o.symbol :: ts) := by
  rintro s ts' ⟨⟩
  refine ⟨by cases o <;> rfl, fun p hp => ?_⟩
  rw [BinaryOp.ofSymbol?_symbol, Option.mem_some] at hp
  exact hp ▸ h

theorem Stops.readsTrailing {c : Bracketed} {ts : List Token} (h : c.Stops ts) (t : OpTree) :
    ReadsTrailing t ts t ts :=
  .stop fun s ts' hs => (h s ts' hs).1

end Bracketed

/-! ## Reading a readable tree -/

open Bracketed

/-- What is read off a primary tree followed by trailing operators, and off any readable tree
followed by binary ones: the tree takes part as a whole. -/
theorem reads_tokens (c : Bracketed) (hc : c.Readable) :
    (c.IsPrimary → ∀ {ts u rest}, ReadsTrailing c.erase ts u rest →
      ReadsOperand (c.tokens ++ ts) u rest) ∧
    (∀ {level}, c.BindsAt level → ∀ {ts}, c.Stops ts → ∀ {u rest}, Extends level c.erase ts u rest →
      Climbs level (c.tokens ++ ts) u rest) := by
  induction c with
  | name w =>
    refine ⟨fun _ ts u rest h => .name h, fun {level} _ ts hs u rest h => ?_⟩
    exact .mk (.name (hs.readsTrailing _)) h
  | parens c ih =>
    have inside : ∀ ts, Climbs 0 (c.tokens ++ .closeParen :: ts) c.erase (.closeParen :: ts) :=
      fun ts => (ih hc).2 (.zero c) (stops_closeParen c ts) (.stop (by rintro s ts' ⟨⟩))
    have operand : ∀ {ts u rest}, ReadsTrailing c.erase ts u rest →
        ReadsOperand ((parens c).tokens ++ ts) u rest := by
      intro ts u rest h
      rw [tokens, List.cons_append, List.append_assoc, List.singleton_append]
      exact .parens (inside ts) h
    exact ⟨fun _ => operand, fun _ _ hs _ _ h => .mk (operand (hs.readsTrailing _)) h⟩
  | leading o e ih =>
    refine ⟨False.elim, fun {level} _ ts hs u rest h => ?_⟩
    have hstop : e.Stops ts := fun s ts' he =>
      ⟨(hs s ts' he).1, fun p hp => ((hs s ts' he).2 p hp).2⟩
    have hext : Extends (o.rank + 1) e.erase ts e.erase ts :=
      .stop fun s ts' he p hp => Nat.lt_succ_of_le ((hs s ts' he).2 p hp).1
    exact .mk (.leading ((ih hc.2).2 hc.1 hstop hext)) h
  | trailing e o ih =>
    have operand : ∀ {ts u rest}, ReadsTrailing (.trailing e.erase o) ts u rest →
        ReadsOperand ((trailing e o).tokens ++ ts) u rest := by
      intro ts u rest h
      rw [tokens, List.append_assoc, List.singleton_append]
      exact (ih hc.2).1 hc.1 h.symbol
    exact ⟨fun _ => operand, fun _ _ hs _ _ h => .mk (operand (hs.readsTrailing _)) h⟩
  | binary o l r ihl ihr =>
    refine ⟨False.elim, fun {level} hlevel ts hs u rest h => ?_⟩
    obtain ⟨⟨hlb, hlc, hlr⟩, hrb, hrr⟩ := hc
    have hstop : r.Stops ts := fun s ts' he =>
      ⟨(hs s ts' he).1, fun p hp => ((hs s ts' he).2 p hp).2⟩
    have hext : Extends o.rightLevel r.erase ts r.erase ts :=
      .stop fun s ts' he p hp => ((hs s ts' he).2 p hp).1
    rw [tokens, List.append_assoc, List.cons_append]
    exact (ihl hlr).2 (hlb.mono hlevel) (stops_binary hlc _)
      (.symbol hlevel ((ihr hrr).2 hrb hstop hext) h)

/-- **The tokens of a readable tree are read as the tree.** -/
theorem readTokens_tokens {c : Bracketed} (hc : c.Readable) :
    readTokens c.tokens = some c.erase := by
  have hstop : c.Stops [] := by rintro s ts' ⟨⟩
  have hext : Extends 0 c.erase [] c.erase [] := .stop (by rintro s ts' ⟨⟩)
  have h : Climbs 0 (c.tokens ++ []) c.erase [] := (reads_tokens c hc).2 (.zero c) hstop hext
  rw [List.append_nil] at h
  obtain ⟨hlt, h⟩ := h
  rw [readTokens, h]

end ChapelSource
