import ChapelSource.StringPool

/-!
# Symbol tables

A symbol table numbers strings 0, 1, 2, … in the order in which they first appear.

* `SymbolTable`: the strings in that order, each once.
* `SymbolTable.intern`: the handle of a string, which enters the table if it is new.
* `SymbolTable.lookup?`, `SymbolTable.resolve?`: from string to handle and back, without a change.
* **`SymbolTable.instLawfulStringPool`**: a symbol table is a string pool.
-/

namespace ChapelSource

/-- A table of strings without repetition; a string's position is its handle. -/
structure SymbolTable where
  /-- The strings in order of first appearance. -/
  symbols : List String
  /-- No string is entered twice. -/
  nodup : symbols.Nodup

namespace SymbolTable

/-- The table without strings. -/
def empty : SymbolTable := ⟨[], List.nodup_nil⟩

/-- The number of strings in a table. -/
def size (t : SymbolTable) : Nat := t.symbols.length

/-- A table is empty when it holds no string. -/
def isEmpty (t : SymbolTable) : Bool := t.symbols.isEmpty

/-- The handle of a string that is in the table. -/
def lookup? (t : SymbolTable) (s : String) : Option Nat := t.symbols.idxOf? s

/-- The string that a handle stands for. -/
def resolve? (t : SymbolTable) (handle : Nat) : Option String := t.symbols[handle]?

/-- The table with a string entered at its end, unless it is there already. -/
def insert (t : SymbolTable) (s : String) : SymbolTable :=
  if h : s ∈ t.symbols then t
  else ⟨t.symbols ++ [s], by
    refine List.nodup_append.2 ⟨t.nodup, by simp, ?_⟩
    intro a ha b hb hab
    simp only [List.mem_singleton] at hb
    exact h (hb ▸ hab ▸ ha)⟩

/-- The handle of a string and the table that holds it. -/
def intern (t : SymbolTable) (s : String) : Nat × SymbolTable :=
  ((t.lookup? s).getD t.size, t.insert s)

instance : StringPool SymbolTable where
  empty := empty
  intern := intern
  internStatic := intern
  lookup? := lookup?
  resolve? := resolve?
  size := size
  isEmpty := isEmpty

/-! ## The laws of a pool -/

section

variable {t : SymbolTable} {s : String}

theorem lookup?_eq_none_iff : t.lookup? s = none ↔ s ∉ t.symbols := List.idxOf?_eq_none_iff

theorem insert_of_some {handle : Nat} (h : t.lookup? s = some handle) : t.insert s = t := by
  have hmem : s ∈ t.symbols := List.isSome_idxOf?.1 (Option.isSome_of_eq_some h)
  rw [insert, dif_pos hmem]

theorem symbols_insert_of_none (h : t.lookup? s = none) :
    (t.insert s).symbols = t.symbols ++ [s] := by
  rw [insert, dif_neg (lookup?_eq_none_iff.1 h)]

/-- The handle of a new string is the number of strings before it, and the others keep theirs. -/
theorem lookup?_insert_of_none (h : t.lookup? s = none) (u : String) :
    (t.insert s).lookup? u = if u = s then some t.size else t.lookup? u := by
  have happend : (t.insert s).lookup? u =
      (t.lookup? u).or ((if s == u then some 0 else none).map (· + t.size)) := by
    rw [lookup?, symbols_insert_of_none h, List.idxOf?, List.findIdx?_append,
      List.findIdx?_singleton]
    rfl
  rw [happend]
  by_cases hu : u = s
  · simp [hu, h]
  · simp [hu, Ne.symm hu]

theorem resolve?_insert_of_none (h : t.lookup? s = none) (handle : Nat) :
    (t.insert s).resolve? handle = if handle = t.size then some s else t.resolve? handle := by
  rw [resolve?, symbols_insert_of_none h, size]
  by_cases heq : handle = t.symbols.length
  · rw [if_pos heq, heq, List.getElem?_concat_length]
  · rw [if_neg heq, resolve?]
    rcases Nat.lt_or_gt_of_ne heq with hlt | hgt
    · exact List.getElem?_append_left hlt
    · rw [List.getElem?_eq_none (by rw [List.length_append, List.length_singleton]; omega),
        List.getElem?_eq_none (by omega)]

end

/-- **A symbol table is a string pool.** -/
instance instLawfulStringPool : LawfulStringPool SymbolTable where
  lookup?_empty _ := rfl
  resolve?_empty _ := rfl
  size_empty := rfl
  isEmpty_eq t := by
    show t.symbols.isEmpty = (t.symbols.length == 0)
    cases t.symbols <;> rfl
  internStatic_eq _ _ := rfl
  intern_of_some {t s handle} h := by
    show ((t.lookup? s).getD t.size, t.insert s) = (handle, t)
    rw [show t.lookup? s = some handle from h, insert_of_some h, Option.getD_some]
  fst_intern_of_none {t s} h := by
    show (t.lookup? s).getD t.size = t.size
    rw [show t.lookup? s = none from h, Option.getD_none]
  lookup?_intern_of_none h := lookup?_insert_of_none h
  resolve?_intern_of_none h := resolve?_insert_of_none h
  size_intern_of_none {t s} h := by
    show (t.insert s).symbols.length = t.symbols.length + 1
    rw [symbols_insert_of_none h, List.length_append, List.length_singleton]

end SymbolTable

end ChapelSource
