/-!
# String pools

A string pool gives each string that is entered a handle, 0, 1, 2, … in the order in which they are
first entered.

* `StringPool`: the operations of a pool.
* `LawfulStringPool`: what each operation does, one step at a time.
* `StringPool.internAll`: some strings entered one after the other.
-/

namespace ChapelSource

/-- The operations of a pool of strings. -/
class StringPool (τ : Type) where
  /-- A new pool. -/
  empty : τ
  /-- The handle of a string, which is entered if it is new, and the pool after it. -/
  intern : τ → String → Nat × τ
  /-- The same for a string that the program holds anyway. -/
  internStatic : τ → String → Nat × τ
  /-- The handle of a string that has been entered. -/
  lookup? : τ → String → Option Nat
  /-- The string of a handle that has been given out. -/
  resolve? : τ → Nat → Option String
  /-- The number of strings. -/
  size : τ → Nat
  /-- There is no string. -/
  isEmpty : τ → Bool

open StringPool in
/-- A pool enters each string once and gives it the next handle. -/
class LawfulStringPool (τ : Type) [StringPool τ] : Prop where
  lookup?_empty (s : String) : lookup? (empty : τ) s = none
  resolve?_empty (handle : Nat) : resolve? (empty : τ) handle = none
  size_empty : size (empty : τ) = 0
  isEmpty_eq (t : τ) : isEmpty t = (size t == 0)
  internStatic_eq (t : τ) (s : String) : internStatic t s = intern t s
  /-- A string that has been entered keeps its handle, and the pool stays as it is. -/
  intern_of_some {t : τ} {s : String} {handle : Nat} (h : lookup? t s = some handle) :
    intern t s = (handle, t)
  /-- A new string has the next handle. -/
  fst_intern_of_none {t : τ} {s : String} (h : lookup? t s = none) : (intern t s).1 = size t
  lookup?_intern_of_none {t : τ} {s : String} (h : lookup? t s = none) (u : String) :
    lookup? (intern t s).2 u = if u = s then some (size t) else lookup? t u
  resolve?_intern_of_none {t : τ} {s : String} (h : lookup? t s = none) (handle : Nat) :
    resolve? (intern t s).2 handle = if handle = size t then some s else resolve? t handle
  size_intern_of_none {t : τ} {s : String} (h : lookup? t s = none) :
    size (intern t s).2 = size t + 1

/-- The pool after some strings are entered one after the other. -/
def StringPool.internAll {τ : Type} [StringPool τ] (t : τ) (names : List String) : τ :=
  names.foldl (fun t s => (intern t s).2) t

end ChapelSource
