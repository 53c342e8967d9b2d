import ChapelSource.StringPool

/-!
# Interners

An interner refers to a string pool, and its clones refer to the same pool. Whoever uses a pool sees
all strings that were entered before, whichever clone entered them.

* `Request`, `Answer`, `StringPool.answer`: the uses of a pool and what it answers.
* `Interner`, `Interner.clone`: interners.
* `Interners`, `InternerStep`: the interners of a program, and what it does with them.
* `Interners.step`, `Interners.after`, `Interners.exchanges`: one step, and what comes of several.
* `origins`: the interner that each interner descends from by cloning.
* `family`: the part of a history that goes through an interner and the clones that descend from it.
* `entered`, `Gave`: the strings that a history enters, and the handles that it gives out for them.
-/

namespace ChapelSource

/-! ## Requests -/

/-- One use of a pool. -/
inductive Request where
  /-- Give the handle of a string, entering it if it is new. -/
  | intern (s : String)
  /-- The same for a string that the program holds anyway. -/
  | internStatic (s : String)
  /-- Give the handle of a string if it has one. -/
  | lookup (s : String)
  /-- Give the string of a handle. -/
  | resolve (handle : Nat)
  /-- Count the strings. -/
  | size
  /-- Ask whether there is no string. -/
  | isEmpty
  /-- Describe the pool. -/
  | describe

/-- The string that a request enters. -/
def Request.entered? : Request → Option String
  | intern s | internStatic s => some s
  | lookup _ | resolve _ | size | isEmpty | describe => none

/-- What a pool answers to a request. -/
inductive Answer where
  /-- The handle asked for, if there is one. -/
  | handle (handle? : Option Nat)
  /-- The string asked for; there is none for a handle not given out yet. -/
  | symbol (symbol? : Option String)
  /-- A number of strings. -/
  | count (n : Nat)
  /-- A yes or a no. -/
  | truth (b : Bool)
  /-- A description. -/
  | text (s : String)

/-- The description of a pool with some number of strings. -/
def describeSize (n : Nat) : String := "StringInterner \x7b len: " ++ toString n ++ " \x7d"

section

variable {τ : Type} [StringPool τ]

/-- The answer to a request, and the pool after it. -/
def StringPool.answer (t : τ) : Request → Answer × τ
  | .intern s => (.handle (intern t s).1, (intern t s).2)
  | .internStatic s => (.handle (internStatic t s).1, (internStatic t s).2)
  | .lookup s => (.handle (lookup? t s), t)
  | .resolve handle => (.symbol (resolve? t handle), t)
  | .size => (.count (size t), t)
  | .isEmpty => (.truth (isEmpty t), t)
  | .describe => (.text (describeSize (size t)), t)

end

/-! ## Interners and their pools -/

/-- An interner refers to a pool, which it may share with others. -/
structure Interner where
  /-- The number of the pool. -/
  pool : Nat

/-- A clone refers to the same pool. -/
def Interner.clone (i : Interner) : Interner := ⟨i.pool⟩

/-- The interners of a program and their pools. -/
structure Interners (τ : Type) where
  /-- The interners in the order in which they were made. -/
  made : List Interner
  /-- The pools by their numbers. -/
  pools : Nat → τ

/-- What a program does with its interners, which it knows by their places. -/
inductive InternerStep where
  /-- Make an interner with a pool of its own. -/
  | new
  /-- Make a clone of an interner. -/
  | clone (place : Nat)
  /-- Ask something through an interner. -/
  | ask (place : Nat) (r : Request)

/-- A request, the place of the interner that it went through, and the answer. -/
structure Exchange where
  place : Nat
  request : Request
  answer : Answer

namespace Interners

variable {τ : Type} [StringPool τ]

/-- Before any interner is made no pool has been used. -/
def start : Interners τ := ⟨[], fun _ => StringPool.empty⟩

/-- The exchange that a step is, if it is one, and the interners after it. Nothing comes of a place
where no interner is. -/
def step (w : Interners τ) : InternerStep → Option Exchange × Interners τ
  | .new => (none, { w with made := w.made ++ [⟨w.made.length⟩] })
  | .clone place => (none, { w with made := w.made ++ (w.made[place]?.map Interner.clone).toList })
  | .ask place r =>
    match w.made[place]? with
    | none => (none, w)
    | some i =>
      let (answer, pool) := StringPool.answer (w.pools i.pool) r
      (some ⟨place, r, answer⟩, { w with pools := fun n => if n = i.pool then pool else w.pools n })

/-- The interners after some steps. -/
def after (w : Interners τ) (steps : List InternerStep) : Interners τ :=
  steps.foldl (fun w s => (w.step s).2) w

/-- The exchanges of some steps one after the other. -/
def exchanges (w : Interners τ) : List InternerStep → List Exchange
  | [] => []
  | s :: steps => (w.step s).1.toList ++ exchanges (w.step s).2 steps

end Interners

/-! ## Families -/

/-- The origins of all interners after one more step: an interner that is made anew is its own, and a
clone has that of the interner that it was made of. -/
def addOrigin (origins : List Nat) : InternerStep → List Nat
  | .new => origins ++ [origins.length]
  | .clone place => origins ++ origins[place]?.toList
  | .ask _ _ => origins

/-- For each interner that some steps make, the place of the interner that it descends from by
cloning. -/
def origins (steps : List InternerStep) : List Nat := steps.foldl addOrigin []

/-- The exchanges through the interners with a given origin: that interner, its clones, their clones
and so on. -/
def family (origins : List Nat) (origin : Nat) (history : List Exchange) : List Exchange :=
  history.filter fun x => origins[x.place]? == some origin

/-- The strings that a history enters. -/
def entered (history : List Exchange) : List String := history.filterMap fun x => x.request.entered?

/-- A history gives out a handle for a string that it enters. -/
def Gave (history : List Exchange) (s : String) (handle : Nat) : Prop :=
  ∃ x ∈ history, x.request.entered? = some s ∧ x.answer = .handle (some handle)

end ChapelSource
