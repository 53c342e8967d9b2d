import Mathlib.Data.Finset.Card
import Mathlib.Data.Finset.Dedup
import ChapelSource.StringPool

/-!
# Handles and strings

In a pool that strings were only entered into, handles and strings are each other's names, and the
handles are the numbers below the number of strings.

* `StringPool.Consistent`: handles and strings of a pool are each other's names.
* `StringPool.lookup?_intern`, `StringPool.size_intern`: what entering a string does to a pool.
* `StringPool.consistent_empty`, **`StringPool.Consistent.intern`**: entering a string keeps a pool
  consistent.
* `StringPool.Within`, `StringPool.within_intern`: a pool whose handles another pool has too.
* `StringPool.Holds`, **`StringPool.Holds.internAll`**: the strings of a pool are those that were
  entered, each counted once.
-/

namespace ChapelSource

namespace StringPool

variable {τ : Type} [StringPool τ]

/-- Handles and strings are each other's names, and the handles are the first numbers. -/
structure Consistent (t : τ) : Prop where
  resolve?_eq_some_iff : ∀ {s : String} {handle : Nat},
    resolve? t handle = some s ↔ lookup? t s = some handle
  exists_lookup?_iff : ∀ {handle : Nat}, (∃ s, lookup? t s = some handle) ↔ handle < size t

/-- All handles of a pool are those of another, for the same strings. -/
def Within (t u : τ) : Prop :=
  ∀ s handle, lookup? t s = some handle → lookup? u s = some handle

theorem Within.refl (t : τ) : Within t t := fun _ _ h => h

theorem Within.trans {t u v : τ} (htu : Within t u) (huv : Within u v) : Within t v :=
  fun s handle h => huv s handle (htu s handle h)

theorem internAll_cons (t : τ) (s : String) (names : List String) :
    internAll t (s :: names) = internAll (intern t s).2 names := rfl

namespace Consistent

variable {t : τ} (h : Consistent t)

include h

theorem eq_of_lookup? {s u : String} {handle : Nat} (hs : lookup? t s = some handle)
    (hu : lookup? t u = some handle) : s = u :=
  Option.some.inj ((h.resolve?_eq_some_iff.2 hs).symm.trans (h.resolve?_eq_some_iff.2 hu))

theorem lt_size {s : String} {handle : Nat} (hs : lookup? t s = some handle) : handle < size t :=
  h.exists_lookup?_iff.1 ⟨s, hs⟩

theorem lookup?_ne_size (s : String) : lookup? t s ≠ some (size t) :=
  fun hs => Nat.lt_irrefl _ (h.lt_size hs)

end Consistent

/-- What a handle stands for is the same in a pool that the pool is within. -/
theorem Within.resolve? {t u : τ} (hwithin : Within t u) (hu : Consistent u) {s : String}
    {handle : Nat} (hs : lookup? t s = some handle) : StringPool.resolve? u handle = some s :=
  hu.resolve?_eq_some_iff.2 (hwithin s handle hs)

/-! ## Entering a string -/

section

variable [LawfulStringPool τ]

open LawfulStringPool

theorem consistent_empty : Consistent (empty : τ) where
  resolve?_eq_some_iff := by
    intro s handle
    rw [lookup?_empty, resolve?_empty]
    exact ⟨nofun, nofun⟩
  exists_lookup?_iff := by
    intro handle
    rw [size_empty]
    refine ⟨fun ⟨s, hs⟩ => ?_, fun h => absurd h (Nat.not_lt_zero _)⟩
    rw [lookup?_empty] at hs
    exact nomatch hs

theorem lookup?_intern (t : τ) (s u : String) :
    lookup? (intern t s).2 u = if u = s then some (intern t s).1 else lookup? t u := by
  cases h : lookup? t s with
  | some handle =>
    rw [intern_of_some h]
    split
    · next hu => rw [hu, h]
    · rfl
  | none => rw [lookup?_intern_of_none h, fst_intern_of_none h]

theorem lookup?_intern_self (t : τ) (s : String) :
    lookup? (intern t s).2 s = some (intern t s).1 := by
  rw [lookup?_intern, if_pos rfl]

theorem size_intern (t : τ) (s : String) :
    size (intern t s).2 = if (lookup? t s).isSome then size t else size t + 1 := by
  cases h : lookup? t s with
  | some handle => rw [intern_of_some h, Option.isSome_some, if_pos rfl]
  | none => rw [size_intern_of_none h, Option.isSome_none, if_neg (by decide)]

theorem within_intern (t : τ) (s : String) : Within t (intern t s).2 := by
  intro u handle hu
  rw [lookup?_intern]
  split
  · next hus =>
    rw [hus] at hu
    rw [intern_of_some hu]
  · exact hu

theorem Consistent.intern_of_none {t : τ} (h : Consistent t) {s : String}
    (hs : lookup? t s = none) : Consistent (intern t s).2 where
  resolve?_eq_some_iff := by
    intro u handle
    rw [resolve?_intern_of_none hs, lookup?_intern_of_none hs]
    by_cases hnew : handle = size t
    · rw [hnew, if_pos rfl]
      split
      · next hu => exact ⟨fun _ => rfl, fun _ => by rw [hu]⟩
      · next hu =>
        exact ⟨fun heq => absurd (Option.some.inj heq).symm hu,
          fun heq => absurd heq (h.lookup?_ne_size u)⟩
    · rw [if_neg hnew, h.resolve?_eq_some_iff]
      split
      · next hu =>
        rw [hu, hs]
        exact ⟨nofun, fun heq => absurd (Option.some.inj heq).symm hnew⟩
      · rfl
  exists_lookup?_iff := by
    intro handle
    rw [size_intern_of_none hs]
    constructor
    · rintro ⟨u, hu⟩
      rw [lookup?_intern_of_none hs] at hu
      split at hu
      · exact Option.some.inj hu ▸ Nat.lt_succ_self _
      · exact Nat.lt_succ_of_lt (h.lt_size hu)
    · intro hlt
      rcases Nat.lt_succ_iff_lt_or_eq.1 hlt with hlt | rfl
      · obtain ⟨u, hu⟩ := h.exists_lookup?_iff.2 hlt
        exact ⟨u, within_intern t s u _ hu⟩
      · exact ⟨s, by rw [lookup?_intern_of_none hs, if_pos rfl]⟩

/-- **A pool stays consistent when a string is entered.** -/
theorem Consistent.intern {t : τ} (h : Consistent t) (s : String) :
    Consistent (intern t s).2 := by
  cases hs : lookup? t s with
  | some handle =>
    rw [intern_of_some hs]
    exact h
  | none => exact h.intern_of_none hs

/-! ## Entering some strings -/

theorem within_internAll (t : τ) (names : List String) : Within t (internAll t names) := by
  induction names generalizing t with
  | nil => exact Within.refl t
  | cons s names ih => exact (within_intern t s).trans (ih _)

/-- A pool that holds exactly some strings, as many as there are different ones. -/
structure Holds (t : τ) (names : List String) : Prop where
  consistent : Consistent t
  isSome_lookup?_iff : ∀ {s : String}, (lookup? t s).isSome = true ↔ s ∈ names
  size_eq : size t = names.toFinset.card

theorem holds_empty : Holds (empty : τ) [] where
  consistent := consistent_empty
  isSome_lookup?_iff := by
    intro s
    rw [lookup?_empty]
    exact ⟨nofun, nofun⟩
  size_eq := size_empty

theorem Holds.intern {t : τ} {names : List String} (h : Holds t names) (s : String) :
    Holds (StringPool.intern t s).2 (names ++ [s]) where
  consistent := h.consistent.intern s
  isSome_lookup?_iff := by
    intro u
    rw [lookup?_intern, List.mem_append, List.mem_singleton, ← h.isSome_lookup?_iff]
    split
    · next hu => exact ⟨fun _ => .inr hu, fun _ => rfl⟩
    · next hu => exact ⟨.inl, fun hor => hor.resolve_right hu⟩
  size_eq := by
    have hinsert : (names ++ [s]).toFinset = insert s names.toFinset := by
      ext u
      simp
    rw [hinsert, size_intern, h.size_eq]
    by_cases hs : s ∈ names
    · rw [if_pos (h.isSome_lookup?_iff.2 hs), Finset.insert_eq_self.2 (List.mem_toFinset.2 hs)]
    · rw [if_neg (fun hsome => hs (h.isSome_lookup?_iff.1 hsome)),
        Finset.card_insert_of_notMem (fun hmem => hs (List.mem_toFinset.1 hmem))]

theorem Holds.internAll {t : τ} {names : List String} (h : Holds t names) (more : List String) :
    Holds (StringPool.internAll t more) (names ++ more) := by
  induction more generalizing t names with
  | nil =>
    rw [List.append_nil]
    exact h
  | cons s more ih =>
    rw [List.append_cons, internAll_cons]
    exact ih (h.intern s)

end

end StringPool

end ChapelSource
