import ChapelSource.Interner
import ChapelSource.SymbolTable
import ChapelSource.Proofs.StringPool

/-!
# Histories of interners

Whatever requests go through an interner and its clones, and whatever other interners do meanwhile,
handles and strings are each other's names, the handles are given out in order, and the answers go
by the strings that the family has entered so far.

* `Records`: a pool holds what a history has entered, under the handles that it gave out.
* `Records.ask`: this is kept by every request.
* `Records.answered`: the answer to the next request.
* `Interners.Follows`, **`Interners.follows_after`**: the pool of each family records its history.
* **`Interner.family_answered`**, `Interner.family_answered_clone`: the answers to a family.
-/

namespace ChapelSource

open StringPool LawfulStringPool

/-! ## What a history has entered -/

theorem entered_concat (past : List Exchange) (x : Exchange) :
    entered (past ++ [x]) = entered past ++ x.request.entered?.toList := by
  rw [entered, entered, List.filterMap_append]
  cases h : x.request.entered? <;> simp [h]

theorem gave_concat {past : List Exchange} {x : Exchange} {s : String} {handle : Nat} :
    Gave (past ++ [x]) s handle ↔
      Gave past s handle ∨ x.request.entered? = some s ∧ x.answer = .handle (some handle) := by
  simp only [Gave, List.mem_append, List.mem_singleton, or_and_right, exists_or, exists_eq_left]

/-- A pool holds what a history has entered, under the handles that it gave out. -/
structure Records {τ : Type} [StringPool τ] (past : List Exchange) (t : τ) : Prop where
  holds : Holds t (entered past)
  gave_iff : ∀ {s : String} {handle : Nat}, Gave past s handle ↔ lookup? t s = some handle

/-- The answer that a history calls for next. -/
def Exchange.Answered (past : List Exchange) (x : Exchange) : Prop :=
  match x.request with
  | .intern _ | .internStatic _ => ∃ handle : Nat, x.answer = .handle (some handle)
  | .lookup s => ∃ o, x.answer = .handle o ∧ ∀ handle, o = some handle ↔ Gave past s handle
  | .resolve handle => ∃ o, x.answer = .symbol o ∧ ∀ s, o = some s ↔ Gave past s handle
  | .size => x.answer = .count (entered past).toFinset.card
  | .isEmpty => x.answer = .truth (decide ((entered past).toFinset.card = 0))
  | .describe => x.answer = .text (describeSize (entered past).toFinset.card)

namespace Records

variable {τ : Type} [StringPool τ] {past : List Exchange} {t : τ} (h : Records past t)

include h

/-- The handles that were given out are the first numbers. -/
theorem exists_gave_iff {handle : Nat} :
    (∃ s, Gave past s handle) ↔ handle < (entered past).toFinset.card := by
  rw [← h.holds.size_eq, ← h.holds.consistent.exists_lookup?_iff]
  exact exists_congr fun _ => h.gave_iff

/-- Handles and strings are each other's names. -/
theorem gave_inj {s u : String} {handle other : Nat} (hs : Gave past s handle)
    (hu : Gave past u other) : handle = other ↔ s = u := by
  rw [h.gave_iff] at hs hu
  constructor
  · rintro rfl
    exact h.holds.consistent.eq_of_lookup? hs hu
  · rintro rfl
    exact Option.some.inj (hs.symm.trans hu)

theorem read {x : Exchange} (hr : x.request.entered? = none) : Records (past ++ [x]) t where
  holds := by
    rw [entered_concat, hr]
    exact (List.append_nil _).symm ▸ h.holds
  gave_iff := by
    intro u handle
    rw [gave_concat, hr, h.gave_iff]
    exact ⟨fun hor => hor.resolve_right (fun hs => nomatch hs.1), .inl⟩

end Records

section

variable {τ : Type} [StringPool τ] [LawfulStringPool τ]

theorem records_empty : Records [] (empty : τ) where
  holds := holds_empty
  gave_iff := by
    intro s handle
    rw [lookup?_empty]
    exact ⟨fun ⟨_, hx, _⟩ => absurd hx List.not_mem_nil, nofun⟩

namespace Records

variable {past : List Exchange} {t : τ} (h : Records past t)

include h

theorem intern (place : Nat) {r : Request} {s : String} (hr : r.entered? = some s) :
    Records (past ++ [⟨place, r, .handle (StringPool.intern t s).1⟩]) (StringPool.intern t s).2 where
  holds := by
    rw [entered_concat, hr]
    exact h.holds.intern s
  gave_iff := by
    intro u handle
    rw [gave_concat, hr, h.gave_iff, lookup?_intern]
    split
    · next hu =>
      rw [hu]
      constructor
      · rintro (hold | ⟨-, hnew⟩)
        · rw [intern_of_some hold]
        · exact congrArg some (Option.some.inj (Answer.handle.inj hnew))
      · rintro heq
        exact .inr ⟨rfl, by rw [heq]⟩
    · next hu =>
      exact ⟨fun hor => hor.resolve_right fun hs => hu (Option.some.inj hs.1).symm, .inl⟩

/-- **A pool goes on recording what is asked of it.** -/
theorem ask (place : Nat) (r : Request) :
    Records (past ++ [⟨place, r, (answer t r).1⟩]) (answer t r).2 := by
  cases r with
  | intern s => exact h.intern place rfl
  | internStatic s =>
    simp only [answer, internStatic_eq]
    exact h.intern place rfl
  | lookup s => exact h.read rfl
  | resolve handle => exact h.read rfl
  | size => exact h.read rfl
  | isEmpty => exact h.read rfl
  | describe => exact h.read rfl

theorem answered (place : Nat) (r : Request) :
    Exchange.Answered past ⟨place, r, (answer t r).1⟩ := by
  cases r with
  | intern s => exact ⟨_, rfl⟩
  | internStatic s => exact ⟨_, rfl⟩
  | lookup s => exact ⟨_, rfl, fun handle => h.gave_iff.symm⟩
  | resolve handle =>
    exact ⟨_, rfl, fun s => h.holds.consistent.resolve?_eq_some_iff.trans h.gave_iff.symm⟩
  | size => exact congrArg Answer.count h.holds.size_eq
  | isEmpty =>
    show Answer.truth (isEmpty t) = _
    rw [isEmpty_eq, h.holds.size_eq]
    rfl
  | describe => exact congrArg (fun n => Answer.text (describeSize n)) h.holds.size_eq

end Records

end

/-! ## Families -/

theorem family_append (os : List Nat) (origin : Nat) (history more : List Exchange) :
    family os origin (history ++ more) = family os origin history ++ family os origin more :=
  List.filter_append _ _

/-- The history of a family does not depend on the interners that are made after it. -/
theorem family_of_lt {os more : List Nat} (origin : Nat) {history : List Exchange}
    (h : ∀ x ∈ history, x.place < os.length) :
    family (os ++ more) origin history = family os origin history := by
  refine List.filter_congr fun x hx => ?_
  rw [List.getElem?_append_left (h x hx)]

theorem origins_concat (steps : List InternerStep) (s : InternerStep) :
    origins (steps ++ [s]) = addOrigin (origins steps) s := List.foldl_concat ..

namespace Interners

variable {τ : Type} [StringPool τ] (w : Interners τ)

theorem after_concat (steps : List InternerStep) (s : InternerStep) :
    w.after (steps ++ [s]) = ((w.after steps).step s).2 := List.foldl_concat ..

theorem exchanges_concat (steps : List InternerStep) (s : InternerStep) :
    w.exchanges (steps ++ [s]) = w.exchanges steps ++ ((w.after steps).step s).1.toList := by
  induction steps generalizing w with
  | nil => exact List.append_nil _
  | cons t steps ih =>
    rw [List.cons_append, exchanges, ih, exchanges, List.append_assoc]
    rfl

/-- The interners follow a history: each has the pool of its origin, and the pool of each family
records what the family has asked. -/
structure Follows (w : Interners τ) (os : List Nat) (history : List Exchange) : Prop where
  pools_eq : w.made.map Interner.pool = os
  place_lt : ∀ x ∈ history, x.place < os.length
  records : ∀ origin, Records (family os origin history) (w.pools origin)

variable {w} {os : List Nat} {history : List Exchange}

theorem Follows.length_eq (h : Follows w os history) : w.made.length = os.length := by
  rw [← h.pools_eq, List.length_map]

theorem Follows.make (h : Follows w os history) (more : List Interner) :
    Follows { w with made := w.made ++ more } (os ++ more.map Interner.pool) history where
  pools_eq := by rw [List.map_append, h.pools_eq]
  place_lt x hx := by
    rw [List.length_append]
    exact Nat.lt_add_right _ (h.place_lt x hx)
  records origin := by
    rw [family_of_lt origin h.place_lt]
    exact h.records origin

theorem Follows.pool_eq (h : Follows w os history) (place : Nat) :
    w.made[place]?.map Interner.pool = os[place]? := by
  rw [← h.pools_eq, List.getElem?_map]

theorem step_read {place : Nat} {r : Request} (hr : r.entered? = none) :
    (w.step (.ask place r)).2 = w := by
  cases hi : w.made[place]? with
  | none => simp only [Interners.step, hi]
  | some i =>
    have hpool : (answer (w.pools i.pool) r).2 = w.pools i.pool := by
      cases r <;> first | rfl | exact nomatch hr
    simp only [Interners.step, hi, hpool]
    congr 1
    funext n
    split
    · next hn => rw [hn]
    · rfl

section

variable [LawfulStringPool τ]

theorem follows_start : Follows (start : Interners τ) [] [] where
  pools_eq := rfl
  place_lt _ hx := nomatch hx
  records _ := records_empty

theorem Follows.ask (h : Follows w os history) {place : Nat} {i : Interner}
    (hi : w.made[place]? = some i) (r : Request) :
    Follows (w.step (.ask place r)).2 os (history ++ (w.step (.ask place r)).1.toList) := by
  have hplace : os[place]? = some i.pool := by rw [← h.pool_eq, hi, Option.map_some]
  have hlt : place < os.length := (List.getElem?_eq_some_iff.1 hplace).1
  simp only [step, hi, Option.toList_some]
  refine ⟨h.pools_eq, fun x hx => ?_, fun origin => ?_⟩
  · rcases List.mem_append.1 hx with hx | hx
    · exact h.place_lt x hx
    · rw [List.mem_singleton.1 hx]
      exact hlt
  · rw [family_append]
    by_cases horigin : origin = i.pool
    · have hnew : family os origin [⟨place, r, (answer (w.pools i.pool) r).1⟩] =
          [⟨place, r, (answer (w.pools i.pool) r).1⟩] :=
        List.filter_cons_of_pos (by rw [hplace, horigin, beq_self_eq_true])
      dsimp only
      rw [hnew, if_pos horigin, horigin]
      exact (h.records i.pool).ask place r
    · have hnew : family os origin [⟨place, r, (answer (w.pools i.pool) r).1⟩] = [] :=
        List.filter_cons_of_neg (by
          rw [hplace, beq_iff_eq, Option.some.injEq]
          exact Ne.symm horigin)
      dsimp only
      rw [hnew, List.append_nil, if_neg horigin]
      exact h.records origin

/-- **Whatever a program does next, the pools go on recording their families.** -/
theorem Follows.step (h : Follows w os history) (s : InternerStep) :
    Follows (w.step s).2 (addOrigin os s) (history ++ (w.step s).1.toList) := by
  cases s with
  | new =>
    have hmake := h.make [⟨w.made.length⟩]
    rw [List.map_singleton, h.length_eq] at hmake
    simpa only [Interners.step, addOrigin, Option.toList_none, List.append_nil, h.length_eq]
      using hmake
  | clone place =>
    have hclone : ((w.made[place]?.map Interner.clone).toList).map Interner.pool =
        os[place]?.toList := by
      rw [← h.pool_eq]
      cases w.made[place]? <;> rfl
    have hmake := h.make (w.made[place]?.map Interner.clone).toList
    rw [hclone] at hmake
    simpa only [Interners.step, addOrigin, Option.toList_none, List.append_nil] using hmake
  | ask place r =>
    cases hi : w.made[place]? with
    | none =>
      simp only [Interners.step, hi, Option.toList_none, List.append_nil]
      exact h
    | some i => exact h.ask hi r

/-- **The pool of each family records its history.** -/
theorem follows_after (steps : List InternerStep) :
    Follows ((start : Interners τ).after steps) (origins steps)
      ((start : Interners τ).exchanges steps) := by
  induction steps using List.reverseRecOn with
  | nil => exact follows_start
  | append_singleton steps s ih =>
    rw [after_concat, origins_concat, exchanges_concat]
    exact ih.step s

end

end Interners

section

variable {τ : Type} [StringPool τ] [LawfulStringPool τ]

/-- **An interner and its clones name strings by the first numbers, whatever is done.** After any
steps of a program the handles that a family of clones has given out are the numbers below the
number of different strings that it has entered, two of them are equal exactly if their strings are,
and a request through any interner of the family is answered by what the family has entered. A
request that enters no string changes nothing. -/
theorem Interner.family_answered (steps : List InternerStep) (origin : Nat) :
    let w : Interners τ := Interners.start.after steps
    let past := family (origins steps) origin ((Interners.start : Interners τ).exchanges steps)
    (∀ handle, (∃ s, Gave past s handle) ↔ handle < (entered past).toFinset.card) ∧
    (∀ s u handle other, Gave past s handle → Gave past u other → (handle = other ↔ s = u)) ∧
    ∀ place r, (origins steps)[place]? = some origin →
      (∃ x, (w.step (.ask place r)).1 = some x ∧ x.place = place ∧ x.request = r ∧
        x.Answered past) ∧
      (r.entered? = none → (w.step (.ask place r)).2 = w) := by
  intro w past
  have hfollows : w.Follows (origins steps) _ := Interners.follows_after steps
  have hpast : Records past (w.pools origin) := hfollows.records origin
  refine ⟨fun handle => hpast.exists_gave_iff,
    fun s u handle other hs hu => hpast.gave_inj hs hu, fun place r hplace => ?_⟩
  refine ⟨?_, Interners.step_read⟩
  rw [← hfollows.pool_eq] at hplace
  obtain ⟨i, hi, hpool⟩ := Option.map_eq_some_iff.1 hplace
  refine ⟨⟨place, r, (answer (w.pools i.pool) r).1⟩, ?_, rfl, rfl, ?_⟩
  · simp only [Interners.step, hi]
  · rw [hpool]
    exact hpast.answered place r

/-- A clone of a clone gives back the string that the second interner was the first to enter, though
another interner has given the handle to another string. -/
theorem Interner.family_answered_clone :
    let steps : List InternerStep := [.new, .ask 0 (.intern "z"), .new, .clone 1, .clone 2,
      .ask 1 (.intern "x"), .ask 2 (.internStatic "y"), .ask 0 (.intern "x")]
    let w : Interners SymbolTable := Interners.start.after steps
    (origins steps)[3]? = some 1 ∧
      (w.step (.ask 3 (.resolve 0))).1 = some ⟨3, .resolve 0, .symbol (some "x")⟩ ∧
      (w.step (.ask 3 .size)).1 = some ⟨3, .size, .count 2⟩ := by
  intro steps w
  have horigin : (origins steps)[3]? = some 1 := rfl
  obtain ⟨-, -, hanswers⟩ := @Interner.family_answered SymbolTable _ _ steps 1
  have hpast : family (origins steps) 1 ((Interners.start : Interners SymbolTable).exchanges steps) =
      [⟨1, .intern "x", .handle (some 0)⟩, ⟨2, .internStatic "y", .handle (some 1)⟩] := rfl
  rw [hpast] at hanswers
  obtain ⟨⟨⟨_, _, _⟩, hresolve, rfl, rfl, o, rfl, ho⟩, -⟩ := hanswers 3 (.resolve 0) horigin
  obtain ⟨⟨⟨_, _, _⟩, hsize, rfl, rfl, rfl⟩, -⟩ := hanswers 3 .size horigin
  obtain rfl : o = some "x" := (ho "x").2 ⟨_, List.mem_cons_self, rfl, rfl⟩
  exact ⟨horigin, hresolve, hsize⟩

end

end ChapelSource
