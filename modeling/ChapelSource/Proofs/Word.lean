import ChapelSource.Grouping.Symbol

/-!
# Words at the front of a text

A word is as long as it can be, so a text that starts with a word has no other word at its front.

* `Parted`: a text into which no word goes on.
* `append_inj_of_parted`: the word at the front of a text, and what follows it.
* `Word.append_inj`, `PlainName.append_inj`, `PlainName.option_append_inj`: the same of names.
* `PlainName.append_ne`: a name is not read as a keyword.
* `counter`: a word for each number.
-/

namespace ChapelSource

/-- No word goes on into a text. -/
def Parted (cs : List Char) : Prop := ∀ c ∈ cs.head?, isWordChar c = false

theorem parted_nil : Parted [] := fun _ h => nomatch h

theorem parted_cons {c : Char} (h : isWordChar c = false) (cs : List Char) : Parted (c :: cs) := by
  rintro d ⟨⟩
  exact h

theorem takeWhile_of_parted {w cs : List Char} (hw : ∀ c ∈ w, isWordChar c = true)
    (hcs : Parted cs) :
    (w ++ cs).takeWhile isWordChar = w ∧ (w ++ cs).dropWhile isWordChar = cs := by
  rw [List.takeWhile_append_of_pos hw, List.dropWhile_append_of_pos hw]
  cases cs with
  | nil => exact ⟨List.append_nil w, rfl⟩
  | cons c cs => simp [hcs c rfl]

/-- The characters of a word, and what follows it, are found in the text of both. -/
theorem append_inj_of_parted {w v cs ds : List Char} (hw : ∀ c ∈ w, isWordChar c = true)
    (hv : ∀ c ∈ v, isWordChar c = true) (hcs : Parted cs) (hds : Parted ds)
    (h : w ++ cs = v ++ ds) : w = v ∧ cs = ds := by
  obtain ⟨hw, hcs⟩ := takeWhile_of_parted hw hcs
  obtain ⟨hv, hds⟩ := takeWhile_of_parted hv hds
  rw [h] at hw hcs
  exact ⟨hw.symm.trans hv, hcs.symm.trans hds⟩

theorem Word.append_inj {w v : Word} {cs ds : List Char} (hcs : Parted cs) (hds : Parted ds)
    (h : w.chars ++ cs = v.chars ++ ds) : w = v ∧ cs = ds := by
  obtain ⟨hchars, hrest⟩ :=
    append_inj_of_parted w.isWordChar_of_mem v.isWordChar_of_mem hcs hds h
  exact ⟨Word.ext hchars, hrest⟩

theorem Word.exists_chars (w : Word) : ∃ c cs, w.chars = c :: cs ∧ isWordChar c = true := by
  cases h : w.chars with
  | nil => exact absurd h w.chars_ne_nil
  | cons c cs => exact ⟨c, cs, rfl, w.isWordChar_of_mem c (h ▸ List.mem_cons_self)⟩

namespace PlainName

variable {keywords : List String} {w v : PlainName keywords} {cs ds : List Char}

theorem append_inj (hcs : Parted cs) (hds : Parted ds) (h : w.chars ++ cs = v.chars ++ ds) :
    w = v ∧ cs = ds := by
  obtain ⟨hword, hrest⟩ := Word.append_inj hcs hds h
  exact ⟨PlainName.ext (congrArg Word.chars hword), hrest⟩

/-- The name at the front of a text, if there is one. -/
theorem option_append_inj {o p : Option (PlainName keywords)} (hcs : Parted cs) (hds : Parted ds)
    (h : o.elim [] (fun w => w.chars) ++ cs = p.elim [] (fun w => w.chars) ++ ds) :
    o = p ∧ cs = ds := by
  have hword : ∀ q : Option (PlainName keywords), ∀ c ∈ q.elim [] (fun w => w.chars),
      isWordChar c = true := by
    intro q
    cases q with
    | none => exact nofun
    | some w => exact w.isWordChar_of_mem
  obtain ⟨hchars, hrest⟩ := append_inj_of_parted (hword o) (hword p) hcs hds h
  refine ⟨?_, hrest⟩
  cases o with
  | none =>
    cases p with
    | none => rfl
    | some v => exact absurd hchars.symm v.chars_ne_nil
  | some w =>
    cases p with
    | none => exact absurd hchars w.chars_ne_nil
    | some v => exact congrArg some (PlainName.ext hchars)

theorem chars_ne {k : String} (hk : k ∈ keywords) : w.chars ≠ k.toList := by
  intro h
  apply w.not_keyword
  rwa [Word.text, h, String.ofList_toList]

theorem append_ne {k : String} (hk : k ∈ keywords) (hchars : k.toList.all isWordChar = true)
    (hcs : Parted cs) (hds : Parted ds) : w.chars ++ cs ≠ k.toList ++ ds := by
  intro h
  obtain ⟨hw, -⟩ := append_inj_of_parted w.isWordChar_of_mem (List.all_eq_true.1 hchars) hcs hds h
  exact chars_ne hk hw

end PlainName

/-! ## Words for numbers -/

/-- A word for a number. -/
def counter (n : Nat) : Word where
  chars := List.replicate (n + 1) 'i'
  chars_ne_nil := by simp
  isWordChar_of_mem := by
    intro c hc
    rw [(List.mem_replicate.1 hc).2]
    decide

theorem counter_injective {m n : Nat} (h : counter m = counter n) : m = n := by
  have hlength := congrArg (fun w : Word => w.chars.length) h
  simpa [counter] using hlength

end ChapelSource
