import ChapelSource.Proofs.Signature.Text

/-!
# A signature is known from its text

The keywords of a signature stand before its first name and are told from names. What follows a name
starts with a mark of its own. So a text is that of one signature of names at most.

* `pragma_append_inj`: the pragmas at the front of a text.
* `marked_append_inj`: the name after a mark, if there is one.
* **`PlainFormal.append_inj`**: the formal at the front of a text, and what follows it.
* `Signature.words_inj`: the keywords of a signature.
* `Signature.eq_of_chars_eq`: signatures with one text are one signature.
* **`FunctionDecl.HasSignature.printSignature_eq_iff`**,
  `FunctionDecl.HasSignature.printSignature_eq_iff_method`: functions whose signatures have one text.
-/

namespace ChapelSource

/-! ## Keywords -/

theorem Intent.words_injective : Function.Injective Intent.words := by
  intro i j
  cases i <;> cases j <;> decide

theorem intentWords_injective : Function.Injective intentWords := by
  have hne : ∀ i : Intent, i.words ≠ [] := by
    intro i
    cases i <;> decide
  intro o p h
  cases o with
  | none =>
    cases p with
    | none => rfl
    | some j => exact absurd h.symm (hne j)
  | some i =>
    cases p with
    | none => exact absurd h (hne i)
    | some j => exact congrArg some (Intent.words_injective h)

theorem Pragma.name_injective : Function.Injective Pragma.name := by
  intro p q
  cases p <;> cases q <;> decide

theorem signatureWords_all : ∀ k ∈ signatureWords, k.toList.all isWordChar = true := by decide

/-- The words of an intent are keywords, and none of them starts a pragma. -/
theorem mem_of_mem_intentWords {intent : Option Intent} :
    ∀ w ∈ intentWords intent, w ∈ signatureWords ∧ w ≠ "pragma" := by
  cases intent with
  | none => exact nofun
  | some i => cases i <;> decide

/-- What follows the pragmas of a formal starts with another word than `pragma`. -/
theorem takeWhile_formal_ne (intent : Option Intent) (w : SignatureName) {cs : List Char}
    (hcs : Parted cs) :
    (keywordChars (intentWords intent) ++ (w.chars ++ cs)).takeWhile isWordChar ≠
      "pragma".toList := by
  cases h : intentWords intent with
  | nil =>
    rw [keywordChars, List.flatMap_nil, List.nil_append,
      (takeWhile_of_parted w.isWordChar_of_mem hcs).1]
    exact PlainName.chars_ne List.mem_cons_self
  | cons v vs =>
    obtain ⟨hv, hne⟩ := mem_of_mem_intentWords v (h ▸ List.mem_cons_self)
    have hspace : Parted (' ' :: (keywordChars vs ++ (w.chars ++ cs))) := parted_cons (by decide) _
    have hfront := (takeWhile_of_parted (List.all_eq_true.1 (signatureWords_all v hv)) hspace).1
    have hsplit : keywordChars (v :: vs) ++ (w.chars ++ cs) =
        v.toList ++ ' ' :: (keywordChars vs ++ (w.chars ++ cs)) := by
      simp [keywordChars]
    rw [hsplit, hfront]
    exact fun heq => hne (String.toList_inj.1 heq)

/-! ## Formals -/

theorem Pragma.quote_notMem_name (p : Pragma) : '"' ∉ p.name.toList := by
  cases p <;> decide

theorem append_mark_inj {mark : Char} {xs ys cs ds : List Char} (hxs : mark ∉ xs) (hys : mark ∉ ys)
    (h : xs ++ mark :: cs = ys ++ mark :: ds) : xs = ys ∧ cs = ds := by
  induction xs generalizing ys with
  | nil =>
    cases ys with
    | nil => exact ⟨rfl, (List.cons.inj h).2⟩
    | cons y ys => exact absurd ((List.cons.inj h).1 ▸ List.mem_cons_self) hys
  | cons x xs ih =>
    cases ys with
    | nil => exact absurd ((List.cons.inj h).1 ▸ List.mem_cons_self) hxs
    | cons y ys =>
      obtain ⟨rfl, hrest⟩ := List.cons.inj h
      obtain ⟨rfl, hend⟩ := ih (fun hmem => hxs (List.mem_cons_of_mem _ hmem))
        (fun hmem => hys (List.mem_cons_of_mem _ hmem)) hrest
      exact ⟨rfl, hend⟩

theorem pragma_append_inj {ps qs : List Pragma} {cs ds : List Char}
    (hcs : cs.takeWhile isWordChar ≠ "pragma".toList)
    (hds : ds.takeWhile isWordChar ≠ "pragma".toList)
    (h : pragmaChars ps ++ cs = pragmaChars qs ++ ds) : ps = qs ∧ cs = ds := by
  have hfront : ∀ (p : Pragma) (ps : List Pragma) (es : List Char),
      (pragmaChars (p :: ps) ++ es).takeWhile isWordChar = "pragma".toList := by
    intro p ps es
    have hspace : Parted (' ' :: '"' :: (p.name.toList ++ ("\" ".toList ++ (pragmaChars ps ++ es)))) :=
      parted_cons (by decide) _
    have hword := (takeWhile_of_parted (w := "pragma".toList) (List.all_eq_true.1 (by decide))
      hspace).1
    simpa [pragmaChars] using hword
  induction ps generalizing qs with
  | nil =>
    cases qs with
    | nil => exact ⟨rfl, h⟩
    | cons q qs => exact absurd (hfront q qs ds) (h ▸ hcs)
  | cons p ps ih =>
    cases qs with
    | nil => exact absurd (hfront p ps cs) (h ▸ hds)
    | cons q qs =>
      have hsplit : ∀ (p : Pragma) (ps : List Pragma) (es : List Char),
          pragmaChars (p :: ps) ++ es =
            "pragma \"".toList ++ (p.name.toList ++ '"' :: ' ' :: (pragmaChars ps ++ es)) := by
        intro p ps es
        simp [pragmaChars]
      rw [hsplit, hsplit, List.append_cancel_left_eq] at h
      obtain ⟨hname, hrest⟩ := append_mark_inj p.quote_notMem_name q.quote_notMem_name h
      obtain ⟨rfl, hend⟩ := ih (List.cons.inj hrest).2
      exact ⟨congrArg (· :: ps) (Pragma.name_injective (String.toList_inj.1 hname)), hend⟩

theorem marked_append_inj {mark : Char} {more : List Char} {o p : Option SignatureName}
    {cs ds : List Char} (hcs : Parted cs) (hds : Parted ds) (hmark : cs.head? ≠ some mark)
    (hmark' : ds.head? ≠ some mark)
    (h : markedChars mark more o ++ cs = markedChars mark more p ++ ds) : o = p ∧ cs = ds := by
  cases o with
  | none =>
    cases p with
    | none => exact ⟨rfl, h⟩
    | some v => exact absurd (congrArg List.head? h) hmark
  | some w =>
    cases p with
    | none => exact absurd (congrArg List.head? h.symm) hmark'
    | some v =>
      have hnames : w.chars ++ cs = v.chars ++ ds := by
        simpa [markedChars] using h
      obtain ⟨rfl, hend⟩ := PlainName.append_inj hcs hds hnames
      exact ⟨rfl, hend⟩

/-- A text that does not go on with the type or the initializer of a formal. -/
def EndsFormal (cs : List Char) : Prop :=
  Parted cs ∧ cs.head? ≠ some ':' ∧ cs.head? ≠ some ' '

theorem endsFormal_cons {c : Char} (hword : isWordChar c = false) (hcolon : c ≠ ':')
    (hspace : c ≠ ' ') (cs : List Char) : EndsFormal (c :: cs) :=
  ⟨parted_cons hword cs, fun h => hcolon (Option.some.inj h), fun h => hspace (Option.some.inj h)⟩

theorem parted_marked {mark : Char} (hmark : isWordChar mark = false) (more : List Char)
    (o : Option SignatureName) {cs : List Char} (hcs : Parted cs) :
    Parted (markedChars mark more o ++ cs) := by
  cases o with
  | none => exact hcs
  | some w => exact parted_cons hmark _

theorem head_init_ne (o : Option SignatureName) {cs : List Char} (hcs : EndsFormal cs) :
    (markedChars ' ' ['=', ' '] o ++ cs).head? ≠ some ':' := by
  cases o with
  | none => exact hcs.2.1
  | some w => exact fun h => absurd (Option.some.inj h) (by decide)

/-- **A text that starts with a formal starts with no other.** -/
theorem PlainFormal.append_inj {p q : PlainFormal} {cs ds : List Char} (hcs : EndsFormal cs)
    (hds : EndsFormal ds) (h : p.chars ++ cs = q.chars ++ ds) : p = q ∧ cs = ds := by
  have hinit : ∀ (o : Option SignatureName) {es : List Char}, EndsFormal es →
      Parted (markedChars ' ' ['=', ' '] o ++ es) :=
    fun o _ hes => parted_marked (by decide) _ o hes.1
  have htype : ∀ (o o' : Option SignatureName) {es : List Char}, EndsFormal es →
      Parted (markedChars ':' [' '] o ++ (markedChars ' ' ['=', ' '] o' ++ es)) :=
    fun o o' _ hes => parted_marked (by decide) _ o (hinit o' hes)
  obtain ⟨pragmas, intent, w, typeName, initName⟩ := p
  obtain ⟨pragmas', intent', w', typeName', initName'⟩ := q
  simp only [chars, List.append_assoc] at h
  obtain ⟨rfl, hwords⟩ := pragma_append_inj (takeWhile_formal_ne _ _ (htype _ _ hcs))
    (takeWhile_formal_ne _ _ (htype _ _ hds)) h
  obtain ⟨hintent, rfl, hmarked⟩ := keywordChars_append_inj signatureWords_all
    (fun w hw => (mem_of_mem_intentWords w hw).1) (fun w hw => (mem_of_mem_intentWords w hw).1)
    (htype _ _ hcs) (htype _ _ hds) hwords
  obtain ⟨rfl, hinitial⟩ := marked_append_inj (hinit _ hcs) (hinit _ hds) (head_init_ne _ hcs)
    (head_init_ne _ hds) hmarked
  obtain ⟨rfl, hend⟩ := marked_append_inj hcs.1 hds.1 hcs.2.2 hds.2.2 hinitial
  rw [intentWords_injective hintent]
  exact ⟨rfl, hend⟩

theorem PlainFormal.exists_chars (p : PlainFormal) :
    ∃ c cs, p.chars = c :: cs ∧ isWordChar c = true := by
  obtain ⟨pragmas, intent, w, typeName, initName⟩ := p
  rw [chars]
  cases pragmas with
  | cons q pragmas => exact ⟨'p', _, rfl, by decide⟩
  | nil =>
    cases intent with
    | some i => cases i <;> exact ⟨_, _, rfl, by decide⟩
    | none =>
      obtain ⟨c, cs, hchars, hc⟩ := w.exists_chars
      exact ⟨c, _, by rw [hchars]; rfl, hc⟩

theorem formalsChars_injective : Function.Injective formalsChars := by
  intro o p h
  cases o with
  | none =>
    cases p with
    | none => rfl
    | some qs => exact nomatch h
  | some ps =>
    cases p with
    | none => exact nomatch h
    | some qs =>
      have hends : EndsFormal [')'] := endsFormal_cons (by decide) (by decide) (by decide) _
      have hcloses : Closes [')'] := closes_cons (by decide) (by decide) _
      obtain ⟨rfl, -⟩ := commaChars_append_inj
        (fun cs => endsFormal_cons (by decide) (by decide) (by decide) cs)
        (fun _ _ _ _ => PlainFormal.append_inj) PlainFormal.exists_chars hends hends hcloses hcloses
        (List.cons.inj h).2
      rfl

/-! ## Signatures -/

namespace Signature

/-- What stands before the first name tells the visibility, the kind and the intent of the receiver.
-/
theorem words_inj {v v' : Option Visibility} {k k' : FunctionKind} {ws ws' : List String}
    (h : visibilityWords v ++ k.keyword :: ws = visibilityWords v' ++ k'.keyword :: ws') :
    v = v' ∧ k = k' ∧ ws = ws' := by
  have hkind : ∀ (v : Visibility) (k : FunctionKind), k.keyword ≠ v.keyword := by
    intro v k
    cases v <;> cases k <;> decide
  have hinj : k.keyword = k'.keyword → k = k' := by
    cases k <;> cases k' <;> decide
  cases v with
  | none =>
    cases v' with
    | none => exact ⟨rfl, hinj (List.cons.inj h).1, (List.cons.inj h).2⟩
    | some a => exact absurd (List.cons.inj h).1 (hkind a k)
  | some a =>
    cases v' with
    | none => exact absurd (List.cons.inj h).1.symm (hkind a k')
    | some b =>
      obtain ⟨hv, hrest⟩ := List.cons.inj h
      have hword : a.keyword = b.keyword → a = b := by
        cases a <;> cases b <;> decide
      exact ⟨congrArg some (hword hv), hinj (List.cons.inj hrest).1, (List.cons.inj hrest).2⟩

theorem mem_words (s : Signature) : ∀ w ∈ s.words, w ∈ signatureWords := by
  intro w hw
  rw [words, List.mem_append, List.mem_cons] at hw
  rcases hw with hw | rfl | hw
  · cases hv : s.visibility with
    | none =>
      rw [hv] at hw
      exact absurd hw List.not_mem_nil
    | some v =>
      rw [hv] at hw
      rw [List.mem_singleton.1 hw]
      cases v <;> decide
  · cases s.kind <;> decide
  · cases hr : s.receiver with
    | none =>
      rw [hr] at hw
      exact absurd hw List.not_mem_nil
    | some r =>
      rw [hr] at hw
      exact (mem_of_mem_intentWords w hw).1

theorem parted_formals (o : Option (List PlainFormal)) : Parted (formalsChars o) := by
  cases o with
  | none => exact parted_nil
  | some ps => exact parted_cons (by decide) _

theorem eq_of_chars_eq {s t : Signature} (h : s.chars = t.chars) : s = t := by
  have hmem := s.mem_words
  have hmem' := t.mem_words
  have hdot : ∀ cs : List Char, Parted ('.' :: cs) := parted_cons (by decide)
  have hnoDot : ∀ (o : Option (List PlainFormal)) (cs : List Char), formalsChars o ≠ '.' :: cs := by
    intro o cs heq
    cases o with
    | none => exact nomatch heq
    | some ps => exact absurd (List.cons.inj heq).1 (by decide)
  obtain ⟨v, k, receiver, name, formals⟩ := s
  obtain ⟨v', k', receiver', name', formals'⟩ := t
  cases receiver with
  | none =>
    cases receiver' with
    | none =>
      obtain ⟨hwords, rfl, hformals⟩ := keywordChars_append_inj signatureWords_all hmem hmem'
        (parted_formals formals) (parted_formals formals') h
      obtain ⟨rfl, rfl, -⟩ := words_inj hwords
      rw [formalsChars_injective hformals]
    | some r =>
      obtain ⟨-, -, hrest⟩ := keywordChars_append_inj signatureWords_all hmem hmem'
        (parted_formals formals) (hdot _) h
      exact absurd hrest (hnoDot _ _)
  | some r =>
    cases receiver' with
    | none =>
      obtain ⟨-, -, hrest⟩ := keywordChars_append_inj signatureWords_all hmem hmem' (hdot _)
        (parted_formals formals') h
      exact absurd hrest.symm (hnoDot _ _)
    | some r' =>
      obtain ⟨hwords, htype, hrest⟩ := keywordChars_append_inj signatureWords_all hmem hmem'
        (hdot _) (hdot _) h
      obtain ⟨rfl, rfl, hintent⟩ := words_inj hwords
      obtain ⟨rfl, hformals⟩ := PlainName.append_inj (parted_formals formals)
        (parted_formals formals') (List.cons.inj hrest).2
      rw [formalsChars_injective hformals, Prod.ext (intentWords_injective hintent) htype]

end Signature

namespace FunctionDecl.HasSignature

/-- **Two functions whose signatures tell nothing but names have one signature if the texts of their
signatures are the same.** They have the same visibility, kind, receiver, name and formals, and both
or neither leave the parentheses out. -/
theorem printSignature_eq_iff {f g : FunctionDecl Node} {s t : Signature} (hf : f.HasSignature s)
    (hg : g.HasSignature t) (o o' : PrintOptions) :
    ∃ text, f.printSignature o = .ok text ∧ (g.printSignature o' = .ok text ↔ s = t) := by
  refine ⟨_, hf.printSignature_eq o, ?_⟩
  rw [hg.printSignature_eq]
  constructor
  · intro h
    exact Signature.eq_of_chars_eq (String.ofList_injective (Except.ok.inj h)).symm
  · rintro rfl
    rfl

/-- A method whose receiver is `const`, and one whose receiver is `const in`. -/
theorem printSignature_eq_iff_method :
    let C : SignatureName := ⟨.single 'C' (by decide), by decide⟩
    let m : SignatureName := ⟨.single 'm' (by decide), by decide⟩
    let x : SignatureName := ⟨.single 'x' (by decide), by decide⟩
    let formal : PlainFormal := ⟨[.noDoc, .unsafeCode], some .inArg, x, some C, some m⟩
    let s : Signature := ⟨some .privateAccess, .proc, some (some .const, C), m, some [formal]⟩
    let t : Signature := ⟨some .privateAccess, .proc, some (some .constIn, C), m, none⟩
    let info : NodeInfo := .sourceless ⟨0⟩
    (s.toFunction info).HasSignature s ∧ (t.toFunction info).HasSignature t ∧
      ∃ text, (s.toFunction info).printSignature {} = .ok text ∧
        ((t.toFunction info).printSignature { comments := true } = .ok text ↔ s = t) := by
  intro C m x formal s t info
  have hs := s.hasSignature_toFunction info
  have ht := t.hasSignature_toFunction info
  exact ⟨hs, ht, hs.printSignature_eq_iff ht {} { comments := true }⟩

end FunctionDecl.HasSignature

end ChapelSource
