import ChapelSource.Proofs.NameList
import ChapelSource.Signature

/-!
# The text of a signature

A signature of names is its keywords, then the type of the receiver, if there is one, the name and
the formals.

* `pragmaChars`, `intentWords`, `PlainFormal.chars`, `formalsChars`: the parts of a signature in
  writing.
* `Signature.words`, `Signature.chars`: the keywords of a signature, and all of it.
* `Node.IsPlainFormal.writes`, `Node.AreFormals.writes`: the text of the formals.
* **`FunctionDecl.HasSignature.printSignature_eq`**: the text of a signature of names.
-/

namespace ChapelSource

open Layout

/-! ## Signatures in writing -/

/-- Pragmas in writing. -/
def pragmaChars (pragmas : List Pragma) : List Char :=
  pragmas.flatMap fun p => "pragma \"".toList ++ (p.name.toList ++ "\" ".toList)

/-- The words of an intent. -/
def Intent.words : Intent → List String
  | .const => ["const"]
  | .var => ["var"]
  | .constVar => ["const", "var"]
  | .constRef => ["const", "ref"]
  | .ref => ["ref"]
  | .inArg => ["in"]
  | .constIn => ["const", "in"]
  | .outArg => ["out"]
  | .inoutArg => ["inout"]
  | .param => ["param"]
  | .type => ["type"]

/-- The words of an intent, if it was written. -/
def intentWords (intent : Option Intent) : List String := intent.elim [] Intent.words

/-- A name after a mark, if there is one. -/
def markedChars (mark : Char) (more : List Char) (name : Option SignatureName) : List Char :=
  name.elim [] (mark :: more ++ ·.chars)

/-- A formal in writing. -/
def PlainFormal.chars (p : PlainFormal) : List Char :=
  pragmaChars p.pragmas ++ (keywordChars (intentWords p.intent) ++ (p.name.chars ++
    (markedChars ':' [' '] p.typeName ++ markedChars ' ' ['=', ' '] p.initName)))

/-- The formals in writing, with their parentheses. -/
def formalsChars : Option (List PlainFormal) → List Char
  | none => []
  | some ps => '(' :: (commaChars (ps.map PlainFormal.chars) ++ [')'])

namespace Signature

/-- The keywords of a signature. An intent of the receiver stands last. -/
def words (s : Signature) : List String :=
  visibilityWords s.visibility ++ s.kind.keyword :: s.receiver.elim [] (intentWords ·.1)

/-- The name and the formals of a signature, after the type of the receiver. -/
def headChars (s : Signature) : List Char :=
  let named := s.name.chars ++ formalsChars s.formals
  s.receiver.elim named fun r => r.2.chars ++ '.' :: named

/-- A signature in writing. -/
def chars (s : Signature) : List Char := keywordChars s.words ++ s.headChars

end Signature

/-! ## Writing -/

section

variable {newLine : String} {comments inType : Bool}

theorem writes_pragmas (pragmas : List Pragma) :
    (pragmasLayout pragmas).Writes newLine comments inType (pragmaChars pragmas) := by
  induction pragmas with
  | nil => exact writes_nil
  | cons p pragmas ih =>
    have hp : Layout.Writes newLine comments inType ("pragma " ++ literal "" p.name ++ " ")
        ("pragma ".toList ++ ('"' :: (p.name.toList ++ ['"'])) ++ " ".toList) :=
      ((writes_text "pragma ").append (writes_literal "" p.name)).append (writes_text " ")
    have hchars : pragmaChars (p :: pragmas) =
        "pragma ".toList ++ ('"' :: (p.name.toList ++ ['"'])) ++ " ".toList ++
          pragmaChars pragmas := by
      simp [pragmaChars]
    rw [hchars]
    exact hp.append ih

theorem writes_intent (intent : Option Intent) :
    (intentLayout intent).Writes newLine comments inType (keywordChars (intentWords intent)) := by
  cases intent with
  | none => exact writes_nil
  | some i =>
    have hchars : keywordChars (intentWords (some i)) = i.keyword.toList ++ " ".toList := by
      cases i <;> rfl
    rw [hchars]
    exact (writes_text i.keyword).append (writes_text " ")

theorem writes_type {typeExpr : Option Node} {o : Option SignatureName}
    (h : Option.Rel Node.IsNamed typeExpr o) :
    (typeLayout typeExpr).Writes newLine comments inType (markedChars ':' [' '] o) := by
  cases h with
  | none => exact writes_nil
  | some h => exact (writes_text ": ").append (writes_asType (h.writes (by decide)))

theorem writes_init {initExpr : Option Node} {o : Option SignatureName}
    (h : Option.Rel Node.IsNamed initExpr o) :
    (initLayout initExpr).Writes newLine comments inType (markedChars ' ' ['=', ' '] o) := by
  cases h with
  | none => exact writes_nil
  | some h => exact (writes_text " = ").append (writes_whole (h.writes (by decide)))

namespace Node

theorem IsPlainFormal.writes {n : Node} {p : PlainFormal} (h : n.IsPlainFormal p) :
    n.Writes newLine comments inType .whole p.chars := by
  cases h with
  | mk info p ht hi =>
    rw [writes_iff, PlainFormal.chars]
    show Layout.Writes _ _ _ (pragmasLayout p.pragmas ++ intentLayout p.intent ++
      (p.name.text ++ typeLayout _ ++ initLayout _)) _
    rw [List.append_assoc, List.append_assoc]
    exact (writes_pragmas p.pragmas).append ((writes_intent p.intent).append
      ((writes_ofList p.name.chars).append ((writes_type ht).append (writes_init hi))))

theorem IsPlainFormal.isComment_eq {n : Node} {p : PlainFormal} (h : n.IsPlainFormal p) :
    n.isComment = false := by
  cases h
  rfl

/-- The formals of a function are written with their parentheses, if these are not left out. -/
theorem AreFormals.writes {isParenless : Bool} {ns : List Node} {o : Option (List PlainFormal)}
    (h : AreFormals isParenless ns o) :
    (ifTrue (!(ns.isEmpty && isParenless)) (parenthesized (commaList comments ns))).Writes newLine
      comments inType (formalsChars o) := by
  cases h with
  | leftOut hparenless =>
    rw [hparenless]
    exact writes_nil
  | @listed _ ps hparens hns =>
    have hwritten : (!(ns.isEmpty && isParenless)) = true := by
      cases hns with
      | nil =>
        rw [hparens rfl]
        rfl
      | cons _ _ => rfl
    rw [hwritten]
    exact (writes_commaList (fun _ _ hn => hn.isComment_eq) (fun _ _ hn => hn.writes)
      hns).parenthesized

end Node

theorem writes_receiver {receiver : Option (Located (Formal Node))}
    {r : Option (Option Intent × SignatureName)}
    (h : Option.Rel (fun l r => l.part.IsReceiver r.1 r.2) receiver r) {l : Layout} {cs : List Char}
    (hl : l.Writes newLine comments inType cs) :
    Layout.Writes newLine comments inType
      (ifSome receiver (fun r => receiverLayout false r.part) ++ l)
      (keywordChars (r.elim [] (intentWords ·.1)) ++ r.elim cs (·.2.chars ++ '.' :: cs)) := by
  cases h with
  | none => exact hl
  | @some a r h =>
    obtain ⟨info, receiver⟩ := a
    obtain ⟨intent, w⟩ := r
    cases h with
    | @mk pragmas name initExpr typeExpr h =>
      have htype : receiverTypeLayout (some typeExpr) = whole typeExpr ++ "." := by
        cases h
        rfl
      show Layout.Writes _ _ _ (intentLayout intent ++ receiverTypeLayout (some typeExpr) ++ l) _
      rw [htype, List.append_assoc, List.append_assoc]
      exact (writes_intent intent).append ((writes_whole (h.writes (by decide))).append
        ((writes_text ".").append hl))

namespace FunctionDecl.HasSignature

variable {f : FunctionDecl Node} {s : Signature}

/-- No plain name is the assignment operator. -/
theorem nameText_eq (h : f.HasSignature s) : f.nameText = s.name.text := by
  have hne : s.name.text ≠ "=" := by
    intro heq
    have hmem : '=' ∈ s.name.chars := by
      rw [String.ofList_injective (heq : String.ofList s.name.chars = String.ofList ['='])]
      exact List.mem_singleton_self '='
    exact absurd (s.name.isWordChar_of_mem '=' hmem) (by decide)
  rw [nameText, if_neg (fun h' => hne (h.name_eq ▸ h'.2)), h.name_eq]

theorem writes_head (h : f.HasSignature s) :
    (f.headLayout comments).Writes newLine comments inType
      (keywordChars (s.receiver.elim [] (intentWords ·.1)) ++ s.headChars) := by
  rw [headLayout, h.nameText_eq, h.isPrimaryMethod_eq, Signature.headChars, List.append_assoc]
  exact writes_receiver h.isReceiver ((writes_ofList s.name.chars).append h.areFormals.writes)

theorem writes (h : f.HasSignature s) :
    (f.signatureLayout comments).Writes newLine comments inType s.chars := by
  have hchars : s.chars = keywordChars (visibilityWords s.visibility) ++
      (s.kind.keyword.toList ++ (" ".toList ++
        (keywordChars (s.receiver.elim [] (intentWords ·.1)) ++ s.headChars))) := by
    simp [Signature.chars, Signature.words, keywordChars]
  rw [signatureLayout, h.visibility_eq, h.kind_eq, hchars, List.append_assoc, List.append_assoc]
  exact (writes_visibility s.visibility).append ((writes_text s.kind.keyword).append
    ((writes_text " ").append h.writes_head))

/-- **The text of a signature of names.** No option has a part in it. -/
theorem printSignature_eq (h : f.HasSignature s) (o : PrintOptions) :
    f.printSignature o = .ok (String.ofList s.chars) :=
  h.writes

end FunctionDecl.HasSignature

end

end ChapelSource
