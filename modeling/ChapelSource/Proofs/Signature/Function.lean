import ChapelSource.Print

/-!
# A function around its signature

The text of a function is that of its signature, with the pragmas and the linkage before it, the way
in which it overrides or is inlined inside it, and all the rest after it. A signature without a text
is that of a function without one.

* `FunctionDecl.kindLayout`: what a function and its signature have in common.
* `FunctionDecl.layout_eq`, `FunctionDecl.signatureLayout_eq`: the two around it.
* `exists_of_print_lead`: only the name of a linkage has a fault before a signature.
* `FunctionDecl.printSignature_eq_ok_iff`, `FunctionDecl.print_eq_ok_iff`: when the two have a text.
* **`FunctionDecl.print_around_signature`**, `FunctionDecl.print_around_signature_override`: the text
  of a function and that of its signature.
-/

namespace ChapelSource

open Layout

variable {o : PrintOptions}

/-! ## Parts -/

theorem exists_print_visibility (o : PrintOptions) (visibility : Option Visibility) :
    ∃ v, (visibilityLayout visibility).print o = .ok v ∧
      (visibility = none → v = "") ∧
      (visibility = some .publicAccess → v = "public ") ∧
      (visibility = some .privateAccess → v = "private ") := by
  have hword (w : Visibility) : (visibilityLayout (some w)).print o = .ok (w.keyword ++ " ") :=
    print_append_eq_ok_iff.2 ⟨_, _, print_text o _, print_text o _, rfl⟩
  cases visibility with
  | none => exact ⟨"", rfl, fun _ => rfl, nofun, nofun⟩
  | some w =>
    cases w with
    | publicAccess => exact ⟨"public ", hword .publicAccess, nofun, fun _ => rfl, nofun⟩
    | privateAccess => exact ⟨"private ", hword .privateAccess, nofun, nofun, fun _ => rfl⟩

theorem exists_print_pragmas (o : PrintOptions) (pragmas : List Pragma) :
    ∃ text, (pragmasLayout pragmas).print o = .ok text := by
  induction pragmas with
  | nil => exact ⟨"", rfl⟩
  | cons p pragmas ih =>
    obtain ⟨text, h⟩ := ih
    exact ⟨_, print_append_eq_ok_iff.2 ⟨_, text, rfl, h, rfl⟩⟩

/-- Only the name of a linkage has a fault before a signature. -/
theorem exists_of_print_lead {pragmas : List Pragma} {linkage : LinkageClause Node} {e : PrintError}
    (h : (leadLayout pragmas linkage).print o = .error e) :
    ∃ l name, linkage = ⟨some l, some name⟩ ∧ name.print o = .error e := by
  obtain ⟨text, hpragmas⟩ := exists_print_pragmas o pragmas
  rw [leadLayout, print_append_eq_error_iff, hpragmas] at h
  obtain ⟨-, -, h⟩ := h.resolve_left (by simp)
  obtain ⟨- | l, - | name⟩ := linkage
  · contradiction
  · contradiction
  · contradiction
  · refine ⟨l, name, rfl, ?_⟩
    have hlinkage : LinkageClause.layout ⟨some l, some name⟩ =
        l.keyword ++ (" " ++ (whole name ++ " ")) := List.append_assoc _ _ _
    rw [hlinkage, print_append_eq_error_iff, print_append_eq_error_iff, print_append_eq_error_iff,
      print_whole] at h
    simpa using h

namespace FunctionDecl

/-- The kind of a function and its head. -/
def kindLayout (comments : Bool) (f : FunctionDecl Node) : Layout :=
  f.kind.keyword ++ " " ++ f.headLayout comments

theorem signatureLayout_eq (comments : Bool) (f : FunctionDecl Node) :
    f.signatureLayout comments = visibilityLayout f.visibility ++ f.kindLayout comments := by
  rw [signatureLayout, kindLayout]
  simp only [List.append_assoc]

theorem layout_eq (comments : Bool) (f : FunctionDecl Node) :
    f.layout comments = leadLayout f.pragmas f.linkage ++ (visibilityLayout f.visibility ++
      (f.flagText ++ (f.kindLayout comments ++ endLayout comments f.returnIntent f.returnType
        f.whereClause f.isThrowing f.body))) := by
  rw [layout, kindLayout]
  simp only [List.append_assoc]

theorem flagText_of_override {f : FunctionDecl Node} (h : f.flags.has .override = true) :
    f.flagText = "override " := if_pos h

theorem flagText_of_inline {f : FunctionDecl Node} (ho : f.flags.has .override = false)
    (hi : f.flags.has .inline = true) : f.flagText = "inline " :=
  (if_neg (ne_true_of_eq_false ho)).trans (if_pos hi)

theorem flagText_of_neither {f : FunctionDecl Node} (ho : f.flags.has .override = false)
    (hi : f.flags.has .inline = false) : f.flagText = "" :=
  (if_neg (ne_true_of_eq_false ho)).trans (if_neg (ne_true_of_eq_false hi))

section

variable {f : FunctionDecl Node} {v : String} (hv : (visibilityLayout f.visibility).print o = .ok v)

include hv

/-- A signature has a text if the kind and the head have one. -/
theorem printSignature_eq_ok_iff {text : String} :
    f.printSignature o = .ok text ↔
      ∃ h, (f.kindLayout o.comments).print o = .ok h ∧ text = v ++ h := by
  show (f.signatureLayout o.comments).print o = _ ↔ _
  rw [signatureLayout_eq, print_append_eq_ok_iff, hv]
  constructor
  · rintro ⟨_, h, ⟨⟩, hkind, rfl⟩
    exact ⟨h, hkind, rfl⟩
  · rintro ⟨h, hkind, rfl⟩
    exact ⟨_, h, rfl, hkind, rfl⟩

theorem printSignature_eq_error_iff {e : PrintError} :
    f.printSignature o = .error e ↔ (f.kindLayout o.comments).print o = .error e := by
  show (f.signatureLayout o.comments).print o = _ ↔ _
  rw [signatureLayout_eq, print_append_eq_error_iff, hv]
  constructor
  · intro h
    obtain ⟨-, -, h⟩ := h.resolve_left nofun
    exact h
  · exact fun h => .inr ⟨_, rfl, h⟩

/-- A function has a text if its signature has one, and what stands before and after it. -/
theorem print_eq_ok_iff (info : NodeInfo) {text : String} :
    (Node.mk info (.function f)).print o = .ok text ↔
      ∃ p h r, (leadLayout f.pragmas f.linkage).print o = .ok p ∧
        f.printSignature o = .ok (v ++ h) ∧
        (endLayout o.comments f.returnIntent f.returnType f.whereClause f.isThrowing f.body).print o =
          .ok r ∧
        text = p ++ v ++ f.flagText ++ h ++ r := by
  have hlayout : (Node.mk info (.function f)).print o = (f.layout o.comments).print o :=
    Node.print_eq_layout o _
  rw [hlayout, layout_eq]
  simp only [print_append_eq_ok_iff, printSignature_eq_ok_iff hv, hv, print_text]
  constructor
  · rintro ⟨p, _, hp, ⟨_, _, ⟨⟩, ⟨_, _, ⟨⟩, ⟨h, r, hh, hr, rfl⟩, rfl⟩, rfl⟩, rfl⟩
    exact ⟨p, h, r, hp, ⟨h, hh, rfl⟩, hr, by simp only [String.append_assoc]⟩
  · rintro ⟨p, h, r, hp, ⟨h', hh, heq⟩, hr, rfl⟩
    obtain rfl : h = h' := by simpa using heq
    exact ⟨p, _, hp, ⟨_, _, rfl, ⟨_, _, rfl, ⟨h, r, hh, hr, rfl⟩, rfl⟩, rfl⟩,
      by simp only [String.append_assoc]⟩

/-- A function whose signature has no text has none for the same cause, unless the name of its
linkage has none. -/
theorem print_eq_error_of_printSignature (info : NodeInfo) {e : PrintError}
    (h : f.printSignature o = .error e) :
    (Node.mk info (.function f)).print o = .error e ∨
      ∃ l name e', f.linkage = ⟨some l, some name⟩ ∧ name.print o = .error e' ∧
        (Node.mk info (.function f)).print o = .error e' := by
  have hlayout : (Node.mk info (.function f)).print o = (f.layout o.comments).print o :=
    Node.print_eq_layout o _
  rw [printSignature_eq_error_iff hv] at h
  rw [hlayout, layout_eq]
  cases hlead : (leadLayout f.pragmas f.linkage).print o with
  | ok p =>
    refine .inl (print_append_eq_error_iff.2 (.inr ⟨p, hlead, ?_⟩))
    simp only [print_append_eq_error_iff, hv, print_text]
    exact .inr ⟨_, rfl, .inr ⟨_, rfl, .inl h⟩⟩
  | error e' =>
    obtain ⟨l, name, hlinkage, hname⟩ := exists_of_print_lead hlead
    exact .inr ⟨l, name, e', hlinkage, hname, print_append_eq_error_iff.2 (.inl hlead)⟩

end

/-- **The text of a function is that of its signature with something before, inside and after it.**
Before it stand the pragmas and the linkage. Inside it, after the visibility, a function that
overrides has the word `override`, and one that is only inlined has the word `inline`. After it stands
all the rest. If the signature has no text, the function has none for the same cause, unless the name
of its linkage has none. What the signature does not tell does not change it. -/
theorem print_around_signature (o : PrintOptions) (info : NodeInfo) (f : FunctionDecl Node) :
    (∃ v m : String,
      (f.visibility = none → v = "") ∧
      (f.visibility = some .publicAccess → v = "public ") ∧
      (f.visibility = some .privateAccess → v = "private ") ∧
      (f.flags.has .override = true → m = "override ") ∧
      (f.flags.has .override = false → f.flags.has .inline = true → m = "inline ") ∧
      (f.flags.has .override = false → f.flags.has .inline = false → m = "") ∧
      ∀ text, (Node.mk info (.function f)).print o = .ok text ↔
        ∃ p h r, (leadLayout f.pragmas f.linkage).print o = .ok p ∧
          f.printSignature o = .ok (v ++ h) ∧
          (endLayout o.comments f.returnIntent f.returnType f.whereClause (f.flags.has .throws)
            f.body).print o = .ok r ∧
          text = p ++ v ++ m ++ h ++ r) ∧
    (∀ e, f.printSignature o = .error e →
      (Node.mk info (.function f)).print o = .error e ∨
      ∃ l name e', f.linkage = ⟨some l, some name⟩ ∧ name.print o = .error e' ∧
        (Node.mk info (.function f)).print o = .error e') ∧
    ∀ pragmas linkage flags returnIntent returnType whereClause body,
      flags.has .parenless = f.flags.has .parenless →
      flags.has .primaryMethod = f.flags.has .primaryMethod →
      printSignature o { f with
        pragmas := pragmas, linkage := linkage, flags := flags, returnIntent := returnIntent,
        returnType := returnType, whereClause := whereClause, body := body } =
        f.printSignature o := by
  obtain ⟨v, hv, hnone, hpublic, hprivate⟩ := exists_print_visibility o f.visibility
  refine ⟨⟨v, f.flagText, hnone, hpublic, hprivate, flagText_of_override, flagText_of_inline,
    flagText_of_neither, fun _ => print_eq_ok_iff hv info⟩,
    fun _ => print_eq_error_of_printSignature hv info, ?_⟩
  intro pragmas linkage flags returnIntent returnType whereClause body hparenless hprimary
  simp only [printSignature, signatureLayout, headLayout, nameText, isPrimaryMethod, isMethod,
    isParenless, hparenless, hprimary]

/-- A function that overrides and is inlined is written as overriding, and its signature tells
neither. -/
theorem print_around_signature_override :
    let f : FunctionDecl Node :=
      ⟨[.noDoc], ⟨some .exported, none⟩, some .privateAccess, .proc,
        .ofList [.override, .inline, .throws], "f", none, [], some .ref, none, none, some []⟩
    f.printSignature {} = .ok "private proc f()" ∧
      (Node.mk (.sourceless ⟨0⟩) (.function f)).print {} =
        .ok "pragma \"no doc\" export private override proc f() ref throws \x7b\x7d" := by
  intro f
  obtain ⟨⟨v, m, -, -, hprivate, hoverride, -, -, htext⟩, -⟩ :=
    print_around_signature {} (.sourceless ⟨0⟩) f
  obtain rfl : v = "private " := hprivate rfl
  obtain rfl : m = "override " := hoverride (by decide)
  have hsignature : f.printSignature {} = .ok "private proc f()" := by cbv
  refine ⟨hsignature, (htext _).2 ⟨"pragma \"no doc\" export ", "proc f()", " ref throws \x7b\x7d", ?_⟩⟩
  exact ⟨by cbv, hsignature, by cbv, rfl⟩

end FunctionDecl

end ChapelSource
