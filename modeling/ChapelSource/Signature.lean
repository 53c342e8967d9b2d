import Mathlib.Data.List.Forall2
import ChapelSource.Name
import ChapelSource.Print

/-!
# Signatures

A signature that tells nothing but names is known from its text.

* `PlainFormal`, `Signature`: what a signature of names tells.
* `Node.IsPlainFormal`, `Node.AreFormals`, `FunctionDecl.HasSignature`: the formals and the functions
  whose signature that is.
* `Signature.toFunction`: one of these functions.
-/

namespace ChapelSource

open Layout

/-! ## Signatures of names -/

/-- The words that are no names in a signature. -/
def signatureWords : List String :=
  ["pragma", "private", "public", "proc", "iter", "operator", "lambda", "const", "var", "ref", "in",
    "out", "inout", "param", "type"]

/-- A name in a signature. -/
abbrev SignatureName := PlainName signatureWords

/-- A formal whose type and initializer are names, if it has them. -/
structure PlainFormal where
  pragmas : List Pragma
  intent : Option Intent
  name : SignatureName
  typeName : Option SignatureName
  initName : Option SignatureName
  deriving DecidableEq

/-- What a signature of names tells. -/
structure Signature where
  visibility : Option Visibility
  kind : FunctionKind
  /-- The intent and the type of the receiver, if there is one. -/
  receiver : Option (Option Intent × SignatureName)
  name : SignatureName
  /-- Absent if the parentheses are left out. -/
  formals : Option (List PlainFormal)
  deriving DecidableEq

/-- A node is a formal of names, whatever its ids and spans are. -/
inductive Node.IsPlainFormal : Node → PlainFormal → Prop where
  | mk (info : NodeInfo) (p : PlainFormal) {typeExpr initExpr : Option Node} :
      Option.Rel IsNamed typeExpr p.typeName → Option.Rel IsNamed initExpr p.initName →
      IsPlainFormal (.mk info (.formal ⟨p.pragmas, p.intent, ⟨p.name.text, typeExpr, initExpr⟩⟩)) p

/-- Nodes are the formals of a signature. Only a function that has none may leave the parentheses
out. -/
inductive Node.AreFormals (isParenless : Bool) : List Node → Option (List PlainFormal) → Prop where
  | leftOut : isParenless = true → AreFormals isParenless [] none
  | listed {ns : List Node} {ps : List PlainFormal} : (ns = [] → isParenless = false) →
      List.Forall₂ IsPlainFormal ns ps → AreFormals isParenless ns (some ps)

/-- A receiver has an intent and a type that is a name. What else it has is not written. -/
inductive Formal.IsReceiver (intent : Option Intent) (w : SignatureName) : Formal Node → Prop where
  | mk (pragmas : List Pragma) (name : String) (initExpr : Option Node) {typeExpr : Node} :
      typeExpr.IsNamed w → IsReceiver intent w ⟨pragmas, intent, ⟨name, some typeExpr, initExpr⟩⟩

/-- A function has a signature of names. Its receiver, if it has one, stands before its name. -/
structure FunctionDecl.HasSignature (f : FunctionDecl Node) (s : Signature) : Prop where
  visibility_eq : f.visibility = s.visibility
  kind_eq : f.kind = s.kind
  isPrimaryMethod_eq : f.isPrimaryMethod = false
  isReceiver : Option.Rel (fun r s => r.part.IsReceiver s.1 s.2) f.receiver s.receiver
  name_eq : f.name = s.name.text
  areFormals : Node.AreFormals f.isParenless f.formals s.formals

/-! ## A function for a signature -/

section

variable (info : NodeInfo)

/-- A node that is a formal of names. -/
def PlainFormal.toNode (p : PlainFormal) : Node :=
  .mk info (.formal ⟨p.pragmas, p.intent,
    ⟨p.name.text, p.typeName.map (PlainName.toNode info), p.initName.map (PlainName.toNode info)⟩⟩)

/-- A function with a given signature and nothing else. -/
def Signature.toFunction (s : Signature) : FunctionDecl Node where
  pragmas := []
  linkage := ⟨none, none⟩
  visibility := s.visibility
  kind := s.kind
  flags := if s.formals.isNone then .singleton .parenless else .none
  name := s.name.text
  receiver := s.receiver.map fun r => ⟨info, [], r.1, ⟨"this", some (r.2.toNode info), none⟩⟩
  formals := (s.formals.getD []).map (PlainFormal.toNode info)
  returnIntent := none
  returnType := none
  whereClause := none
  body := none

theorem PlainFormal.isPlainFormal_toNode (p : PlainFormal) : (p.toNode info).IsPlainFormal p :=
  .mk info p (PlainName.rel_toNode info p.typeName) (PlainName.rel_toNode info p.initName)

/-- Every signature of names is that of a function. -/
theorem Signature.hasSignature_toFunction (s : Signature) : (s.toFunction info).HasSignature s := by
  have hflags : ∀ b : Bool,
      (if b then FunctionFlags.singleton .parenless else .none).has .primaryMethod = false ∧
      (if b then FunctionFlags.singleton .parenless else .none).has .parenless = b := by
    decide
  obtain ⟨hprimary, hparenless⟩ := hflags s.formals.isNone
  refine ⟨rfl, rfl, ?_, ?_, rfl, ?_⟩
  · rw [FunctionDecl.isPrimaryMethod, toFunction, hprimary, Bool.and_false]
  · rw [toFunction]
    cases s.receiver with
    | none => exact .none
    | some r => exact .some (.mk [] "this" none (r.2.isNamed_toNode info))
  · rw [FunctionDecl.isParenless, toFunction, hparenless]
    cases s.formals with
    | none => exact .leftOut rfl
    | some ps =>
      refine .listed (fun _ => rfl) ?_
      rw [Option.getD_some, List.forall₂_map_left_iff]
      exact List.forall₂_same.2 fun p _ => p.isPlainFormal_toNode info

end

end ChapelSource
