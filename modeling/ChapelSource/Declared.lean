import ChapelSource.Print

/-!
# What declarations declare

A declaration of variables has modifiers, and it declares names with their types and initializers, or
tuples of names. In a declaration of several names only the modifiers of the first component count.

* `Modifiers`, `Node.modifiers?`: what stands before the names of a variable or of a tuple of names.
* `Node.stripped`: a declaration without its modifiers.
* `NameTree`, `Node.Declares`, `Node.AllDeclare`: what is declared, whatever the modifiers are, also
  inside tuples.
-/

namespace ChapelSource

/-- What stands before the names of a declaration of variables. -/
structure Modifiers where
  pragmas : List Pragma
  linkage : LinkageClause Node
  isConfig : Bool
  kind : Option Intent

/-- The modifiers of a declaration that has none. -/
def Modifiers.empty : Modifiers := ⟨[], ⟨none, none⟩, false, none⟩

namespace Node

/-- The modifiers of a variable or of a tuple of names, which has but a kind. -/
def modifiers? (n : Node) : Option Modifiers :=
  match n.form with
  | .varDecl v => some ⟨v.pragmas, v.linkage, v.isConfig, v.kind⟩
  | .tupleDecl t => some { Modifiers.empty with kind := t.intent }
  | _ => none

/-- A variable or a tuple of names without its modifiers. -/
def stripped : Node → Node
  | .mk info (.varDecl v) => .mk info (.varDecl ⟨[], ⟨none, none⟩, false, none, v.binding⟩)
  | .mk info (.tupleDecl t) => .mk info (.tupleDecl { t with intent := none })
  | n => n

theorem modifiers?_stripped {n : Node} (h : n.modifiers?.isSome) :
    n.stripped.modifiers? = some .empty := by
  obtain ⟨info, form⟩ := n
  cases form with
  | varDecl v => rfl
  | tupleDecl t => rfl
  | _ => exact nomatch h

end Node

/-! ## Names -/

/-- What a declaration of variables declares. -/
inductive NameTree where
  | name (binding : Binding Node)
  | tuple (parts : List NameTree) (typeExpr initExpr : Option Node)

mutual

/-- A node declares some names, whatever its modifiers are, and those of the parts of a tuple. -/
inductive Node.Declares : Node → NameTree → Prop where
  | name (info : NodeInfo) (pragmas : List Pragma) (linkage : LinkageClause Node) (isConfig : Bool)
      (kind : Option Intent) (binding : Binding Node) :
      Declares (.mk info (.varDecl ⟨pragmas, linkage, isConfig, kind, binding⟩)) (.name binding)
  | tuple (info : NodeInfo) (intent : Option Intent) {decls : List Node} {parts : List NameTree}
      (typeExpr initExpr : Option Node) : AllDeclare decls parts →
      Declares (.mk info (.tupleDecl ⟨intent, decls, typeExpr, initExpr⟩))
        (.tuple parts typeExpr initExpr)

/-- Nodes declare some names, one after the other. -/
inductive Node.AllDeclare : List Node → List NameTree → Prop where
  | nil : AllDeclare [] []
  | cons {n : Node} {t : NameTree} {ns : List Node} {ts : List NameTree} :
      Declares n t → AllDeclare ns ts → AllDeclare (n :: ns) (t :: ts)

end

end ChapelSource
