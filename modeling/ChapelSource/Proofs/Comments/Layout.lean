import ChapelSource.Shape
import ChapelSource.Layout.Construct

/-!
# Layouts without their comments

A layout loses its comments when the comments among its children are left out and its other children
lose theirs. If comments stand only in lists, the layout of a part without its comments is the layout
of the part that has lost them.

* `Layout.uncomment`: a layout without its comments.
* `Node.kind_uncomment`, `Node.opCall?_uncomment`: what is seen of a child from outside.
* `Layout.uncomment_append`, `Layout.uncomment_join`, `Layout.uncomment_listing`: the parts of a
  layout.
* `Binding.uncomment_layout`, `VarDecl.uncomment_layout`, `Body.uncomment_layout`: the layouts of the
  parts of constructs.
-/

namespace ChapelSource

open Layout

/-! ## A node from outside -/

namespace Node

@[simp] theorem form_uncomment (n : Node) : n.uncomment.form = n.form.uncomment uncomment := by
  rw [uncomment_eq, form_mk]

@[simp] theorem identifier?_uncomment (n : Node) : n.uncomment.identifier? = n.identifier? := by
  unfold identifier?
  rw [form_uncomment]
  cases n.form <;> rfl

@[simp] theorem typeQuery?_uncomment (n : Node) : n.uncomment.typeQuery? = n.typeQuery? := by
  unfold typeQuery?
  rw [form_uncomment]
  cases n.form <;> rfl

@[simp] theorem bindsLoosely_uncomment (n : Node) :
    n.uncomment.bindsLoosely = n.bindsLoosely := by
  unfold bindsLoosely
  rw [form_uncomment]
  cases n.form <;> rfl

theorem opCall?_uncomment (n : Node) :
    n.uncomment.opCall? = n.opCall?.map fun call => (call.1, uncommentList uncomment call.2) := by
  unfold opCall?
  rw [form_uncomment]
  cases n.form <;> rfl

@[simp] theorem isReserved_uncomment (n : Node) : n.uncomment.isReserved = n.isReserved := by
  rw [isReserved, identifier?_uncomment, isReserved]

@[simp] theorem kind_uncomment (n : Node) : n.uncomment.kind = n.kind := by
  unfold kind
  rw [form_uncomment]
  cases n.form with
  | quotedLiteral kind bytes => cases kind <;> rfl
  | numericLiteral kind text => cases kind <;> rfl
  | reduction kind op iterand => cases kind <;> rfl
  | indexedLoop kind loop => cases kind <;> rfl
  | jump kind target => cases kind <;> rfl
  | moduleAccess kind visibility clauses => cases kind <;> rfl
  | guardedBlock kind condition body => cases kind <;> rfl
  | aggregateDecl kind linkage name members => cases kind <;> rfl
  | _ => rfl

end Node

/-! ## Lists without comments -/

section Lists

variable {l l' : List Node}

@[simp] theorem noComments_nil : NoComments [] := fun _ h => nomatch h

@[simp] theorem noComments_cons {n : Node} :
    NoComments (n :: l) ↔ n.isComment = false ∧ NoComments l := List.forall_mem_cons

@[simp] theorem noComments_append : NoComments (l ++ l') ↔ NoComments l ∧ NoComments l' :=
  List.forall_mem_append

theorem noComments_flatMap {β : Type} {f : β → List Node} {parts : List β} :
    NoComments (parts.flatMap f) ↔ ∀ p ∈ parts, NoComments (f p) :=
  List.forall_mem_flatMap

theorem noComments_map {β : Type} {f : β → Node} {parts : List β} :
    NoComments (parts.map f) ↔ ∀ p ∈ parts, (f p).isComment = false := List.forall_mem_map

theorem noComments_toList {o : Option Node} :
    NoComments o.toList ↔ ∀ n ∈ o, n.isComment = false := by
  cases o <;> simp

theorem noComments_elim {β : Type} {f : β → List Node} {o : Option β} :
    NoComments (o.elim [] f) ↔ ∀ b ∈ o, NoComments (f b) := by
  cases o <;> simp

theorem kept_false_of_noComments (h : NoComments l) : kept false l = l := by
  unfold kept
  refine List.filter_eq_self.2 fun n hn => ?_
  rw [h n hn]
  rfl

theorem noComments_kept (l : List Node) : NoComments (kept false l) := by
  intro n hn
  have := (List.mem_filter.1 hn).2
  simpa using this

theorem uncommentList_of_noComments (h : NoComments l) (g : Node → Node) :
    uncommentList g l = l.map g := by
  rw [uncommentList, kept_false_of_noComments h]

theorem isEmpty_uncommentList (h : kept false l = [] → l = []) (g : Node → Node) :
    (uncommentList g l).isEmpty = l.isEmpty := by
  have hnil : kept false l = [] ↔ l = [] := ⟨h, fun hl => by rw [hl]; rfl⟩
  rw [Bool.eq_iff_iff, List.isEmpty_iff, List.isEmpty_iff, uncommentList, List.map_eq_nil_iff, hnil]

@[simp] theorem uncommentList_eq_nil {g : Node → Node} :
    uncommentList g l = [] ↔ kept false l = [] := List.map_eq_nil_iff

end Lists

/-! ## Layouts -/

/-- A part of a layout without its comments. A comment among components is a fault, which stays. -/
noncomputable def Item.uncomment? : Item → Option Item
  | .child role n =>
    if n.isComment ∧ role ≠ .component then none else some (.child role n.uncomment)
  | .atom a => some (.atom a)
  | .operator symbol => some (.operator symbol)

namespace Layout

/-- A layout without its comments. -/
noncomputable def uncomment (l : Layout) : Layout := l.filterMap Item.uncomment?

section Parts

variable {l m separator : Layout} {n : Node}

@[simp] theorem uncomment_nil : uncomment [] = [] := rfl

@[simp] theorem uncomment_append : uncomment (l ++ m) = l.uncomment ++ m.uncomment :=
  List.filterMap_append

@[simp] theorem uncomment_atom (a : Atom) : uncomment [.atom a] = [.atom a] := rfl

@[simp] theorem uncomment_atom_cons (a : Atom) :
    uncomment (.atom a :: l) = .atom a :: l.uncomment := rfl

@[simp] theorem uncomment_operator (s : String) : uncomment (operator s) = operator s := rfl

@[simp] theorem uncomment_literal (marker body : String) :
    uncomment (literal marker body) = literal marker body := rfl

theorem uncomment_fault (e : PrintError) : uncomment (fault e) = fault e := rfl

@[simp] theorem uncomment_wordOrFault (w : Except PrintError String) :
    uncomment (wordOrFault w) = wordOrFault w := by
  cases w <;> rfl

theorem uncomment_child {role : Role} (h : n.isComment = false) :
    uncomment [.child role n] = [.child role n.uncomment] := by
  simp [uncomment, Item.uncomment?, h]

theorem uncomment_whole (h : n.isComment = false) : (whole n).uncomment = whole n.uncomment :=
  uncomment_child h

theorem uncomment_whole_comment (h : n.isComment) : (whole n).uncomment = [] := by
  simp [uncomment, whole, Item.uncomment?, h]

theorem uncomment_asType (h : n.isComment = false) : (asType n).uncomment = asType n.uncomment :=
  uncomment_child h

theorem uncomment_component : (component n).uncomment = component n.uncomment := by
  simp [uncomment, component, Item.uncomment?]

@[simp] theorem uncomment_ifTrue (b : Bool) : (ifTrue b l).uncomment = ifTrue b l.uncomment := by
  cases b <;> rfl

@[simp] theorem uncomment_parenthesized :
    (parenthesized l).uncomment = parenthesized l.uncomment := by
  simp [parenthesized]

theorem uncomment_grouped (h : n.isComment = false) (parens : Bool) :
    (grouped parens n).uncomment = grouped parens n.uncomment := by
  cases parens <;> simp [grouped, uncomment_whole h]

theorem uncomment_join (parts : List Layout) :
    (join separator parts).uncomment = join separator.uncomment (parts.map uncomment) := by
  induction parts with
  | nil => rfl
  | cons p parts ih =>
    cases parts with
    | nil => rw [List.map_singleton, join_singleton, join_singleton]
    | cons q parts =>
      rw [List.map_cons, List.map_cons, join_cons_cons, join_cons_cons, uncomment_append,
        uncomment_append, ih, List.map_cons]

theorem uncomment_flatMap {β : Type} {f : β → Layout} (parts : List β) :
    uncomment (parts.flatMap f) = parts.flatMap fun p => (f p).uncomment :=
  List.filterMap_flatMap

theorem uncomment_ifSome {β γ : Type} {o : Option β} {f : β → Layout} {c : β → γ}
    {f' : γ → Layout} (h : ∀ b ∈ o, (f b).uncomment = f' (c b)) :
    (ifSome o f).uncomment = ifSome (o.map c) f' := by
  cases o with
  | none => rfl
  | some b => exact h b rfl

theorem uncomment_ifSome_atoms {β : Type} {o : Option β} {f : β → Layout}
    (h : ∀ b, (f b).uncomment = f b) : (ifSome o f).uncomment = ifSome o f := by
  cases o with
  | none => rfl
  | some b => exact h b

theorem uncomment_listing (nodes : List Node) :
    (listing false separator nodes).uncomment =
      listing true separator.uncomment (uncommentList Node.uncomment nodes) := by
  have hparts : ((kept false nodes).map whole).map uncomment =
      ((kept false nodes).map Node.uncomment).map whole := by
    rw [List.map_map, List.map_map]
    exact List.map_congr_left fun n hn => uncomment_whole (noComments_kept nodes n hn)
  rw [listing, listing, kept_true, uncomment_join, hparts, uncommentList]

@[simp] theorem uncomment_commaList (nodes : List Node) :
    (commaList false nodes).uncomment = commaList true (uncommentList Node.uncomment nodes) :=
  uncomment_listing nodes

@[simp] theorem uncomment_lines (nodes : List Node) :
    (lines false nodes).uncomment = lines true (uncommentList Node.uncomment nodes) :=
  uncomment_listing nodes

@[simp] theorem uncomment_braced (nodes : List Node) :
    (braced false nodes).uncomment = braced true (uncommentList Node.uncomment nodes) := by
  simp [braced]

theorem uncomment_components (decls : List Node) :
    (join ", " (decls.map component)).uncomment =
      join ", " ((decls.map Node.uncomment).map component) := by
  rw [uncomment_join, List.map_map, List.map_map]
  congr 1
  exact List.map_congr_left fun _ _ => uncomment_component

/-- Located parts are laid out without their comments if each has lost its own. -/
theorem uncomment_join_located {β : Type} {f g : β → Layout} {c : β → β}
    {parts : List (Located β)} (h : ∀ p ∈ parts, (f p.part).uncomment = g (c p.part)) :
    (join separator (parts.map fun p => f p.part)).uncomment =
      join separator.uncomment ((parts.map (Located.map c)).map fun p => g p.part) := by
  rw [uncomment_join, List.map_map, List.map_map]
  congr 1
  exact List.map_congr_left h

end Parts

end Layout

/-! ## Parts of declarations -/

section Declarations

@[simp] theorem uncomment_pragmas (pragmas : List Pragma) :
    (pragmasLayout pragmas).uncomment = pragmasLayout pragmas := by
  rw [pragmasLayout, uncomment_flatMap]
  simp

@[simp] theorem uncomment_visibility (visibility : Option Visibility) :
    (visibilityLayout visibility).uncomment = visibilityLayout visibility :=
  uncomment_ifSome_atoms fun _ => by simp

@[simp] theorem uncomment_intent (intent : Option Intent) :
    (intentLayout intent).uncomment = intentLayout intent :=
  uncomment_ifSome_atoms fun _ => by simp

@[simp] theorem uncomment_requiredIntent (intent : Option Intent) :
    (requiredIntent intent).uncomment = requiredIntent intent := uncomment_wordOrFault _

theorem uncomment_type {o : Option Node} (h : NoComments o.toList) :
    (typeLayout o).uncomment = typeLayout (o.map Node.uncomment) :=
  uncomment_ifSome fun n hn => by simp [uncomment_asType (noComments_toList.1 h n hn)]

theorem uncomment_init {o : Option Node} (h : NoComments o.toList) :
    (initLayout o).uncomment = initLayout (o.map Node.uncomment) :=
  uncomment_ifSome fun n hn => by simp [uncomment_whole (noComments_toList.1 h n hn)]

theorem LinkageClause.uncomment_layout {c : LinkageClause Node} (h : NoComments c.name.toList) :
    c.layout.uncomment = (c.uncomment Node.uncomment).layout := by
  have hname : (ifSome c.name (whole · ++ " ")).uncomment =
      ifSome (c.name.map Node.uncomment) (whole · ++ " ") :=
    uncomment_ifSome fun n hn => by simp [uncomment_whole (noComments_toList.1 h n hn)]
  obtain ⟨linkage, name⟩ := c
  cases linkage with
  | none => rfl
  | some l => simpa [LinkageClause.layout, LinkageClause.uncomment, ifSome] using hname

theorem Binding.uncomment_layout {b : Binding Node} (h : NoComments b.singles) :
    b.layout.uncomment = (b.uncomment Node.uncomment).layout := by
  obtain ⟨htype, hinit⟩ := noComments_append.1 h
  simp [Binding.layout, Binding.uncomment, uncomment_type htype, uncomment_init hinit]

theorem VarDecl.uncomment_decoration {v : VarDecl Node} (h : NoComments v.singles) :
    v.decorationLayout.uncomment = (v.uncomment Node.uncomment).decorationLayout := by
  have hlink := LinkageClause.uncomment_layout (noComments_append.1 h).1
  obtain ⟨pragmas, linkage, isConfig, kind, binding⟩ := v
  cases isConfig <;>
    simp [VarDecl.decorationLayout, VarDecl.linkageLayout, VarDecl.uncomment, hlink]

theorem VarDecl.uncomment_layout {v : VarDecl Node} (h : NoComments v.singles) :
    v.layout.uncomment = (v.uncomment Node.uncomment).layout := by
  have hbinding := Binding.uncomment_layout (noComments_append.1 h).2
  simp only [VarDecl.layout, uncomment_append, VarDecl.uncomment_decoration h, hbinding,
    uncomment_intent]
  rfl

theorem Formal.uncomment_layout {f : Formal Node} (h : NoComments f.binding.singles) :
    f.layout.uncomment = (f.uncomment Node.uncomment).layout := by
  simp [Formal.layout, Formal.uncomment, Binding.uncomment_layout h]

theorem VarArgFormal.uncomment_layout {f : VarArgFormal Node}
    (h : NoComments (f.binding.singles ++ f.count.toList)) :
    f.layout.uncomment = (f.uncomment Node.uncomment).layout := by
  obtain ⟨hbinding, hcount⟩ := noComments_append.1 h
  have hc : (ifSome f.count whole).uncomment = ifSome (f.count.map Node.uncomment) whole :=
    uncomment_ifSome fun n hn => uncomment_whole (noComments_toList.1 hcount n hn)
  simp [VarArgFormal.layout, VarArgFormal.uncomment, Binding.uncomment_layout hbinding, hc]

theorem TaskVar.uncomment_layout {t : TaskVar Node} (h : NoComments t.binding.singles) :
    t.layout.uncomment = (t.uncomment Node.uncomment).layout := by
  simp [TaskVar.layout, TaskVar.uncomment, Binding.uncomment_layout h]

theorem EnumElement.uncomment_layout {e : EnumElement Node} (h : NoComments e.initExpr.toList) :
    e.layout.uncomment = (e.uncomment Node.uncomment).layout := by
  simp [EnumElement.layout, EnumElement.uncomment, uncomment_init h]

/-- The components of a tuple of names are not left out, so none of them may be a comment. -/
theorem TupleDecl.uncomment_contents {t : TupleDecl Node} (hdecls : NoComments t.decls)
    (h : NoComments (t.typeExpr.toList ++ t.initExpr.toList)) :
    t.contentsLayout.uncomment = (t.uncomment Node.uncomment).contentsLayout := by
  obtain ⟨htype, hinit⟩ := noComments_append.1 h
  simp [TupleDecl.contentsLayout, TupleDecl.uncomment, uncommentList_of_noComments hdecls,
    uncomment_components, uncomment_type htype, uncomment_init hinit]

end Declarations

/-! ## Statement lists -/

theorem Body.uncomment_layout (b : Body Node) (keyword : String) :
    (b.layout false keyword).uncomment = (b.uncomment Node.uncomment).layout true keyword := by
  obtain ⟨style, stmts⟩ := b
  cases style <;> simp [Body.layout, Body.uncomment]

theorem Body.uncomment_plainLayout (b : Body Node) :
    (b.plainLayout false).uncomment = (b.uncomment Node.uncomment).plainLayout true :=
  b.uncomment_layout ""

end ChapelSource
