import Mathlib.Data.List.Forall2
import ChapelSource.Name

/-!
# Names from other modules

A `use` or an `import` has clauses, and a clause may list names. The same commas stand between the
clauses and between the listed names. So the clauses without a limitation that follow a list of names
are written like more names of the list.

* `Listing`, `ClauseLimit`, `AccessClause`, `AccessStatement`: statements of names.
* `VisibilityClause.IsClause`, `Node.IsModuleAccess`: the clauses and the nodes that are given ones.
* `AccessStatement.toNode`: one of these nodes.
* `AccessClause.absorb`, `AccessStatement.settle`: a statement whose lists go as far as they can.
* `AccessClause.EndsBefore`, `AccessStatement.IsSettled`: the statements without a list that could go
  further.
-/

namespace ChapelSource

/-- The words that are no names in the clauses of a statement. -/
def clauseWords : List String := ["only", "except", "use", "import", "private", "public"]

/-- A name in a clause. -/
abbrev ClauseName := PlainName clauseWords

/-- What a list of names without braces says of them. -/
inductive Listing where
  | only | except
  deriving DecidableEq

namespace Listing

/-- The word of a listing. -/
def text : Listing → String
  | only => "only"
  | except => "except"

/-- The limitation that a listing is. -/
def kind : Listing → LimitationKind
  | only => .onlyListed
  | except => .exceptListed

end Listing

/-- How a clause limits the names that it brings in. -/
inductive ClauseLimit where
  | free
  | listed (word : Listing) (first : ClauseName) (rest : List ClauseName)
  | braced (names : List ClauseName)
  deriving DecidableEq

/-- A clause of names. -/
structure AccessClause where
  symbol : ClauseName
  limit : ClauseLimit
  deriving DecidableEq

namespace AccessClause

/-- A clause has no limitation. -/
def isFree (c : AccessClause) : Bool :=
  match c.limit with
  | .free => true
  | _ => false

/-- A clause has a list of names without braces. -/
def isListed (c : AccessClause) : Bool :=
  match c.limit with
  | .listed _ _ _ => true
  | _ => false

end AccessClause

/-- A statement whose clauses are of names. -/
@[ext]
structure AccessStatement where
  kind : AccessKind
  visibility : Option Visibility
  clauses : List AccessClause
  deriving DecidableEq

/-! ## Clauses as nodes -/

/-- A clause is of given names, whatever their ids and spans are. -/
inductive VisibilityClause.IsClause : VisibilityClause Node → AccessClause → Prop where
  | free {symbol : Node} {w : ClauseName} : symbol.IsNamed w → IsClause ⟨symbol, .bare, []⟩ ⟨w, .free⟩
  | listed {symbol first : Node} {rest : List Node} {w f : ClauseName} {ws : List ClauseName}
      (word : Listing) : symbol.IsNamed w → first.IsNamed f → List.Forall₂ Node.IsNamed rest ws →
      IsClause ⟨symbol, word.kind, first :: rest⟩ ⟨w, .listed word f ws⟩
  | braced {symbol : Node} {names : List Node} {w : ClauseName} {ws : List ClauseName} :
      symbol.IsNamed w → List.Forall₂ Node.IsNamed names ws →
      IsClause ⟨symbol, .braces, names⟩ ⟨w, .braced ws⟩

/-- A node is a statement of given clauses. -/
inductive Node.IsModuleAccess : Node → AccessStatement → Prop where
  | mk (info : NodeInfo) (kind : AccessKind) (visibility : Option Visibility)
      {cs : List (Located (VisibilityClause Node))} {clauses : List AccessClause} :
      List.Forall₂ (fun c a => c.part.IsClause a) cs clauses →
      IsModuleAccess (.mk info (.moduleAccess kind visibility cs)) ⟨kind, visibility, clauses⟩

section

variable (info : NodeInfo)

/-- A clause of given names, with the given id and span throughout. -/
def AccessClause.toClause (c : AccessClause) : VisibilityClause Node :=
  match c.limit with
  | .free => ⟨c.symbol.toNode info, .bare, []⟩
  | .listed word first rest =>
    ⟨c.symbol.toNode info, word.kind, (first :: rest).map (PlainName.toNode info)⟩
  | .braced names => ⟨c.symbol.toNode info, .braces, names.map (PlainName.toNode info)⟩

/-- A node that is a given statement. -/
def AccessStatement.toNode (s : AccessStatement) : Node :=
  .mk info (.moduleAccess s.kind s.visibility (s.clauses.map fun c => ⟨info, c.toClause info⟩))

theorem areNamed_toNode (ws : List ClauseName) :
    List.Forall₂ Node.IsNamed (ws.map (PlainName.toNode info)) ws := by
  rw [List.forall₂_map_left_iff]
  exact List.forall₂_same.2 fun w _ => w.isNamed_toNode info

theorem AccessClause.isClause_toClause (c : AccessClause) : (c.toClause info).IsClause c := by
  obtain ⟨w, limit⟩ := c
  cases limit with
  | free => exact .free (w.isNamed_toNode info)
  | listed word first rest =>
    exact .listed word (w.isNamed_toNode info) (first.isNamed_toNode info) (areNamed_toNode info rest)
  | braced names => exact .braced (w.isNamed_toNode info) (areNamed_toNode info names)

theorem AccessStatement.isModuleAccess_toNode (s : AccessStatement) :
    (s.toNode info).IsModuleAccess s := by
  refine .mk info s.kind s.visibility ?_
  rw [List.forall₂_map_left_iff]
  exact List.forall₂_same.2 fun c _ => c.isClause_toClause info

end

/-! ## Lists that go as far as they can -/

/-- A clause before others. If it lists names, the clauses right after it that have no limitation are
read as more names of the list. -/
def AccessClause.absorb (c : AccessClause) (cs : List AccessClause) : List AccessClause :=
  match c.limit with
  | .listed word first rest =>
    ⟨c.symbol, .listed word first (rest ++ (cs.takeWhile isFree).map symbol)⟩ :: cs.dropWhile isFree
  | _ => c :: cs

/-- A clause is over before another one, which is not read as a name of its list. -/
def AccessClause.EndsBefore (c d : AccessClause) : Prop :=
  c.isListed = true → d.isFree = false

instance (c d : AccessClause) : Decidable (c.EndsBefore d) := inferInstanceAs (Decidable (_ → _))

namespace AccessStatement

/-- A statement as it is read from its text. -/
def settle (s : AccessStatement) : AccessStatement :=
  { s with clauses := s.clauses.foldr AccessClause.absorb [] }

/-- No clause without a limitation follows a list of names. -/
def IsSettled (s : AccessStatement) : Prop := s.clauses.IsChain AccessClause.EndsBefore

instance (s : AccessStatement) : Decidable s.IsSettled :=
  inferInstanceAs (Decidable (s.clauses.IsChain AccessClause.EndsBefore))

end AccessStatement

end ChapelSource
