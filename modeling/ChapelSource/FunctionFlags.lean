/-!
# Flags of functions

A function declaration carries a set of flags, held as a word of five bits.

* `FunctionFlag`: the flags, in the order of their bits.
* `FunctionFlags`: the sets, with `contains`, `intersects`, `union` and `difference`.
* `FunctionFlags.ofNat?`, `FunctionFlags.truncate`: reading a set from a number, with unknown bits
  refused or dropped.
-/

namespace ChapelSource

/-- A yes-or-no property of a function declaration. -/
inductive FunctionFlag where
  /-- Declared to override an inherited method. -/
  | override
  /-- Declared inline. -/
  | inline
  /-- Declared to throw errors. -/
  | throws
  /-- Declared without a list of formals. -/
  | parenless
  /-- Declared inside the body of its receiver's type. -/
  | primaryMethod
  deriving DecidableEq

namespace FunctionFlag

/-- The flags in the order of their bits. -/
def all : List FunctionFlag := [.override, .inline, .throws, .parenless, .primaryMethod]

/-- The bit of a flag, as its place from the low end. -/
def place : FunctionFlag → Nat
  | .override => 0
  | .inline => 1
  | .throws => 2
  | .parenless => 3
  | .primaryMethod => 4

end FunctionFlag

/-- A set of function flags, one bit for each. -/
structure FunctionFlags where
  /-- The word of the set. -/
  bits : BitVec 5
  deriving DecidableEq

namespace FunctionFlags

/-- The set without flags. -/
def none : FunctionFlags := ⟨0⟩

/-- The set of the flags whose bits a number has; its other bits are dropped. -/
def truncate (n : Nat) : FunctionFlags := ⟨BitVec.ofNat 5 n⟩

/-- The set that a number stands for, if it has no unknown bit. -/
def ofNat? (n : Nat) : Option FunctionFlags := if n < 32 then some (truncate n) else Option.none

/-- The number that stands for a set. -/
def toNat (f : FunctionFlags) : Nat := f.bits.toNat

/-- The set of one flag. -/
def singleton (flag : FunctionFlag) : FunctionFlags := ⟨1#5 <<< flag.place⟩

/-- The flags that are in one of two sets. -/
def union (f g : FunctionFlags) : FunctionFlags := ⟨f.bits ||| g.bits⟩

/-- The flags of the first set that are not in the second. -/
def difference (f g : FunctionFlags) : FunctionFlags := ⟨f.bits &&& ~~~g.bits⟩

/-- The set of the flags in a list. -/
def ofList (flags : List FunctionFlag) : FunctionFlags :=
  flags.foldl (fun f flag => f.union (singleton flag)) none

/-- A set is empty when it has no bit. -/
def isEmpty (f : FunctionFlags) : Bool := f.bits == 0

/-- A set contains another when it has all its bits. -/
def contains (f g : FunctionFlags) : Bool := f.bits &&& g.bits == g.bits

/-- Two sets intersect when they share a bit. -/
def intersects (f g : FunctionFlags) : Bool := f.bits &&& g.bits != 0

/-- A set has a flag when it has its bit. -/
def has (f : FunctionFlags) (flag : FunctionFlag) : Bool := f.contains (singleton flag)

/-- The flags of a set in the order of their bits. -/
def toList (f : FunctionFlags) : List FunctionFlag := FunctionFlag.all.filter f.has

end FunctionFlags

end ChapelSource
