import ChapelSource.Grouping.Token
import ChapelSource.Literal.Decode
import ChapelSource.Term.Tree

/-!
# Reading terms

A reader by recursive descent. A term is a word, a literal, or a list in parentheses or brackets,
and then any number of members and of lists that it is called with. A list in parentheses has a
comma at its end when it has one element, and only then.

* `Parsed`: what is read off the front of a text.
* `readWord`, `readLiteral`: the parts that hold no terms.
* `readTerm`, `readPrimary`, `readSuffixes`: a term, what it starts with, and what follows that.
* `readItem`, `readLabel`: an item of a list, and the name that may stand before it.
* `readItems`, `readMoreItems`, `readItemEnd`: the items of a list up to its closing mark, and what
  stands after each.
* `termOfChars?`, `termOfText?`: the term that a whole text stands for.
-/

namespace ChapelSource

/-- Something read off the front of fewer than `bound` characters, and the characters after it. -/
structure Parsed (α : Type) (bound : Nat) where
  value : α
  rest : List Char
  /-- Reading consumes characters. -/
  rest_lt : rest.length < bound

/-- What is read off fewer characters. -/
def Parsed.weaken {α : Type} {m n : Nat} (h : m ≤ n) (p : Parsed α m) : Parsed α n :=
  ⟨p.value, p.rest, Nat.lt_of_lt_of_le p.rest_lt h⟩

/-- What is made of the thing that is read. -/
def Parsed.map {α β : Type} {n : Nat} (f : α → β) (p : Parsed α n) : Parsed β n :=
  ⟨f p.value, p.rest, p.rest_lt⟩

/-! ## Words and literals -/

/-- A word, as long as it can be. -/
def readWord : (cs : List Char) → Option (Parsed Word cs.length)
  | [] => none
  | c :: cs =>
    if h : isWordChar c = true then
      some ⟨Word.run c cs h, cs.dropWhile isWordChar,
        Nat.lt_succ_of_le (List.dropWhile_sublist _).length_le⟩
    else none

/-- The bytes of a literal whose opening quote stands before the text. -/
def readLiteral (cs : List Char) : Option (Parsed (List UInt8) cs.length) :=
  match h : Literal.untilQuote cs with
  | some (body, rest) =>
    (Literal.unescape (String.ofList body)).map fun bytes =>
      ⟨bytes, rest, Literal.length_lt_of_untilQuote h⟩
  | none => none

/-! ## Terms -/

/-- The list that a character opens. -/
def opened? (c : Char) : Option Bool :=
  if c = openingMark false then some false
  else if c = openingMark true then some true
  else none

/-- The items of a list, and whether a comma stands after the last one. -/
structure ItemList where
  items : List TermItem
  comma : Bool

/-- What stands after an item: a comma before another one, or the closing mark of the list with or
without a comma. -/
inductive ItemEnd where
  | another
  | closed (comma : Bool)

/-- What stands after an item at the front of a text. -/
def readItemEnd (inBrackets : Bool) : (cs : List Char) → Option (Parsed ItemEnd cs.length)
  | ',' :: ' ' :: cs => some ⟨.another, cs, Nat.lt_succ_of_lt (Nat.lt_succ_self _)⟩
  | ',' :: c :: cs =>
    if c = closingMark inBrackets then
      some ⟨.closed true, cs, Nat.lt_succ_of_lt (Nat.lt_succ_self _)⟩
    else none
  | c :: cs =>
    if c = closingMark inBrackets then some ⟨.closed false, cs, Nat.lt_succ_self _⟩ else none
  | [] => none

/-- The name of a formal, when a name was read and an equality sign follows it. -/
def readLabel (t : TermTree) : (cs : List Char) → Option (Parsed Word cs.length)
  | ' ' :: '=' :: ' ' :: cs =>
    match t with
    | .name w => some ⟨w, cs, Nat.lt_succ_of_lt (Nat.lt_succ_of_lt (Nat.lt_succ_self _))⟩
    | _ => none
  | _ => none

/-- The tuple or the array of some items. A tuple has a comma at its end when it has one element. -/
def ItemList.literal? (inBrackets : Bool) (l : ItemList) : Option TermTree :=
  if inBrackets then
    if l.comma then none else some (.array (l.items.map Prod.snd))
  else if l.comma = (l.items.length == 1) then some (.tuple (l.items.map Prod.snd))
  else none

/-- What becomes of a term with some actuals after it. -/
def ItemList.call? (callee : TermTree) (inBrackets : Bool) (l : ItemList) : Option TermTree :=
  if l.comma then none else some (.call callee l.items inBrackets)

mutual

/-- A term. -/
def readTerm (cs : List Char) : Option (Parsed TermTree cs.length) :=
  match readPrimary cs with
  | some ⟨t, rest, h⟩ => (readSuffixes t rest).map (Parsed.weaken (Nat.succ_le_of_lt h))
  | none => none
termination_by (cs.length, 1)

/-- What a term starts with: a literal, a tuple, an array or a name. -/
def readPrimary : (cs : List Char) → Option (Parsed TermTree cs.length)
  | [] => none
  | c :: cs =>
    if c = '"' then
      (readLiteral cs).map fun p => (p.map .literal).weaken (Nat.le_succ _)
    else
      match opened? c with
      | some inBrackets =>
        match readItems false inBrackets cs with
        | some ⟨l, rest, h⟩ =>
          (l.literal? inBrackets).map fun t => ⟨t, rest, Nat.lt_succ_of_lt h⟩
        | none => none
      | none => (readWord (c :: cs)).map (Parsed.map .name)
termination_by cs => (cs.length, 0)

/-- A term with the members and calls after it. -/
def readSuffixes (t : TermTree) : (cs : List Char) → Option (Parsed TermTree (cs.length + 1))
  | [] => some ⟨t, [], Nat.lt_succ_self _⟩
  | c :: cs =>
    if c = '.' then
      match readWord cs with
      | some ⟨field, rest, h⟩ =>
        (readSuffixes (.dot t field) rest).map
          (Parsed.weaken (Nat.succ_le_succ (Nat.le_succ_of_le (Nat.le_of_lt h))))
      | none => none
    else
      match opened? c with
      | some inBrackets =>
        match readItems true inBrackets cs with
        | some ⟨l, rest, h⟩ =>
          match l.call? t inBrackets with
          | some u =>
            (readSuffixes u rest).map
              (Parsed.weaken (Nat.succ_le_succ (Nat.le_succ_of_le (Nat.le_of_lt h))))
          | none => none
        | none => none
      | none => some ⟨t, c :: cs, Nat.lt_succ_self _⟩
termination_by cs => (cs.length, 0)

/-- An item of a list. Where items may have names, a name before an equality sign is one. -/
def readItem (labelled : Bool) (cs : List Char) : Option (Parsed TermItem cs.length) :=
  match readTerm cs with
  | some ⟨t, rest, h⟩ =>
    match if labelled then readLabel t rest else none with
    | some ⟨w, rest', h'⟩ =>
      (readTerm rest').map fun p =>
        (p.map (some w, ·)).weaken (Nat.le_of_lt (Nat.lt_trans h' h))
    | none => some ⟨(none, t), rest, h⟩
  | none => none
termination_by (cs.length, 2)

/-- The items of a list up to its closing mark. -/
def readItems (labelled inBrackets : Bool) (cs : List Char) : Option (Parsed ItemList cs.length) :=
  match cs with
  | [] => none
  | c :: cs =>
    if c = closingMark inBrackets then some ⟨⟨[], false⟩, cs, Nat.lt_succ_self _⟩
    else readMoreItems labelled inBrackets (c :: cs)
termination_by (cs.length, 4)

/-- The items of a list that has one. -/
def readMoreItems (labelled inBrackets : Bool) (cs : List Char) :
    Option (Parsed ItemList cs.length) :=
  match readItem labelled cs with
  | some ⟨item, rest, h⟩ =>
    match readItemEnd inBrackets rest with
    | some ⟨.another, rest', h'⟩ =>
      (readMoreItems labelled inBrackets rest').map fun p =>
        (p.map fun l => ⟨item :: l.items, l.comma⟩).weaken (Nat.le_of_lt (Nat.lt_trans h' h))
    | some ⟨.closed comma, rest', h'⟩ => some ⟨⟨[item], comma⟩, rest', Nat.lt_trans h' h⟩
    | none => none
  | none => none
termination_by (cs.length, 3)

end

/-- The term that some characters stand for, all of them taken together. -/
def termOfChars? (cs : List Char) : Option TermTree :=
  match readTerm cs with
  | some ⟨t, [], _⟩ => some t
  | _ => none

/-- The term that a text stands for. -/
def termOfText? (s : String) : Option TermTree := termOfChars? s.toList

end ChapelSource
