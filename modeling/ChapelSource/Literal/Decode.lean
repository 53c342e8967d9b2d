import Mathlib.Tactic.SplitIfs
import ChapelSource.Layout.Expression

/-!
# Reading quoted literals

A reader of the C escape rules: a letter after a backslash names a byte, `\x` takes every hexadecimal
digit that follows it, an octal escape takes up to three digits, and any other character after a
backslash stands for itself.

* `Literal.decodeEscape`, `Literal.decode`: the bytes that escaped bytes stand for.
* `Literal.unescape`: the bytes that an escaped text stands for.
* `Literal.untilQuote`: a text up to the first double quote that is not skipped after a backslash.
* `Literal.readQuoted`: the kind and the body of a literal at the front of a text.
-/

namespace ChapelSource

namespace Literal

/-! ## Escapes -/

/-- A byte is an octal digit when it is the code of one. -/
def isOctalDigit (b : UInt8) : Bool := 48 ≤ b && b ≤ 55

/-- The number that a digit stands for. Letters of either case go on after nine. -/
def digitValue (b : UInt8) : Nat :=
  if b ≤ 57 then b.toNat - 48 else if b ≤ 70 then b.toNat - 55 else b.toNat - 87

/-- The byte that some digits stand for. A larger number loses its upper bits. -/
def byteOfDigits (base : Nat) (digits : List UInt8) : UInt8 :=
  UInt8.ofNat (digits.foldl (fun value d => value * base + digitValue d) 0)

/-- The byte that a letter names after a backslash. -/
def namedByte? (b : UInt8) : Option UInt8 :=
  match b.toNat with
  | 97 => some 7
  | 98 => some 8
  | 116 => some 9
  | 110 => some 10
  | 118 => some 11
  | 102 => some 12
  | 114 => some 13
  | _ => none

/-- What follows a backslash: the byte that it stands for, and the bytes after the escape. -/
def decodeEscape : List UInt8 → Option (UInt8 × List UInt8)
  | [] => none
  | c :: rest =>
    match namedByte? c with
    | some b => some (b, rest)
    | none =>
      if c = 120 then
        some (byteOfDigits 16 (rest.takeWhile isHexDigit), rest.dropWhile isHexDigit)
      else if isOctalDigit c then
        let more := (rest.take 2).takeWhile isOctalDigit
        some (byteOfDigits 8 (c :: more), rest.drop more.length)
      else some (c, rest)

/-- An escape takes at least one byte. -/
theorem length_lt_of_decodeEscape {cs rest : List UInt8} {b : UInt8}
    (h : decodeEscape cs = some (b, rest)) : rest.length < cs.length := by
  cases cs with
  | nil => contradiction
  | cons c cs =>
    have hdrop := (cs.dropWhile_sublist isHexDigit).length_le
    have hmore : ∀ n, (cs.drop n).length ≤ cs.length := fun n => by
      rw [List.length_drop]
      omega
    simp only [decodeEscape] at h
    split at h
    · cases h
      exact Nat.lt_succ_self _
    · split_ifs at h <;> cases h
      · exact Nat.lt_succ_of_le hdrop
      · exact Nat.lt_succ_of_le (hmore _)
      · exact Nat.lt_succ_self _

/-- The bytes that escaped bytes stand for. A backslash at the end escapes nothing. -/
def decode : List UInt8 → Option (List UInt8)
  | [] => some []
  | c :: cs =>
    if c = 92 then
      match _h : decodeEscape cs with
      | some (b, rest) => (decode rest).map (b :: ·)
      | none => none
    else (decode cs).map (c :: ·)
termination_by cs => cs.length
decreasing_by
  · exact Nat.lt_succ_of_lt (length_lt_of_decodeEscape _h)
  · exact Nat.lt_succ_self _

/-- The bytes that an escaped text stands for. -/
def unescape (s : String) : Option (List UInt8) := decode s.toUTF8.data.toList

/-! ## Where a literal ends -/

/-- A text up to the first double quote and the text after it. The character after a backslash is
skipped, whatever it is. -/
def untilQuote : List Char → Option (List Char × List Char)
  | [] => none
  | c :: cs =>
    if c = '"' then some ([], cs)
    else if c = backslash then
      match cs with
      | [] => none
      | d :: ds => (untilQuote ds).map fun r => (c :: d :: r.1, r.2)
    else (untilQuote cs).map fun r => (c :: r.1, r.2)

/-- The text after the quote is shorter than the whole text. -/
theorem length_lt_of_untilQuote {cs body rest : List Char}
    (h : untilQuote cs = some (body, rest)) : rest.length < cs.length := by
  fun_induction untilQuote cs generalizing body with
  | case1 => contradiction
  | case2 cs =>
    cases h
    exact Nat.lt_succ_self _
  | case3 => contradiction
  | case4 d ds hquote ih =>
    obtain ⟨r, hr, heq⟩ := Option.map_eq_some_iff.1 h
    cases heq
    have hlt := ih hr
    simp only [List.length_cons]
    omega
  | case5 c cs hquote hslash ih =>
    obtain ⟨r, hr, heq⟩ := Option.map_eq_some_iff.1 h
    cases heq
    exact Nat.lt_succ_of_lt (ih hr)

/-- A literal at the front of a text: its kind, what stands between its quotes, and the text after
it. -/
def readQuoted : List Char → Option (QuotedKind × List Char × List Char)
  | '"' :: cs => (untilQuote cs).map (.string, ·)
  | 'b' :: '"' :: cs => (untilQuote cs).map (.bytes, ·)
  | 'c' :: '"' :: cs => (untilQuote cs).map (.cString, ·)
  | _ => none

end Literal

end ChapelSource
