/-!
# Quoted literals

Bytes are written between double quotes under the C escape rules: a backslash starts an escape, and
`\x` takes every hexadecimal digit that follows it.

* `Literal.escape`: one byte in writing.
* `Literal.encode`: a list of bytes in writing.
* `Literal.quote`: the same as a string.

A hexadecimal digit right after a `\x` escape would be read as part of it, so it is written as an
escape too. That is the only way in which a byte depends on the bytes before it.
-/

namespace ChapelSource

namespace Literal

/-- The sixteen digits, the larger ones as capitals. -/
def hexDigit (n : Nat) : Char :=
  if n < 10 then Char.ofNat (48 + n) else Char.ofNat (55 + n)

/-- A byte is a hexadecimal digit when it is the code of one, of either case. -/
def isHexDigit (b : UInt8) : Bool :=
  (48 ≤ b && b ≤ 57) || (65 ≤ b && b ≤ 70) || (97 ≤ b && b ≤ 102)

/-- The letter that names a byte after a backslash, if there is one. -/
def escapeLetter? (b : UInt8) : Option Char :=
  match b.toNat with
  | 7 => some 'a'
  | 8 => some 'b'
  | 9 => some 't'
  | 10 => some 'n'
  | 11 => some 'v'
  | 12 => some 'f'
  | 13 => some 'r'
  | 34 => some '"'
  | 92 => some '\\'
  | _ => none

/-- A byte is printable when it is the code of a visible ASCII character or of the space. -/
def isPrintable (b : UInt8) : Bool := 32 ≤ b && b ≤ 126

/-- The backslash, which starts an escape. -/
def backslash : Char := '\\'

/-- A byte as a `\x` escape of two digits. -/
def hexEscape (b : UInt8) : List Char :=
  [backslash, 'x', hexDigit (b.toNat / 16), hexDigit (b.toNat % 16)]

/-- A byte in writing, and whether that is a `\x` escape; `afterHex` tells that one stands before
it. -/
def escape (afterHex : Bool) (b : UInt8) : List Char × Bool :=
  match escapeLetter? b with
  | some letter => ([backslash, letter], false)
  | none =>
    if isPrintable b && !(afterHex && isHexDigit b) then ([Char.ofNat b.toNat], false)
    else (hexEscape b, true)

/-- Bytes in writing; `afterHex` tells that a `\x` escape stands before them. -/
def encode (afterHex : Bool) : List UInt8 → List Char
  | [] => []
  | b :: bs => (escape afterHex b).1 ++ encode (escape afterHex b).2 bs

/-- Bytes as they are written between double quotes. -/
def quote (bytes : List UInt8) : String := String.ofList (encode false bytes)

end Literal

end ChapelSource
