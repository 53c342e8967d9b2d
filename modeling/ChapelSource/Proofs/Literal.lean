import ChapelSource.Literal.Decode
import ChapelSource.Proofs.Writing

/-!
# Quoted literals are read back

Whatever bytes a literal holds, its text is printable, ends at the quote that was written for that,
and stands for those bytes.

* `Literal.escape_cases`: the ways in which a byte is written.
* `Literal.isHexDigit_head_encode`: what follows a `\x` escape does not extend it.
* `Literal.decode_encode`: escaped bytes are decoded.
* `Literal.untilQuote_encode`: a reader passes over escaped bytes.
* `Literal.readQuoted_literal`: it stops at the closing quote.
* **`Literal.print_readQuoted`**: the text of a literal.
-/

namespace ChapelSource

namespace Literal

/-! ## Digits -/

/-- The code of a character as a byte. -/
def code (c : Char) : UInt8 := UInt8.ofNat c.toNat

theorem isHexDigit_hexDigit : ∀ n < 16, isHexDigit (code (hexDigit n)) = true := by decide

theorem digitValue_hexDigit : ∀ n < 16, digitValue (code (hexDigit n)) = n := by decide

theorem printable_hexDigit :
    ∀ n < 16, 32 ≤ (hexDigit n).toNat ∧ (hexDigit n).toNat ≤ 126 := by decide

theorem hexDigit_ne : ∀ n < 16, hexDigit n ≠ '"' ∧ hexDigit n ≠ backslash := by decide

theorem byteOfDigits_hex (b : UInt8) :
    byteOfDigits 16 [code (hexDigit (b.toNat / 16)), code (hexDigit (b.toNat % 16))] = b := by
  have hb : b.toNat < 256 := b.toNat_lt
  rw [byteOfDigits, List.foldl_cons, List.foldl_cons, List.foldl_nil,
    digitValue_hexDigit _ (by omega), digitValue_hexDigit _ (by omega)]
  have hvalue : (0 * 16 + b.toNat / 16) * 16 + b.toNat % 16 = b.toNat := by omega
  rw [hvalue, UInt8.ofNat_toNat]

/-! ## One byte -/

/-- A byte is written by a letter of its own, as itself or as a `\x` escape. Only the last may stand
for a digit after another `\x` escape. -/
theorem escape_cases (afterHex : Bool) (b : UInt8) :
    (∃ letter, escapeLetter? b = some letter ∧
      escape afterHex b = ([backslash, letter], false)) ∨
    (escapeLetter? b = none ∧ isPrintable b = true ∧ (afterHex = true → isHexDigit b = false) ∧
      escape afterHex b = ([Char.ofNat b.toNat], false)) ∨
    escape afterHex b = (hexEscape b, true) := by
  unfold escape
  cases hletter : escapeLetter? b with
  | some letter => exact .inl ⟨letter, rfl, rfl⟩
  | none =>
    cases hplain : isPrintable b && !(afterHex && isHexDigit b) with
    | false => exact .inr (.inr rfl)
    | true =>
      rw [Bool.and_eq_true, Bool.not_eq_true', Bool.and_eq_false_iff] at hplain
      obtain ⟨hprintable, hdigit⟩ := hplain
      refine .inr (.inl ⟨rfl, hprintable, fun h => ?_, rfl⟩)
      exact hdigit.resolve_left (ne_false_of_eq_true h)

theorem escapeLetter_cases {b : UInt8} {letter : Char} (h : escapeLetter? b = some letter) :
    (32 ≤ letter.toNat ∧ letter.toNat ≤ 126) ∧ ∀ rest,
      decodeEscape (code letter :: rest) = some (b, rest) := by
  have hb : b = UInt8.ofNat b.toNat := UInt8.ofNat_toNat.symm
  unfold escapeLetter? at h
  split at h
  case h_10 => contradiction
  all_goals
    rename_i hcode
    rw [hcode] at hb
    subst hb
    cases h
    exact ⟨by decide, fun rest => rfl⟩

theorem plain_of_isPrintable {b : UInt8} (h : escapeLetter? b = none) (hb : isPrintable b = true) :
    code (Char.ofNat b.toNat) = b ∧ b ≠ 92 ∧ Char.ofNat b.toNat ≠ '"' ∧
      Char.ofNat b.toNat ≠ backslash ∧
      32 ≤ (Char.ofNat b.toNat).toNat ∧ (Char.ofNat b.toNat).toNat ≤ 126 := by
  rw [isPrintable, Bool.and_eq_true, decide_eq_true_eq, decide_eq_true_eq, UInt8.le_iff_toNat_le,
    UInt8.le_iff_toNat_le] at hb
  have hvalid : b.toNat.isValidChar := .inl (Nat.lt_trans b.toNat_lt (by decide))
  have hnat : (Char.ofNat b.toNat).toNat = b.toNat := by
    rw [Char.ofNat, dif_pos hvalid]
    rfl
  have hchar : ∀ c : Char, Char.ofNat b.toNat = c → b = UInt8.ofNat c.toNat := by
    rintro c rfl
    rw [hnat, UInt8.ofNat_toNat]
  refine ⟨?_, ?_, fun hc => ?_, fun hc => ?_, ?_⟩
  · rw [code, hnat, UInt8.ofNat_toNat]
  · rintro rfl
    contradiction
  · rw [hchar _ hc] at h
    contradiction
  · rw [hchar _ hc] at h
    contradiction
  · rw [hnat]
    exact hb

/-! ## Decoding -/

theorem decode_nil : decode [] = some [] := by rw [decode]

theorem decode_cons_of_ne {c : UInt8} (hc : c ≠ 92) (cs : List UInt8) :
    decode (c :: cs) = (decode cs).map (c :: ·) := by
  rw [decode, if_neg hc]

theorem decode_backslash {cs rest : List UInt8} {b : UInt8}
    (h : decodeEscape cs = some (b, rest)) :
    decode (92 :: cs) = (decode rest).map (b :: ·) := by
  rw [decode, if_pos rfl]
  split
  · next h' =>
    rw [h] at h'
    cases h'
    rfl
  · next h' =>
    rw [h] at h'
    contradiction

/-- What is written after a `\x` escape does not extend it. -/
theorem isHexDigit_head_encode (bytes : List UInt8) :
    ∀ c ∈ ((encode true bytes).map code).head?, isHexDigit c = false := by
  intro c hc
  cases bytes with
  | nil => contradiction
  | cons b bs =>
    rw [encode] at hc
    rcases escape_cases true b with ⟨letter, -, h⟩ | ⟨hletter, hb, hdigit, h⟩ | h
    · rw [h] at hc
      cases hc
      rfl
    · rw [h] at hc
      cases hc
      rw [(plain_of_isPrintable hletter hb).1]
      exact hdigit rfl
    · rw [h] at hc
      cases hc
      rfl

theorem decodeEscape_hex (b : UInt8) {rest : List UInt8}
    (h : ∀ c ∈ rest.head?, isHexDigit c = false) :
    decodeEscape ((hexEscape b).tail.map code ++ rest) = some (b, rest) := by
  have hb : b.toNat < 256 := b.toNat_lt
  have hrest : rest.takeWhile isHexDigit = [] ∧ rest.dropWhile isHexDigit = rest := by
    cases rest with
    | nil => exact ⟨rfl, rfl⟩
    | cons c cs => simp [h c rfl]
  have hfirst := isHexDigit_hexDigit (b.toNat / 16) (by omega)
  have hsecond := isHexDigit_hexDigit (b.toNat % 16) (Nat.mod_lt _ (by decide))
  show some (byteOfDigits 16 (List.takeWhile isHexDigit (_ :: _ :: rest)),
    List.dropWhile isHexDigit (_ :: _ :: rest)) = some (b, rest)
  rw [List.takeWhile_cons_of_pos hfirst, List.takeWhile_cons_of_pos hsecond,
    List.dropWhile_cons_of_pos hfirst, List.dropWhile_cons_of_pos hsecond, hrest.1, hrest.2,
    byteOfDigits_hex]

/-- **Escaped bytes are decoded**, whatever escape stands before them. -/
theorem decode_encode (afterHex : Bool) (bytes : List UInt8) :
    decode ((encode afterHex bytes).map code) = some bytes := by
  induction bytes generalizing afterHex with
  | nil => exact decode_nil
  | cons b bs ih =>
    rw [encode, List.map_append]
    rcases escape_cases afterHex b with ⟨letter, hletter, h⟩ | ⟨hletter, hb, -, h⟩ | h
    · rw [h]
      have hescape := (escapeLetter_cases hletter).2 ((encode false bs).map code)
      exact (decode_backslash hescape).trans (by rw [ih, Option.map_some])
    · obtain ⟨hcode, hne, -⟩ := plain_of_isPrintable hletter hb
      rw [h, List.map_singleton, List.singleton_append, hcode, decode_cons_of_ne hne, ih,
        Option.map_some]
    · rw [h]
      have hescape := decodeEscape_hex b (isHexDigit_head_encode bs)
      exact (decode_backslash hescape).trans (by rw [ih, Option.map_some])

/-! ## Printable text -/

theorem printable_hexEscape (b : UInt8) :
    ∀ c ∈ hexEscape b, 32 ≤ c.toNat ∧ c.toNat ≤ 126 := by
  have hb : b.toNat < 256 := b.toNat_lt
  intro c hc
  simp only [hexEscape, List.mem_cons, List.not_mem_nil, or_false] at hc
  rcases hc with rfl | rfl | rfl | rfl
  · decide
  · decide
  · exact printable_hexDigit _ (by omega)
  · exact printable_hexDigit _ (Nat.mod_lt _ (by decide))

theorem printable_encode (afterHex : Bool) (bytes : List UInt8) :
    ∀ c ∈ encode afterHex bytes, 32 ≤ c.toNat ∧ c.toNat ≤ 126 := by
  induction bytes generalizing afterHex with
  | nil => exact fun c hc => nomatch hc
  | cons b bs ih =>
    intro c hc
    rw [encode, List.mem_append] at hc
    rcases hc with hc | hc
    · rcases escape_cases afterHex b with ⟨letter, hletter, h⟩ | ⟨hletter, hb, -, h⟩ | h
      · rw [h] at hc
        rcases List.mem_cons.1 hc with rfl | hc
        · decide
        · rw [List.mem_singleton.1 hc]
          exact (escapeLetter_cases hletter).1
      · rw [h] at hc
        rw [List.mem_singleton.1 hc]
        exact (plain_of_isPrintable hletter hb).2.2.2.2
      · rw [h] at hc
        exact printable_hexEscape b c hc
    · exact ih _ c hc

theorem toUTF8_ofList {cs : List Char} (h : ∀ c ∈ cs, c.toNat ≤ 126) :
    (String.ofList cs).toUTF8.data.toList = cs.map code := by
  have hbytes : (String.ofList cs).toUTF8.data.toList = cs.flatMap String.utf8EncodeChar := by
    rw [String.toUTF8_eq_toByteArray, String.toByteArray_ofList, List.utf8Encode,
      List.data_toByteArray]
  rw [hbytes]
  clear hbytes
  induction cs with
  | nil => rfl
  | cons c cs ih =>
    have hc : c.toNat ≤ 126 := h c List.mem_cons_self
    have hchar : String.utf8EncodeChar c = [code c] := by
      rw [String.utf8EncodeChar]
      exact if_pos (Nat.le_succ_of_le hc)
    rw [List.flatMap_cons, hchar, ih fun d hd => h d (List.mem_cons_of_mem _ hd), List.map_cons,
      List.singleton_append]

theorem unescape_quote (bytes : List UInt8) : unescape (quote bytes) = some bytes := by
  rw [unescape, quote, toUTF8_ofList fun c hc => (printable_encode false bytes c hc).2,
    decode_encode]

/-! ## The closing quote -/

theorem untilQuote_cons {c : Char} (hquote : c ≠ '"') (hslash : c ≠ backslash) (cs : List Char) :
    untilQuote (c :: cs) = (untilQuote cs).map fun r => (c :: r.1, r.2) := by
  rw [untilQuote.eq_def]
  exact (if_neg hquote).trans (if_neg hslash)

theorem untilQuote_backslash (c : Char) (cs : List Char) :
    untilQuote (backslash :: c :: cs) =
      (untilQuote cs).map fun r => (backslash :: c :: r.1, r.2) := by
  rw [untilQuote, if_neg (by decide), if_pos rfl]

theorem untilQuote_closing (cs : List Char) : untilQuote ('"' :: cs) = some ([], cs) := by
  rw [untilQuote.eq_def]
  exact if_pos rfl

theorem untilQuote_escape (afterHex : Bool) (b : UInt8) (cs : List Char) :
    untilQuote ((escape afterHex b).1 ++ cs) =
      (untilQuote cs).map fun r => ((escape afterHex b).1 ++ r.1, r.2) := by
  have hb : b.toNat < 256 := b.toNat_lt
  rcases escape_cases afterHex b with ⟨letter, -, h⟩ | ⟨hletter, hplain, -, h⟩ | h
  · rw [h]
    exact untilQuote_backslash letter cs
  · obtain ⟨-, -, hquote, hslash, -⟩ := plain_of_isPrintable hletter hplain
    rw [h]
    exact untilQuote_cons hquote hslash cs
  · have hfirst := hexDigit_ne (b.toNat / 16) (by omega)
    have hsecond := hexDigit_ne (b.toNat % 16) (Nat.mod_lt _ (by decide))
    rw [h]
    show untilQuote (backslash :: 'x' :: _ :: _ :: cs) = _
    rw [untilQuote_backslash, untilQuote_cons hfirst.1 hfirst.2, untilQuote_cons hsecond.1 hsecond.2,
      Option.map_map, Option.map_map]
    rfl

/-- **A reader passes over escaped bytes.** -/
theorem untilQuote_encode (afterHex : Bool) (bytes : List UInt8) (cs : List Char) :
    untilQuote (encode afterHex bytes ++ cs) =
      (untilQuote cs).map fun r => (encode afterHex bytes ++ r.1, r.2) := by
  induction bytes generalizing afterHex with
  | nil => exact Option.map_id'.symm
  | cons b bs ih =>
    rw [encode, List.append_assoc, untilQuote_escape, ih, Option.map_map]
    simp only [Function.comp_def, List.append_assoc]

/-- No quote in escaped bytes is unescaped. -/
theorem untilQuote_quote (bytes : List UInt8) : untilQuote (quote bytes).toList = none := by
  rw [quote, String.toList_ofList, ← List.append_nil (encode false bytes), untilQuote_encode]
  rfl

/-- The first unescaped quote after escaped bytes is the one that is written there. -/
theorem untilQuote_quote_append (bytes : List UInt8) (rest : List Char) :
    untilQuote ((quote bytes).toList ++ '"' :: rest) = some ((quote bytes).toList, rest) := by
  rw [quote, String.toList_ofList, untilQuote_encode, untilQuote_closing, Option.map_some,
    List.append_nil]

/-! ## Literals -/

/-- The text of a literal. -/
def literalText (kind : QuotedKind) (bytes : List UInt8) : String :=
  kind.marker ++ "\"" ++ quote bytes ++ "\""

theorem readQuoted_literal (kind : QuotedKind) (bytes : List UInt8) (rest : List Char) :
    readQuoted ((literalText kind bytes).toList ++ rest) =
      some (kind, (quote bytes).toList, rest) := by
  have h := untilQuote_quote_append bytes rest
  cases kind <;> simp [literalText, QuotedKind.marker, readQuoted, h]

theorem print_literal (info : NodeInfo) (kind : QuotedKind) (bytes : List UInt8)
    (o : PrintOptions) :
    (Node.mk info (.quotedLiteral kind bytes)).print o = .ok (literalText kind bytes) := by
  rw [Node.print, Node.pieces_eq]
  exact congrArg Except.ok (String.empty_append)

/-- **The text of a literal is read back.** What stands between the quotes is printable, has no
unescaped quote and decodes to the bytes of the literal; a reader of the text with anything after it
stops at the closing quote; and no other literal has that text. -/
theorem print_readQuoted (info : NodeInfo) (kind : QuotedKind) (bytes : List UInt8)
    (o : PrintOptions) :
    (∀ c ∈ (quote bytes).toList, 32 ≤ c.toNat ∧ c.toNat ≤ 126) ∧
    unescape (quote bytes) = some bytes ∧
    untilQuote (quote bytes).toList = none ∧
    ∃ text, (Node.mk info (.quotedLiteral kind bytes)).print o = .ok text ∧
      (∀ rest, readQuoted (text.toList ++ rest) = some (kind, (quote bytes).toList, rest)) ∧
      ∀ info' kind' bytes' o', (Node.mk info' (.quotedLiteral kind' bytes')).print o' = .ok text →
        kind' = kind ∧ bytes' = bytes := by
  refine ⟨?_, unescape_quote bytes, untilQuote_quote bytes, literalText kind bytes,
    print_literal info kind bytes o, readQuoted_literal kind bytes, ?_⟩
  · rw [quote, String.toList_ofList]
    exact printable_encode false bytes
  · intro info' kind' bytes' o' h
    rw [print_literal] at h
    have hread := readQuoted_literal kind' bytes' []
    rw [Except.ok.inj h, readQuoted_literal] at hread
    obtain ⟨rfl, hbody, -⟩ := by simpa only [Option.some.injEq, Prod.mk.injEq] using hread
    have hbytes := unescape_quote bytes'
    rw [← String.toList_inj.1 hbody, unescape_quote] at hbytes
    exact ⟨rfl, (Option.some.inj hbytes).symm⟩

end Literal

end ChapelSource
