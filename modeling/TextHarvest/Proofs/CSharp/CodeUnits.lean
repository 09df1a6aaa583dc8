import TextHarvest.Proofs.CSharp.Escapes

/-! # Regular literals, code unit by code unit

A regular literal may write a character as it is, by its number in one long escape, or by one escape for each of its
UTF-16 code units. `Spelled` says which rows of such glyphs write a text, in any mixture.

Decoding goes by escapes, and half of a surrogate pair is no character: the two escapes of a pair are kept as they are
written. So a literal stands for the text that it writes just where no character is written as a pair
(`regularValue?_spelled`, `regularValue?_surrogates`).
-/

namespace TextHarvest.CSharp.Literal

/-! ## Glyphs -/

/-- The code units of a character in UTF-16: its number, or a pair of surrogates. -/
def codeUnits (c : Char) : List Nat :=
  if c.toNat < 0x10000 then [c.toNat]
  else [0xD800 + (c.toNat - 0x10000) / 0x400, 0xDC00 + (c.toNat - 0x10000) % 0x400]

/-- The escape writes the code unit, when `rest` follows: a short number must not be followed by another digit. -/
inductive WritesUnit (rest : List Char) : List Char → Nat → Prop
  | named {letter c : Char} (known : (letter, c) ∈ namedEscapes) : WritesUnit rest ['\\', letter] c.toNat
  | fixed {digits : List Char} {unit : Nat} (number : Xml.IsNumeral 16 unit digits) (four : digits.length = 4) :
      WritesUnit rest ('\\' :: 'u' :: digits) unit
  | varying {digits : List Char} {unit : Nat} (number : Xml.IsNumeral 16 unit digits) (few : digits.length ≤ 4)
      (ends : digits.length = 4 ∨ ∀ d, rest.head? = some d → ¬ IsHex d) : WritesUnit rest ('\\' :: 'x' :: digits) unit

/-- The escapes write the code units, one after the other. -/
inductive WritesUnits (rest : List Char) : List (List Char) → List Nat → Prop
  | nil : WritesUnits rest [] []
  | cons {escape : List Char} {escapes : List (List Char)} {unit : Nat} {units : List Nat}
      (first : WritesUnit (escapes.flatten ++ rest) escape unit) (others : WritesUnits rest escapes units) :
      WritesUnits rest (escape :: escapes) (unit :: units)

/-- How one character of a text is written. -/
inductive Glyph
  /-- The character itself. -/
  | plain (c : Char)
  /-- One escape with the digits of its number. -/
  | whole (digits : List Char)
  /-- One escape for each of its code units. -/
  | units (escapes : List (List Char))
deriving DecidableEq, Repr

namespace Glyph

def spelling : Glyph → List Char
  | plain c => [c]
  | whole digits => '\\' :: 'U' :: digits
  | units escapes => escapes.flatten

def isPair : Glyph → Bool
  | units escapes => escapes.length == 2
  | _ => false

/-- The glyph writes the character, when `rest` follows. -/
inductive Writes (rest : List Char) : Glyph → Char → Prop
  | plain {c : Char} (allowed : c ∉ ['"', '\\', '\n', '\r']) : Writes rest (.plain c) c
  | whole {digits : List Char} {c : Char} (number : Xml.IsNumeral 16 c.toNat digits) (eight : digits.length = 8) :
      Writes rest (.whole digits) c
  | units {escapes : List (List Char)} {c : Char} (written : WritesUnits rest escapes (codeUnits c)) :
      Writes rest (.units escapes) c

/-- What is left of a glyph for a character: the character, unless it is written as a pair. -/
def decoded (glyph : Glyph) (c : Char) : List Char :=
  if glyph.isPair then glyph.spelling else [c]

end Glyph

/-- The glyphs write the text, character by character. -/
inductive Spelled : List Glyph → List Char → Prop
  | nil : Spelled [] []
  | cons {glyph : Glyph} {glyphs : List Glyph} {c : Char} {text : List Char}
      (first : glyph.Writes (glyphs.flatMap Glyph.spelling) c) (others : Spelled glyphs text) :
      Spelled (glyph :: glyphs) (c :: text)

def glyphLiteral (glyphs : List Glyph) : List Char :=
  '"' :: (glyphs.flatMap Glyph.spelling ++ ['"'])

/-! ## One code unit -/

/-- An escape by number with all its digits is a longest unit and denotes the character of that number, if there is
one. -/
theorem coded_spec {letter : Char} {least most unit : Nat} {digits rest : List Char}
    (known : (letter, least, most) ∈ codedEscapes) (enough : least ≤ digits.length) (few : digits.length ≤ most)
    (number : Xml.IsNumeral 16 unit digits) (ends : digits.length = most ∨ ∀ d, rest.head? = some d → ¬ IsHex d) :
    IsLongest ('\\' :: letter :: digits) ('\\' :: letter :: digits ++ rest) ∧
      ∀ c, Denotes ('\\' :: letter :: digits) c ↔ c.toNat = unit := by
  have taken : escapeDigits most (digits ++ rest) = digits := by
    refine escapeDigits_append few (isNumeral_iff.mp number).2.1 (ends.imp_right ?_)
    intro stops d next
    exact Bool.eq_false_iff.mpr (mt isHexDigit_iff.mp (stops d next))
  refine ⟨isLongest_coded known taken, ?_⟩
  intro c
  rw [denotes_coded_iff known, isNumeral_eq_iff number]
  exact ⟨fun escape => escape.2.2, fun same => ⟨enough, few, same⟩⟩

/-- An escape for a code unit is a longest unit and denotes the character of that number, if there is one. -/
theorem WritesUnit.spec {rest escape : List Char} {unit : Nat} (written : WritesUnit rest escape unit) :
    IsLongest escape (escape ++ rest) ∧ ∀ c, Denotes escape c ↔ c.toNat = unit := by
  cases written with
  | @named letter own known =>
    have uncoded : ∀ bounds, (letter, bounds) ∉ codedEscapes := fun _ coded => not_mem_namedEscapes coded known
    refine ⟨isLongest_pair uncoded rest, ?_⟩
    intro c
    rw [Char.toNat_inj]
    constructor
    · intro escape
      exact escape.eq (.named known)
    · rintro rfl
      exact .named known
  | fixed number four => exact coded_spec (by decide) four.ge four.le number (.inl four)
  | varying number few ends =>
    have some_digit := List.length_pos_iff.mpr (isNumeral_iff.mp number).1
    exact coded_spec (by decide : ('x', 1, 4) ∈ codedEscapes) some_digit few number ends

private theorem WritesUnit.exists_cons {rest escape : List Char} {unit : Nat} (written : WritesUnit rest escape unit) :
    ∃ tail, escape = '\\' :: tail := by
  cases written <;> exact ⟨_, rfl⟩

/-- The escape of a code unit that is a character stands for it. -/
theorem WritesUnit.unescape_character {rest escape : List Char} {c : Char} (written : WritesUnit rest escape c.toNat) :
    unescape (escape ++ rest) = c :: unescape rest := by
  obtain ⟨longest, denotes⟩ := written.spec
  exact unescape_unit longest (.character ((denotes c).mpr rfl))

/-- The escape of half a surrogate pair is kept as it is. -/
theorem WritesUnit.unescape_surrogate {rest escape : List Char} {unit : Nat} (written : WritesUnit rest escape unit)
    (surrogate : 0xD800 ≤ unit ∧ unit ≤ 0xDFFF) : unescape (escape ++ rest) = escape ++ unescape rest := by
  obtain ⟨longest, denotes⟩ := written.spec
  refine unescape_unit longest (.itself ?_)
  intro c escapes
  have same := (denotes c).mp escapes
  have valid : c.toNat < 0xD800 ∨ 0xDFFF < c.toNat ∧ c.toNat < 0x110000 := c.valid
  omega

/-! ## Whole texts -/

private theorem WritesUnits.of_singleton {rest : List Char} {escapes : List (List Char)} {unit : Nat}
    (written : WritesUnits rest escapes [unit]) : ∃ escape, escapes = [escape] ∧ WritesUnit rest escape unit := by
  cases written with
  | cons first others =>
    cases others
    exact ⟨_, rfl, first⟩

private theorem WritesUnits.of_pair {rest : List Char} {escapes : List (List Char)} {first second : Nat}
    (written : WritesUnits rest escapes [first, second]) :
    ∃ high low, escapes = [high, low] ∧ WritesUnit (low ++ rest) high first ∧ WritesUnit rest low second := by
  cases written with
  | cons opening others =>
    obtain ⟨low, rfl, closing⟩ := others.of_singleton
    rw [List.flatten_singleton] at opening
    exact ⟨_, low, rfl, opening, closing⟩

private theorem codeUnits_of_narrow {c : Char} (narrow : ¬ 0x10000 ≤ c.toNat) : codeUnits c = [c.toNat] :=
  if_pos (Nat.lt_of_not_le narrow)

/-- The code units of a wide character are two numbers that no character has. -/
theorem exists_codeUnits_of_wide {c : Char} (wide : 0x10000 ≤ c.toNat) :
    ∃ first second, codeUnits c = [first, second] ∧ (0xD800 ≤ first ∧ first ≤ 0xDFFF) ∧
      (0xD800 ≤ second ∧ second ≤ 0xDFFF) := by
  have valid : c.toNat < 0xD800 ∨ 0xDFFF < c.toNat ∧ c.toNat < 0x110000 := c.valid
  refine ⟨_, _, if_neg (Nat.not_lt_of_le wide), ?_, ?_⟩ <;> omega

/-- A glyph for a character is decoded to the character, or kept if it is a pair, whatever follows. -/
theorem Glyph.Writes.unescape {rest : List Char} {glyph : Glyph} {c : Char} (written : glyph.Writes rest c) :
    unescape (glyph.spelling ++ rest) = glyph.decoded c ++ Literal.unescape rest := by
  cases written with
  | plain allowed =>
    refine unescape_cons_plain ?_ rest
    rintro rfl
    exact allowed (by simp)
  | @whole digits _ number eight =>
    obtain ⟨longest, denotes⟩ :=
      coded_spec (by decide : ('U', 8, 8) ∈ codedEscapes) eight.ge eight.le number (.inl eight)
    exact unescape_unit longest (.character ((denotes c).mpr rfl))
  | @units escapes _ written =>
    by_cases wide : 0x10000 ≤ c.toNat
    · obtain ⟨first, second, units, isHigh, isLow⟩ := exists_codeUnits_of_wide wide
      rw [units] at written
      obtain ⟨high, low, rfl, opening, closing⟩ := written.of_pair
      have kept : Glyph.decoded (.units [high, low]) c = high ++ low := by
        simp [Glyph.decoded, Glyph.isPair, Glyph.spelling]
      have pair : Glyph.spelling (.units [high, low]) = high ++ low := by simp [Glyph.spelling]
      rw [kept, pair, List.append_assoc, opening.unescape_surrogate isHigh, closing.unescape_surrogate isLow,
        List.append_assoc]
    · rw [codeUnits_of_narrow wide] at written
      obtain ⟨escape, rfl, single⟩ := written.of_singleton
      simpa [Glyph.spelling, Glyph.decoded, Glyph.isPair] using single.unescape_character

theorem Spelled.unescape {glyphs : List Glyph} {text : List Char} (spelled : Spelled glyphs text) :
    Literal.unescape (glyphs.flatMap Glyph.spelling) = (List.zipWith Glyph.decoded glyphs text).flatten := by
  induction spelled with
  | nil => rfl
  | cons first _ ih => rw [List.flatMap_cons, first.unescape, ih, List.zipWith_cons_cons, List.flatten_cons]

/-- A pair begins with a backslash, and no character that is written as a pair does. -/
theorem Glyph.Writes.exists_of_isPair {rest : List Char} {glyph : Glyph} {c : Char} (written : glyph.Writes rest c)
    (pair : glyph.isPair = true) : c ≠ '\\' ∧ ∃ tail, glyph.spelling = '\\' :: tail := by
  cases written with
  | plain => cases pair
  | whole => cases pair
  | @units escapes _ written =>
    by_cases wide : 0x10000 ≤ c.toNat
    · obtain ⟨first, second, units, _⟩ := exists_codeUnits_of_wide wide
      rw [units] at written
      obtain ⟨high, low, rfl, opening, _⟩ := written.of_pair
      obtain ⟨tail, rfl⟩ := opening.exists_cons
      refine ⟨?_, _, rfl⟩
      rintro rfl
      exact absurd wide (by decide)
    · rw [codeUnits_of_narrow wide] at written
      obtain ⟨escape, rfl, _⟩ := written.of_singleton
      cases pair

/-- What is left of glyphs is the text that they write just where none is a pair. -/
theorem Spelled.flatten_decoded_eq_iff {glyphs : List Glyph} {text : List Char} (spelled : Spelled glyphs text) :
    (List.zipWith Glyph.decoded glyphs text).flatten = text ↔ ∀ glyph ∈ glyphs, glyph.isPair = false := by
  induction spelled with
  | nil => simp
  | @cons glyph glyphs c text first _ ih =>
    rw [List.zipWith_cons_cons, List.flatten_cons, Glyph.decoded, List.forall_mem_cons]
    cases pair : glyph.isPair with
    | false => simp [ih]
    | true =>
      obtain ⟨other, tail, spelling⟩ := first.exists_of_isPair pair
      simp [spelling, other.symm]

/-- A regular literal stands for what is left of its glyphs: each gives the character that it writes, unless it writes
it as a pair of surrogates, which is kept as it is. So the literal stands for the text that it writes just where none of
its characters is written as a pair. -/
theorem regularValue?_spelled {glyphs : List Glyph} {text : List Char} (spelled : Spelled glyphs text) :
    regularValue? (glyphLiteral glyphs) = some (List.zipWith Glyph.decoded glyphs text).flatten ∧
      (regularValue? (glyphLiteral glyphs) = some text ↔ ∀ glyph ∈ glyphs, glyph.isPair = false) := by
  have value : regularValue? (glyphLiteral glyphs) = some (List.zipWith Glyph.decoded glyphs text).flatten := by
    rw [glyphLiteral, regularValue?_enclosed, spelled.unescape]
  refine ⟨value, ?_⟩
  rw [value, Option.some.injEq, spelled.flatten_decoded_eq_iff]

/-- Five characters in five ways: a short number before a backslash, a named escape, one long escape, a plain character
that could go on a number, and a number of fixed length. -/
theorem regularValue?_spelled_mixture :
    let glyphs := [.units [['\\', 'x', 'e', '9']], .units [['\\', 't']], .whole "0001F600".toList, .plain 'f',
      .units [['\\', 'u', '0', '0', '4', '1']]]
    Spelled glyphs ['é', '\t', '😀', 'f', 'A'] ∧ glyphLiteral glyphs = "\"\\xe9\\t\\U0001F600f\\u0041\"".toList ∧
      regularValue? "\"\\xe9\\t\\U0001F600f\\u0041\"".toList = some ['é', '\t', '😀', 'f', 'A'] := by
  intro glyphs
  have accent : Xml.IsNumeral 16 'é'.toNat ['e', '9'] :=
    isNumeral_iff.mpr ⟨by decide, List.all_eq_true.mp (by decide), by decide⟩
  have face : Xml.IsNumeral 16 '😀'.toNat "0001F600".toList :=
    isNumeral_iff.mpr ⟨by decide, List.all_eq_true.mp (by decide), by decide⟩
  have letter : Xml.IsNumeral 16 'A'.toNat ['0', '0', '4', '1'] :=
    isNumeral_iff.mpr ⟨by decide, List.all_eq_true.mp (by decide), by decide⟩
  have before_backslash : ∀ d, some '\\' = some d → ¬ IsHex d := by
    rintro _ ⟨⟩ hex
    exact absurd (isHexDigit_iff.mpr hex) (by decide)
  have spelled : Spelled glyphs ['é', '\t', '😀', 'f', 'A'] :=
    .cons (.units (.cons (.varying accent (by decide) (.inr before_backslash)) .nil)) <|
    .cons (.units (.cons (.named (by decide : ('t', '\t') ∈ namedEscapes)) .nil)) <|
    .cons (.whole face (by decide)) <| .cons (.plain (by decide)) <|
    .cons (.units (.cons (.fixed letter (by decide)) .nil)) .nil
  have written : glyphLiteral glyphs = "\"\\xe9\\t\\U0001F600f\\u0041\"".toList := by decide
  refine ⟨spelled, written, ?_⟩
  rw [← written]
  exact (regularValue?_spelled spelled).2.mpr (by decide)

/-- A character that is written as itself or in one escape is read, and one that is written as a pair is not. -/
theorem regularValue?_surrogates :
    let glyphs := [.units [['\\', 'u', 'D', '8', '3', 'D'], ['\\', 'u', 'D', 'E', '0', '0']]]
    Spelled glyphs ['😀'] ∧ glyphLiteral glyphs = "\"\\uD83D\\uDE00\"".toList ∧
      regularValue? "\"\\uD83D\\uDE00\"".toList = some "\\uD83D\\uDE00".toList ∧
      regularValue? "\"\\U0001F600\"".toList = some ['😀'] ∧ regularValue? "\"😀\"".toList = some ['😀'] := by
  intro glyphs
  have high : Xml.IsNumeral 16 0xD83D ['D', '8', '3', 'D'] :=
    isNumeral_iff.mpr ⟨by decide, List.all_eq_true.mp (by decide), by decide⟩
  have low : Xml.IsNumeral 16 0xDE00 ['D', 'E', '0', '0'] :=
    isNumeral_iff.mpr ⟨by decide, List.all_eq_true.mp (by decide), by decide⟩
  have spelled : Spelled glyphs ['😀'] :=
    .cons (.units (.cons (.fixed high (by decide)) (.cons (.fixed low (by decide)) .nil))) .nil
  exact ⟨spelled, by decide, by decide, by decide, by decide⟩

end TextHarvest.CSharp.Literal
