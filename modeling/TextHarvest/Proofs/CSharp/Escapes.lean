import Mathlib.Data.List.TakeWhile
import TextHarvest.Proofs.CSharp.LiteralForms
import TextHarvest.Proofs.Xml.Spelling

/-! # Escapes, unit by unit

`Splits` cuts the inside of a regular literal into units, apart from the functions that decode it: from left to right,
each the longest unit that stands there. `StandsFor` says what a unit stands for: an escape that denotes a character for
this character, all else for itself, as it is spelled.

Decoding takes one longest unit after the other (`unescape_unit`). So every text has one split and decodes to what its
units stand for, and an escape that denotes nothing leaves what stands around it alone (`unescape_splits`).
-/

namespace TextHarvest.CSharp.Literal

/-! ## Units -/

/-- The escapes that name a character. -/
def namedEscapes : List (Char × Char) :=
  [('\'', '\''), ('"', '"'), ('\\', '\\'), ('0', '\x00'), ('a', '\x07'), ('b', '\x08'), ('e', '\x1b'), ('f', '\x0c'),
    ('n', '\n'), ('r', '\r'), ('t', '\t'), ('v', '\x0b')]

/-- The escapes that give the number of a character, with the least and the most digits that they take. -/
def codedEscapes : List (Char × Nat × Nat) :=
  [('x', 1, 4), ('u', 4, 4), ('U', 8, 8)]

def IsHex (c : Char) : Prop :=
  ∃ digit, Xml.IsDigit 16 digit c

/-- The texts that are one unit. An escape by number may have any number of digits up to the most it takes. -/
inductive IsUnit : List Char → Prop
  | plain {c : Char} (other : c ≠ '\\') : IsUnit [c]
  | named {letter c : Char} (known : (letter, c) ∈ namedEscapes) : IsUnit ['\\', letter]
  | coded {letter : Char} {least most : Nat} {digits : List Char} (known : (letter, least, most) ∈ codedEscapes)
      (few : digits.length ≤ most) (hex : ∀ d ∈ digits, IsHex d) : IsUnit ('\\' :: letter :: digits)
  | unknown {letter : Char} (unnamed : ∀ c, (letter, c) ∉ namedEscapes)
      (uncoded : ∀ bounds, (letter, bounds) ∉ codedEscapes) : IsUnit ['\\', letter]
  | lone : IsUnit ['\\']

/-- The unit is an escape for the character. -/
inductive Denotes : List Char → Char → Prop
  | named {letter c : Char} (known : (letter, c) ∈ namedEscapes) : Denotes ['\\', letter] c
  | coded {letter c : Char} {least most : Nat} {digits : List Char} (known : (letter, least, most) ∈ codedEscapes)
      (enough : least ≤ digits.length) (few : digits.length ≤ most) (number : Xml.IsNumeral 16 c.toNat digits) :
      Denotes ('\\' :: letter :: digits) c

inductive StandsFor : List Char → List Char → Prop
  | character {unit : List Char} {c : Char} (escape : Denotes unit c) : StandsFor unit [c]
  | itself {unit : List Char} (other : ∀ c, ¬ Denotes unit c) : StandsFor unit unit

/-- No longer unit opens the text. -/
structure IsLongest (unit text : List Char) : Prop where
  isUnit : IsUnit unit
  opens : unit <+: text
  longest : ∀ other, IsUnit other → other <+: text → other.length ≤ unit.length

/-- The units of a text, from left to right and each as long as it can be. -/
inductive Splits : List (List Char) → List Char → Prop
  | nil : Splits [] []
  | cons {unit rest : List Char} {units : List (List Char)} (first : IsLongest unit (unit ++ rest))
      (others : Splits units rest) : Splits (unit :: units) (unit ++ rest)

private theorem IsUnit.ne_nil {unit : List Char} (isUnit : IsUnit unit) : unit ≠ [] := by
  cases isUnit <;> exact List.cons_ne_nil _ _

theorem IsLongest.eq {unit other text : List Char} (first : IsLongest unit text) (second : IsLongest other text) :
    unit = other := by
  have same : unit.length = other.length :=
    Nat.le_antisymm (second.longest unit first.isUnit first.opens) (first.longest other second.isUnit second.opens)
  exact (List.prefix_of_prefix_length_le first.opens second.opens (Nat.le_of_eq same)).eq_of_length same

/-- A longest unit stays one when the text ends earlier. -/
theorem IsLongest.shorten {unit rest more : List Char} (first : IsLongest unit (unit ++ (rest ++ more))) :
    IsLongest unit (unit ++ rest) := by
  refine ⟨first.isUnit, List.prefix_append unit rest, ?_⟩
  intro other isUnit opens
  apply first.longest other isUnit
  rw [← List.append_assoc]
  exact opens.trans (List.prefix_append _ more)

theorem Splits.eq {units others : List (List Char)} {text : List Char} (first : Splits units text)
    (second : Splits others text) : units = others := by
  induction first generalizing others with
  | nil =>
    generalize empty : ([] : List Char) = text at second
    cases second with
    | nil => rfl
    | cons longest _ => exact absurd (List.append_eq_nil_iff.mp empty.symm).1 longest.isUnit.ne_nil
  | @cons unit rest units longest _ ih =>
    generalize whole : unit ++ rest = text at second longest
    cases second with
    | nil => exact absurd (List.append_eq_nil_iff.mp whole).1 longest.isUnit.ne_nil
    | cons other more =>
      obtain rfl := longest.eq other
      rw [List.append_cancel_left_eq] at whole
      rw [ih (whole ▸ more)]

/-! ## The tables -/

private theorem simpleEscape?_eq_some_iff {letter c : Char} :
    simpleEscape? letter = some c ↔ (letter, c) ∈ namedEscapes := by
  unfold simpleEscape?
  split <;> simp_all [namedEscapes, eq_comm]

private theorem digitBounds?_eq_some_iff {letter : Char} {bounds : Nat × Nat} :
    digitBounds? letter = some bounds ↔ (letter, bounds) ∈ codedEscapes := by
  unfold digitBounds?
  split <;> simp_all [codedEscapes, eq_comm]

private theorem simpleEscape?_of_coded {letter : Char} {bounds : Nat × Nat} (known : (letter, bounds) ∈ codedEscapes) :
    simpleEscape? letter = none := by
  simp only [codedEscapes, List.mem_cons, Prod.mk.injEq, List.not_mem_nil, or_false] at known
  rcases known with ⟨rfl, _⟩ | ⟨rfl, _⟩ | ⟨rfl, _⟩ <;> rfl

/-- No letter both names a character and takes digits. -/
theorem not_mem_namedEscapes {letter c : Char} {bounds : Nat × Nat} (known : (letter, bounds) ∈ codedEscapes) :
    (letter, c) ∉ namedEscapes := by
  intro named
  cases (simpleEscape?_eq_some_iff.mpr named).symm.trans (simpleEscape?_of_coded known)

private theorem codedEscapes_bounds_eq {letter : Char} {bounds others : Nat × Nat}
    (first : (letter, bounds) ∈ codedEscapes) (second : (letter, others) ∈ codedEscapes) : bounds = others :=
  Option.some.inj ((digitBounds?_eq_some_iff.mpr first).symm.trans (digitBounds?_eq_some_iff.mpr second))

/-! ## Hexadecimal numbers -/

private theorem hexDigit_of_isDigit {digit : Nat} {c : Char} (spelled : Xml.IsDigit 16 digit c) :
    isHexDigit c = true ∧ hexDigitValue c = digit := by
  have table : ∀ d < 16, (isHexDigit d.digitChar = true ∧ hexDigitValue d.digitChar = d) ∧
      isHexDigit d.digitChar.toUpper = true ∧ hexDigitValue d.digitChar.toUpper = d := by decide
  obtain ⟨below, rfl | rfl⟩ := spelled
  · exact (table digit below).1
  · exact (table digit below).2

private theorem isDigit_of_isHexDigit {c : Char} (hex : isHexDigit c = true) : Xml.IsDigit 16 (hexDigitValue c) c := by
  have range : 48 ≤ c.toNat ∧ c.toNat ≤ 57 ∨ 97 ≤ c.toNat ∧ c.toNat ≤ 102 ∨ 65 ≤ c.toNat ∧ c.toNat ≤ 70 := by
    simp only [isHexDigit, Bool.or_eq_true, Bool.and_eq_true, decide_eq_true_eq, Char.isDigit_iff_toNat] at hex
    rcases hex with (digit | ⟨least, most⟩) | ⟨least, most⟩
    · exact .inl digit
    · exact .inr (.inl ⟨least, most⟩)
    · exact .inr (.inr ⟨least, most⟩)
  have small : ∀ n < 103, (48 ≤ n ∧ n ≤ 57 ∨ 97 ≤ n ∧ n ≤ 102 ∨ 65 ≤ n ∧ n ≤ 70) →
      hexDigitValue (Char.ofNat n) < 16 ∧ (Char.ofNat n = (hexDigitValue (Char.ofNat n)).digitChar ∨
        Char.ofNat n = (hexDigitValue (Char.ofNat n)).digitChar.toUpper) := by decide
  have found := small c.toNat (by omega) range
  rwa [Char.ofNat_toNat] at found

theorem isHexDigit_iff {c : Char} : isHexDigit c = true ↔ IsHex c := by
  constructor
  · intro hex
    exact ⟨_, isDigit_of_isHexDigit hex⟩
  · rintro ⟨digit, spelled⟩
    exact (hexDigit_of_isDigit spelled).1

private theorem forall_isHexDigit_iff {digits : List Char} :
    (∀ d ∈ digits, isHexDigit d = true) ↔ List.Forall₂ (Xml.IsDigit 16) (digits.map hexDigitValue) digits := by
  rw [List.forall₂_map_left_iff, List.forall₂_same]
  apply forall₂_congr
  intro d _
  exact ⟨isDigit_of_isHexDigit, fun spelled => (hexDigit_of_isDigit spelled).1⟩

/-- Digits spell the number that is computed from them. -/
theorem isNumeral_iff {number : Nat} {digits : List Char} :
    Xml.IsNumeral 16 number digits ↔
      digits ≠ [] ∧ (∀ d ∈ digits, isHexDigit d = true) ∧ hexValue digits = number := by
  have value : Nat.ofDigits 16 (digits.map hexDigitValue).reverse = hexValue digits := by
    rw [Nat.ofDigits_eq_foldr, List.foldr_reverse, List.foldl_map, hexValue]
    simp only [Nat.cast_id, Nat.add_comm]
  constructor
  · rintro ⟨values, given, spelled, rfl⟩
    have own : values = digits.map hexDigitValue := by
      clear given value
      induction spelled with
      | nil => rfl
      | cons first _ ih => rw [List.map_cons, (hexDigit_of_isDigit first).2, ← ih]
    subst own
    exact ⟨by simpa using given, forall_isHexDigit_iff.mpr spelled, value.symm⟩
  · rintro ⟨given, hex, rfl⟩
    exact ⟨_, by simpa using given, forall_isHexDigit_iff.mp hex, value⟩

theorem isNumeral_eq_iff {number other : Nat} {digits : List Char} (spelled : Xml.IsNumeral 16 number digits) :
    Xml.IsNumeral 16 other digits ↔ other = number := by
  constructor
  · intro same
    exact (isNumeral_iff.mp same).2.2.symm.trans (isNumeral_iff.mp spelled).2.2
  · rintro rfl
    exact spelled

private theorem scalar?_eq_some_iff {code : Nat} {c : Char} : scalar? code = some c ↔ c.toNat = code := by
  by_cases valid : code.isValidChar
  · rw [scalar?, dif_pos valid, Option.some.injEq]
    constructor
    · rintro rfl
      rfl
    · rintro rfl
      exact Char.toNat_inj.mp rfl
  · rw [scalar?, dif_neg valid]
    constructor
    · intro none
      cases none
    · rintro rfl
      exact absurd c.valid valid

/-! ## The longest unit -/

private theorem escapeDigits_prefix (most : Nat) (text : List Char) : escapeDigits most text <+: text :=
  (List.takeWhile_prefix _).trans (List.take_prefix most text)

private theorem isHexDigit_of_mem_escapeDigits {most : Nat} {text : List Char} {d : Char}
    (member : d ∈ escapeDigits most text) : isHexDigit d = true :=
  List.mem_takeWhile_imp member

private theorem length_escapeDigits_le (most : Nat) (text : List Char) : (escapeDigits most text).length ≤ most :=
  (List.takeWhile_prefix _).length_le.trans (List.length_take_le most text)

/-- Digits that are all there are, or as many as may be taken, are the ones that are taken. -/
theorem escapeDigits_append {most : Nat} {digits rest : List Char} (few : digits.length ≤ most)
    (hex : ∀ d ∈ digits, isHexDigit d = true)
    (ends : digits.length = most ∨ ∀ d, rest.head? = some d → isHexDigit d = false) :
    escapeDigits most (digits ++ rest) = digits := by
  rw [escapeDigits, List.take_append, List.take_of_length_le few, List.takeWhile_append_of_pos hex]
  rcases ends with full | ends
  · simp [full]
  · cases rest with
    | nil => simp
    | cons d rest => cases most - digits.length <;> simp [ends d rfl]

/-- Digits at the front of a text are among those that are taken. -/
theorem length_le_escapeDigits {most : Nat} {digits text : List Char} (few : digits.length ≤ most)
    (hex : ∀ d ∈ digits, isHexDigit d = true) (opens : digits <+: text) :
    digits.length ≤ (escapeDigits most text).length := by
  obtain ⟨rest, taken⟩ := List.prefix_take_iff.mpr ⟨opens, few⟩
  rw [escapeDigits, ← taken, List.takeWhile_append_of_pos hex, List.length_append]
  exact Nat.le_add_right _ _

/-- A unit at a backslash and a letter is no longer than the two, unless the letter is followed by digits. -/
theorem IsUnit.length_le {unit tail : List Char} {letter : Char} (isUnit : IsUnit unit)
    (opens : unit <+: '\\' :: letter :: tail) :
    unit.length ≤ 2 ∨ ∃ least most, (letter, least, most) ∈ codedEscapes ∧
      unit.length ≤ 2 + (escapeDigits most tail).length := by
  cases isUnit with
  | plain other => exact .inl (by simp)
  | named known => exact .inl (by simp)
  | unknown unnamed uncoded => exact .inl (by simp)
  | lone => exact .inl (by simp)
  | @coded own least most digits known few hex =>
    simp only [List.cons_prefix_cons, true_and] at opens
    obtain ⟨rfl, opens⟩ := opens
    refine .inr ⟨least, most, known, ?_⟩
    have taken := length_le_escapeDigits few (fun d member => isHexDigit_iff.mpr (hex d member)) opens
    simp only [List.length_cons]
    omega

private theorem isLongest_plain {c : Char} (other : c ≠ '\\') (rest : List Char) : IsLongest [c] ([c] ++ rest) := by
  refine ⟨.plain other, List.prefix_append [c] rest, ?_⟩
  intro unit isUnit opens
  cases isUnit with
  | plain | lone => exact Nat.le_refl 1
  | named | unknown | coded =>
    simp only [List.singleton_append, List.cons_prefix_cons] at opens
    exact absurd opens.1.symm other

private theorem isLongest_lone : IsLongest ['\\'] ['\\'] :=
  ⟨.lone, List.prefix_refl _, fun _ _ opens => opens.length_le⟩

/-- A backslash and a letter that takes no digits are a longest unit, known or not. -/
theorem isLongest_pair {letter : Char} (uncoded : ∀ bounds, (letter, bounds) ∉ codedEscapes) (rest : List Char) :
    IsLongest ['\\', letter] (['\\', letter] ++ rest) := by
  have isUnit : IsUnit ['\\', letter] := by
    by_cases named : ∃ c, (letter, c) ∈ namedEscapes
    · obtain ⟨c, known⟩ := named
      exact .named known
    · exact .unknown (not_exists.mp named) uncoded
  refine ⟨isUnit, List.prefix_append _ rest, ?_⟩
  intro unit other opens
  rcases other.length_le opens with short | ⟨least, most, known, _⟩
  · exact short
  · exact absurd known (uncoded _)

/-- A backslash, a letter that takes digits and the digits that it takes are a longest unit. -/
theorem isLongest_coded {letter : Char} {least most : Nat} {digits rest : List Char}
    (known : (letter, least, most) ∈ codedEscapes) (taken : escapeDigits most (digits ++ rest) = digits) :
    IsLongest ('\\' :: letter :: digits) ('\\' :: letter :: digits ++ rest) := by
  refine ⟨?_, List.prefix_append _ rest, ?_⟩
  · rw [← taken]
    exact .coded known (length_escapeDigits_le most _)
      fun d member => isHexDigit_iff.mp (isHexDigit_of_mem_escapeDigits member)
  · intro unit other opens
    rw [List.cons_append, List.cons_append] at opens
    simp only [List.length_cons]
    rcases other.length_le opens with short | ⟨_, own, same, short⟩
    · omega
    · cases codedEscapes_bounds_eq same known
      rw [taken] at short
      omega

/-! ## What a unit stands for -/

theorem denotes_coded_iff {letter c : Char} {least most : Nat} {digits : List Char}
    (known : (letter, least, most) ∈ codedEscapes) :
    Denotes ('\\' :: letter :: digits) c ↔
      least ≤ digits.length ∧ digits.length ≤ most ∧ Xml.IsNumeral 16 c.toNat digits := by
  constructor
  · intro escape
    cases escape with
    | named other => exact absurd other (not_mem_namedEscapes known)
    | coded own enough few number =>
      cases codedEscapes_bounds_eq own known
      exact ⟨enough, few, number⟩
  · rintro ⟨enough, few, number⟩
    exact .coded known enough few number

theorem Denotes.eq {unit : List Char} {c d : Char} (first : Denotes unit c) (second : Denotes unit d) : c = d := by
  cases first with
  | named known =>
    cases second with
    | named other => exact Option.some.inj ((simpleEscape?_eq_some_iff.mpr known).symm.trans
        (simpleEscape?_eq_some_iff.mpr other))
    | coded other => exact absurd known (not_mem_namedEscapes other)
  | coded known _ _ number =>
    obtain ⟨_, _, other⟩ := (denotes_coded_iff known).mp second
    exact Char.toNat_inj.mp ((isNumeral_eq_iff other).mp number)

theorem StandsFor.eq {unit value other : List Char} (first : StandsFor unit value) (second : StandsFor unit other) :
    value = other := by
  cases first with
  | character escape =>
    cases second with
    | character same => rw [escape.eq same]
    | itself nothing => exact absurd escape (nothing _)
  | itself nothing =>
    cases second with
    | character escape => exact absurd escape (nothing _)
    | itself => rfl

private theorem standsFor_coded {letter : Char} {least most : Nat} {digits : List Char}
    (known : (letter, least, most) ∈ codedEscapes) (few : digits.length ≤ most)
    (hex : ∀ d ∈ digits, isHexDigit d = true) :
    StandsFor ('\\' :: letter :: digits) (Piece.coded letter least digits).value := by
  have some_digit : 1 ≤ least := by
    simp only [codedEscapes, List.mem_cons, Prod.mk.injEq, List.not_mem_nil, or_false] at known
    omega
  rw [Piece.value]
  split
  · rename_i c found
    obtain ⟨enough, found⟩ := Option.ite_none_right_eq_some.mp found
    have given : digits ≠ [] := by
      rintro rfl
      exact absurd enough (by simp; omega)
    exact .character (.coded known enough few (isNumeral_iff.mpr ⟨given, hex, (scalar?_eq_some_iff.mp found).symm⟩))
  · rename_i missing
    refine .itself ?_
    intro c escape
    obtain ⟨enough, _, number⟩ := (denotes_coded_iff known).mp escape
    rw [if_pos enough, scalar?_eq_some_iff.mpr (isNumeral_iff.mp number).2.2.symm] at missing
    cases missing

/-! ## Decoding -/

private theorem piecesAfter_eq (pending : Nat) (text : List Char) :
    piecesAfter pending text = pieces (text.drop pending) := by
  induction pending generalizing text with
  | zero => rfl
  | succ pending ih =>
    cases text with
    | nil => rfl
    | cons c rest => rw [piecesAfter, ih, List.drop_succ_cons]

/-- A backslash and a letter are decoded together with the digits that the letter takes. -/
theorem unescape_cons_escape (letter : Char) (tail : List Char) :
    unescape ('\\' :: letter :: tail) = (escapePiece letter tail).value ++
      unescape ((letter :: tail).drop ((escapePiece letter tail).spelling.length - 1)) := by
  rw [unescape, unescape, pieces, piecesAfter, if_pos rfl]
  simp only [piecesAfter_eq, List.flatMap_cons]

private theorem unescape_cons_coded {letter : Char} {least most : Nat} {digits rest : List Char}
    (known : (letter, least, most) ∈ codedEscapes) (taken : escapeDigits most (digits ++ rest) = digits) :
    unescape ('\\' :: letter :: digits ++ rest) = (Piece.coded letter least digits).value ++ unescape rest := by
  have piece : escapePiece letter (digits ++ rest) = .coded letter least digits := by
    simp only [escapePiece, simpleEscape?_of_coded known, digitBounds?_eq_some_iff.mpr known, taken]
  rw [List.cons_append, List.cons_append, unescape_cons_escape, piece]
  simp [Piece.spelling]

private theorem unescape_cons_unknown {letter : Char} (unnamed : simpleEscape? letter = none)
    (uncoded : digitBounds? letter = none) (rest : List Char) :
    unescape ('\\' :: letter :: rest) = '\\' :: letter :: unescape rest := by
  simp [unescape_cons_escape, escapePiece, unnamed, uncoded, Piece.spelling, Piece.value]

private theorem not_denotes_singleton (c d : Char) : ¬ Denotes [c] d := by
  rintro ⟨⟩

/-- At the front of every text stands a longest unit, and decoding takes it as what it stands for. -/
theorem exists_unescape_unit {text : List Char} (given : text ≠ []) :
    ∃ unit rest value, text = unit ++ rest ∧ IsLongest unit text ∧ StandsFor unit value ∧
      unescape text = value ++ unescape rest := by
  obtain ⟨c, tail, rfl⟩ := List.exists_cons_of_ne_nil given
  by_cases plain : c ≠ '\\'
  · exact ⟨[c], tail, [c], rfl, isLongest_plain plain tail, .itself (not_denotes_singleton c),
      unescape_cons_plain plain tail⟩
  obtain rfl := not_not.mp plain
  cases tail with
  | nil => exact ⟨['\\'], [], ['\\'], rfl, isLongest_lone, .itself (not_denotes_singleton '\\'), rfl⟩
  | cons letter tail =>
    cases coded : digitBounds? letter with
    | some bounds =>
      obtain ⟨least, most⟩ := bounds
      have known := digitBounds?_eq_some_iff.mp coded
      obtain ⟨rest, whole⟩ := escapeDigits_prefix most tail
      have taken : escapeDigits most (escapeDigits most tail ++ rest) = escapeDigits most tail := by rw [whole]
      have stands := standsFor_coded known (length_escapeDigits_le most tail)
        fun d member => isHexDigit_of_mem_escapeDigits member
      refine ⟨'\\' :: letter :: escapeDigits most tail, rest, _, ?_, ?_, stands, ?_⟩
      · rw [List.cons_append, List.cons_append, whole]
      · simpa only [List.cons_append, whole] using isLongest_coded known taken
      · simpa only [List.cons_append, whole] using unescape_cons_coded known taken
    | none =>
      have uncoded : ∀ bounds, (letter, bounds) ∉ codedEscapes := by
        intro bounds known
        cases coded.symm.trans (digitBounds?_eq_some_iff.mpr known)
      have longest := isLongest_pair uncoded tail
      cases named : simpleEscape? letter with
      | some c =>
        exact ⟨['\\', letter], tail, [c], rfl, longest, .character (.named (simpleEscape?_eq_some_iff.mp named)),
          unescape_cons_named named tail⟩
      | none =>
        refine ⟨['\\', letter], tail, ['\\', letter], rfl, longest, .itself ?_, unescape_cons_unknown named coded tail⟩
        intro c escape
        cases escape with
        | named known => cases named.symm.trans (simpleEscape?_eq_some_iff.mpr known)
        | coded known => exact uncoded _ known

/-- Decoding takes a longest unit as what it stands for, whatever follows. -/
theorem unescape_unit {unit rest value : List Char} (longest : IsLongest unit (unit ++ rest))
    (stands : StandsFor unit value) : unescape (unit ++ rest) = value ++ unescape rest := by
  have given : unit ++ rest ≠ [] := List.append_ne_nil_of_left_ne_nil longest.isUnit.ne_nil rest
  obtain ⟨own, tail, found, whole, other, same, decoded⟩ := exists_unescape_unit given
  obtain rfl := longest.eq other
  rw [List.append_cancel_left_eq] at whole
  rw [decoded, stands.eq same, whole]

private theorem exists_standsFor (unit : List Char) : ∃ value, StandsFor unit value := by
  by_cases escape : ∃ c, Denotes unit c
  · obtain ⟨c, denotes⟩ := escape
    exact ⟨[c], .character denotes⟩
  · exact ⟨unit, .itself (not_exists.mp escape)⟩

private theorem exists_splits (text : List Char) : ∃ units, Splits units text := by
  induction size : text.length using Nat.strong_induction_on generalizing text with
  | _ length ih =>
    by_cases given : text = []
    · exact ⟨[], given ▸ .nil⟩
    obtain ⟨unit, rest, _, rfl, longest, _⟩ := exists_unescape_unit given
    have shorter : rest.length < length := by
      have := List.length_pos_iff.mpr longest.isUnit.ne_nil
      rw [← size, List.length_append]
      omega
    obtain ⟨units, others⟩ := ih rest.length shorter rest rfl
    exact ⟨unit :: units, .cons longest others⟩

theorem Splits.flatten {units : List (List Char)} {text : List Char} (splits : Splits units text) :
    units.flatten = text := by
  induction splits with
  | nil => rfl
  | cons _ _ ih => rw [List.flatten_cons, ih]

private theorem Splits.of_cons {unit text : List Char} {units : List (List Char)}
    (splits : Splits (unit :: units) text) : IsLongest unit (unit ++ units.flatten) ∧ Splits units units.flatten := by
  cases splits with
  | cons longest others =>
    rw [others.flatten]
    exact ⟨longest, others⟩

/-- A text decodes to what its units stand for, one after the other. -/
theorem Splits.unescape {units : List (List Char)} {text : List Char} (splits : Splits units text) :
    ∃ values, List.Forall₂ StandsFor units values ∧ unescape text = values.flatten := by
  induction splits with
  | nil => exact ⟨[], .nil, rfl⟩
  | @cons unit rest units longest _ ih =>
    obtain ⟨value, stands⟩ := exists_standsFor unit
    obtain ⟨values, others, decoded⟩ := ih
    refine ⟨value :: values, .cons stands others, ?_⟩
    rw [unescape_unit longest stands, decoded, List.flatten_cons]

theorem Splits.right {front back : List (List Char)} {text : List Char} (splits : Splits (front ++ back) text) :
    Splits back back.flatten := by
  induction front generalizing text with
  | nil => exact splits.flatten.symm ▸ splits
  | cons unit front ih => exact ih splits.of_cons.2

/-- What stands before and behind a place between two units is decoded as if it stood alone. -/
theorem Splits.unescape_append {front back : List (List Char)} {text : List Char}
    (splits : Splits (front ++ back) text) :
    Literal.unescape text = Literal.unescape front.flatten ++ Literal.unescape back.flatten := by
  rw [← splits.flatten]
  induction front generalizing text with
  | nil => rfl
  | cons unit front ih =>
    rw [List.cons_append] at splits
    obtain ⟨longest, others⟩ := splits.of_cons
    obtain ⟨value, stands⟩ := exists_standsFor unit
    have alone : IsLongest unit (unit ++ front.flatten) := by
      rw [List.flatten_append] at longest
      exact longest.shorten
    rw [List.cons_append, List.flatten_cons, unescape_unit longest stands, ih others, List.flatten_cons,
      unescape_unit alone stands, List.append_assoc]

private theorem unescape_of_not_mem {text : List Char} (plain : '\\' ∉ text) : unescape text = text := by
  induction text with
  | nil => rfl
  | cons c text ih =>
    obtain ⟨other, plain⟩ := List.ne_and_not_mem_of_not_mem_cons plain
    rw [unescape_cons_plain other.symm, ih plain]

/-- Every text has one split into longest units and decodes to what they stand for, in order. A unit that denotes no
character is kept as it is spelled, and the text on both sides of it is decoded as if it stood alone. So a text without
a backslash is kept as a whole. -/
theorem unescape_splits (text : List Char) :
    (∃! units, Splits units text) ∧
    (∀ units, Splits units text → ∃ values, List.Forall₂ StandsFor units values ∧ unescape text = values.flatten) ∧
    (∀ front unit back, Splits (front ++ unit :: back) text → (∀ c, ¬ Denotes unit c) →
      unescape text = unescape front.flatten ++ unit ++ unescape back.flatten) ∧
    ('\\' ∉ text → unescape text = text) := by
  refine ⟨?_, fun _ => Splits.unescape, ?_, unescape_of_not_mem⟩
  · obtain ⟨units, splits⟩ := exists_splits text
    exact ⟨units, splits, fun _ other => other.eq splits⟩
  · intro front unit back splits nothing
    have longest := splits.right.of_cons.1
    rw [splits.unescape_append, List.flatten_cons, unescape_unit longest (.itself nothing), List.append_assoc]

/-- An escape with too few digits before another escape, and a backslash at the end. -/
theorem unescape_splits_malformed :
    Splits [['g'], ['\\', 'u', '1', '2'], ['\\', 'x', '4', '1'], ['\\']] "g\\u12\\x41\\".toList ∧
      (∀ c, ¬ Denotes ['\\', 'u', '1', '2'] c) ∧ unescape "g\\u12\\x41\\".toList = "g\\u12A\\".toList := by
  have whole : "g\\u12\\x41\\".toList = ['g', '\\', 'u', '1', '2', '\\', 'x', '4', '1', '\\'] := by decide
  have short : ('u', 4, 4) ∈ codedEscapes := by decide
  have varying : ('x', 1, 4) ∈ codedEscapes := by decide
  have first : IsLongest ['\\', 'u', '1', '2'] (['\\', 'u', '1', '2'] ++ ['\\', 'x', '4', '1', '\\']) :=
    isLongest_coded short rfl
  have second : IsLongest ['\\', 'x', '4', '1'] (['\\', 'x', '4', '1'] ++ ['\\']) := isLongest_coded varying rfl
  have splits : Splits [['g'], ['\\', 'u', '1', '2'], ['\\', 'x', '4', '1'], ['\\']]
      ['g', '\\', 'u', '1', '2', '\\', 'x', '4', '1', '\\'] :=
    .cons (isLongest_plain (by decide) _) (.cons first (.cons second (.cons isLongest_lone .nil)))
  have nothing : ∀ c, ¬ Denotes ['\\', 'u', '1', '2'] c := by
    intro c escape
    exact absurd ((denotes_coded_iff short).mp escape).1 (by decide)
  rw [whole]
  refine ⟨splits, nothing, ?_⟩
  rw [(unescape_splits _).2.2.1 [['g']] _ _ splits nothing]
  decide

end TextHarvest.CSharp.Literal
