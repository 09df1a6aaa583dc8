import Mathlib.Data.List.Forall2
import Mathlib.Data.Nat.Digits.Defs
import TextHarvest.Xml.Reference

/-! # Spellings of attribute values

A character of an attribute value may stand for itself, or it may be written as a predefined entity or as a reference
to its number, decimal or hexadecimal. `Spells` says which texts spell a value between given quotes, and
`resolve_of_spells` that resolving such a text gives the value back, whatever mixture of spellings it uses.
-/

namespace TextHarvest.Xml

/-! ## Numbers -/

/-- The character is a digit of the given base with the given value. Letters may be small or capital. -/
def IsDigit (base digit : Nat) (c : Char) : Prop :=
  digit < base ∧ (c = digit.digitChar ∨ c = digit.digitChar.toUpper)

/-- The text spells a number in the given base, most significant digit first and possibly with zeros in front. -/
def IsNumeral (base number : Nat) (text : List Char) : Prop :=
  ∃ digits : List Nat, digits ≠ [] ∧ List.Forall₂ (IsDigit base) digits text ∧
    Nat.ofDigits base digits.reverse = number

/-- A hexadecimal digit is a digit of any base that its value is below. -/
theorem digit?_of_lt {base digit : Nat} {c : Char} (hexadecimal : digit? 16 c = some digit) (below : digit < base) :
    digit? base c = some digit := by
  unfold digit? at hexadecimal ⊢
  dsimp only at hexadecimal ⊢
  split_ifs at hexadecimal ⊢ <;> simp only [Option.some.injEq] at hexadecimal ⊢ <;> omega

private theorem digit?_of_isDigit {base digit : Nat} {c : Char} (small : base ≤ 16) (spelled : IsDigit base digit c) :
    digit? base c = some digit := by
  have table : ∀ d < 16, digit? 16 d.digitChar = some d ∧ digit? 16 d.digitChar.toUpper = some d := by decide
  obtain ⟨below, spelled⟩ := spelled
  obtain ⟨lower, upper⟩ := table digit (by omega)
  apply digit?_of_lt _ below
  rcases spelled with rfl | rfl
  · exact lower
  · exact upper

/-- What is a digit in no base stands in no number. -/
theorem not_mem_of_digits {base : Nat} {digits : List Nat} {text : List Char} (small : base ≤ 16)
    (spelled : List.Forall₂ (IsDigit base) digits text) {c : Char} (other : digit? base c = none) : c ∉ text := by
  induction spelled with
  | nil => exact List.not_mem_nil
  | cons first _ ih =>
    rw [List.mem_cons, not_or]
    refine ⟨?_, ih⟩
    rintro rfl
    rw [digit?_of_isDigit small first] at other
    cases other

/-- Reading digits only makes a number larger, so a number that fits is never cut off on the way. -/
theorem readDigits_of_digits {base : Nat} {digits : List Nat} {text : List Char} (small : base ≤ 16) (large : 0 < base)
    (spelled : List.Forall₂ (IsDigit base) digits text) (number : Nat)
    (fits : digits.foldl (fun number digit => digit + base * number) number < 0x100000000) :
    readDigits base number text = .ok (digits.foldl (fun number digit => digit + base * number) number) := by
  have grows (digits : List Nat) (number : Nat) :
      number ≤ digits.foldl (fun number digit => digit + base * number) number := by
    induction digits generalizing number with
    | nil => exact le_rfl
    | cons digit digits ih =>
      calc
        number ≤ base * number := Nat.le_mul_of_pos_left number large
        _ ≤ digit + base * number := Nat.le_add_left _ _
        _ ≤ _ := ih _
  induction spelled generalizing number with
  | nil => rfl
  | @cons digit c digits text first _ ih =>
    have next : base * number + digit < 0x100000000 := by
      have := grows digits (digit + base * number)
      rw [List.foldl_cons] at fits
      omega
    rw [readDigits, digit?_of_isDigit small first]
    dsimp only
    rw [if_pos next, Nat.add_comm, List.foldl_cons]
    exact ih _ fits

private theorem readNumber_of_isNumeral {base number : Nat} {text : List Char} (small : base ≤ 16) (large : 0 < base)
    (spelled : IsNumeral base number text) (fits : number < 0x100000000) : readNumber base text = .ok number := by
  obtain ⟨digits, some_digit, spelled, rfl⟩ := spelled
  have value : Nat.ofDigits base digits.reverse = digits.foldl (fun number digit => digit + base * number) 0 := by
    rw [Nat.ofDigits_eq_foldr, List.foldr_reverse]
    rfl
  have nonempty : text ≠ [] := by
    rintro rfl
    exact some_digit (List.forall₂_nil_right_iff.mp spelled)
  rw [value] at fits ⊢
  rw [readNumber, if_neg nonempty]
  exact readDigits_of_digits small large spelled 0 fits

/-! ## References -/

/-- The predefined entities and their characters. -/
def predefined : List (List Char × Char) :=
  [("lt".toList, '<'), ("gt".toList, '>'), ("amp".toList, '&'), ("apos".toList, '\''), ("quot".toList, '"')]

/-- What may stand between the ampersand and the semicolon of a reference to a character. -/
inductive Refers : List Char → Char → Prop
  | entity {name : List Char} {c : Char} (known : (name, c) ∈ predefined) : Refers name c
  | decimal {digits : List Char} {c : Char} (nonnull : c.toNat ≠ 0) (spelled : IsNumeral 10 c.toNat digits) :
      Refers ('#' :: digits) c
  | hexadecimal {digits : List Char} {c : Char} (nonnull : c.toNat ≠ 0) (spelled : IsNumeral 16 c.toNat digits) :
      Refers ('#' :: 'x' :: digits) c

private theorem referenceCharacter_eq_ok {spelling : List Char} {c : Char} (nonnull : c.toNat ≠ 0)
    (spelled : referenceCode spelling = .ok c.toNat) : referenceCharacter spelling = .ok c := by
  have valid : c.toNat.isValidChar := c.valid
  rw [referenceCharacter, spelled]
  dsimp only
  rw [if_neg nonnull, dif_pos valid]
  have same := Char.ofNat_toNat c
  rw [Char.ofNat, dif_pos valid] at same
  exact congrArg Except.ok same

private theorem referenceCode_of_isNumeral {c : Char} {digits : List Char} :
    (IsNumeral 10 c.toNat digits → referenceCode digits = .ok c.toNat) ∧
      (IsNumeral 16 c.toNat digits → referenceCode ('x' :: digits) = .ok c.toNat) := by
  have fits : c.toNat < 0x100000000 := c.val.toNat_lt
  have unsigned {base : Nat} {spelled : List Nat} {text : List Char} (small : base ≤ 16)
      (spelling : List.Forall₂ (IsDigit base) spelled text) : ¬ (text.head? = some '+' ∨ text.head? = some '-') := by
    rintro (sign | sign)
    · exact not_mem_of_digits small spelling (by simp [digit?]) (List.mem_of_head? sign)
    · exact not_mem_of_digits small spelling (by simp [digit?]) (List.mem_of_head? sign)
  constructor
  · intro numeral
    have read := readNumber_of_isNumeral (by decide) (by decide) numeral fits
    obtain ⟨_, _, spelled, _⟩ := numeral
    have no_letter : 'x' ∉ digits := not_mem_of_digits (by decide) spelled (by decide)
    unfold referenceCode
    split
    next base text chosen =>
    split at chosen
    · exact absurd List.mem_cons_self no_letter
    · cases chosen
      simp only [unsigned (by decide) spelled, ↓reduceIte, read]
  · intro numeral
    have read := readNumber_of_isNumeral (by decide) (by decide) numeral fits
    obtain ⟨_, _, spelled, _⟩ := numeral
    simp only [referenceCode, unsigned (by decide) spelled, ↓reduceIte, read]

private theorem referenced_of_refers {name : List Char} {c : Char} (refers : Refers name c) (offset : Nat) :
    referenced offset name = .ok c := by
  cases refers with
  | entity known =>
    simp only [predefined, List.mem_cons, Prod.mk.injEq, List.not_mem_nil, or_false] at known
    rcases known with ⟨rfl, rfl⟩ | ⟨rfl, rfl⟩ | ⟨rfl, rfl⟩ | ⟨rfl, rfl⟩ | ⟨rfl, rfl⟩ <;> rfl
  | decimal nonnull spelled =>
    simp only [referenced, referenceCharacter_eq_ok nonnull (referenceCode_of_isNumeral.1 spelled)]
  | hexadecimal nonnull spelled =>
    simp only [referenced, referenceCharacter_eq_ok nonnull (referenceCode_of_isNumeral.2 spelled)]

/-- The characters that delimit references and values do not stand in the name of a reference. -/
theorem not_mem_of_refers {name : List Char} {c : Char} (refers : Refers name c) {mark : Char}
    (delimits : mark ∈ [';', '&', '"', '\'']) : mark ∉ name := by
  have no_digit {base : Nat} {digits : List Nat} {text : List Char} (small : base ≤ 16)
      (spelled : List.Forall₂ (IsDigit base) digits text) : mark ∉ text := by
    apply not_mem_of_digits small spelled
    simp only [List.mem_cons, List.not_mem_nil, or_false] at delimits
    rcases delimits with rfl | rfl | rfl | rfl <;> simp [digit?]
  cases refers with
  | entity known =>
    simp only [predefined, List.mem_cons, Prod.mk.injEq, List.not_mem_nil, or_false] at known delimits
    rcases known with ⟨rfl, rfl⟩ | ⟨rfl, rfl⟩ | ⟨rfl, rfl⟩ | ⟨rfl, rfl⟩ | ⟨rfl, rfl⟩ <;>
      rcases delimits with rfl | rfl | rfl | rfl <;> decide
  | decimal _ spelled =>
    obtain ⟨_, _, spelled, _⟩ := spelled
    have rest := no_digit (by decide) spelled
    rw [List.mem_cons, not_or]
    refine ⟨?_, rest⟩
    rintro rfl
    revert delimits
    decide
  | hexadecimal _ spelled =>
    obtain ⟨_, _, spelled, _⟩ := spelled
    have rest := no_digit (by decide) spelled
    rw [List.mem_cons, List.mem_cons, not_or, not_or]
    refine ⟨?_, ?_, rest⟩
    · rintro rfl
      revert delimits
      decide
    · rintro rfl
      revert delimits
      decide

/-! ## Values -/

/-- The text spells the value between the given quotes. A character may stand for itself unless it is the ampersand or
the quote. -/
inductive Spells (quote : Char) : List Char → List Char → Prop
  | nil : Spells quote [] []
  | raw {c : Char} {value text : List Char} (no_ampersand : c ≠ '&') (no_quote : c ≠ quote) :
      Spells quote value text → Spells quote (c :: value) (c :: text)
  | reference {c : Char} {name value text : List Char} (refers : Refers name c) :
      Spells quote value text → Spells quote (c :: value) ('&' :: (name ++ ';' :: text))

private theorem referenceName?_append {name : List Char} (no_semicolon : ';' ∉ name) (no_ampersand : '&' ∉ name)
    (rest : List Char) : referenceName? (name ++ ';' :: rest) = some name := by
  induction name with
  | nil => rfl
  | cons c name ih =>
    rw [List.mem_cons, not_or] at no_semicolon no_ampersand
    rw [List.cons_append, referenceName?, if_neg (Ne.symm no_semicolon.1), if_neg (Ne.symm no_ampersand.1),
      ih no_semicolon.2 no_ampersand.2, Option.map_some]

/-- The characters of a reference that is done are passed over. -/
theorem resolveFrom_pending (size offset : Nat) (done rest : List Char) :
    resolveFrom size done.length offset (done ++ rest) = resolveFrom size 0 (offset + Text.byteLength done) rest := by
  induction done generalizing offset with
  | nil => rfl
  | cons c done ih =>
    rw [List.length_cons, List.cons_append, resolveFrom, ih, Text.byteLength_cons, Nat.add_assoc]

theorem resolveFrom_cons {c : Char} (no_ampersand : c ≠ '&') (size offset : Nat) (rest : List Char) :
    resolveFrom size 0 offset (c :: rest) = (resolveFrom size 0 (offset + c.utf8Size) rest).map (c :: ·) := by
  rw [resolveFrom, if_neg no_ampersand]
  cases resolveFrom size 0 (offset + c.utf8Size) rest <;> rfl

theorem resolveFrom_reference {name rest : List Char} (named : referenceName? (name ++ ';' :: rest) = some name)
    (size offset : Nat) :
    resolveFrom size 0 offset ('&' :: (name ++ ';' :: rest)) =
      match referenced (offset + 1) name with
      | .error fault => .error fault
      | .ok c => (resolveFrom size 0 (offset + 1 + Text.byteLength (name ++ [';'])) rest).map (c :: ·) := by
  have pending := resolveFrom_pending size (offset + 1) (name ++ [';']) rest
  rw [List.length_append, List.append_assoc, List.singleton_append, List.length_singleton] at pending
  rw [resolveFrom, if_pos rfl, named]
  dsimp only
  cases referenced (offset + 1) name with
  | error fault => rfl
  | ok c =>
    dsimp only
    rw [pending]
    cases resolveFrom size 0 (offset + 1 + Text.byteLength (name ++ [';'])) rest <;> rfl

private theorem resolveFrom_of_spells {quote : Char} {value text : List Char} (spells : Spells quote value text)
    (size offset : Nat) : resolveFrom size 0 offset text = .ok value := by
  induction spells generalizing offset with
  | nil => rfl
  | raw no_ampersand _ _ ih =>
    rw [resolveFrom_cons no_ampersand, ih]
    rfl
  | @reference c name value text refers _ ih =>
    have named :=
      referenceName?_append (not_mem_of_refers refers (by decide)) (not_mem_of_refers refers (by decide)) text
    rw [resolveFrom_reference named, referenced_of_refers refers]
    dsimp only
    rw [ih]
    rfl

/-- Resolving gives back what is spelled. -/
theorem resolve_of_spells {quote : Char} {value text : List Char} (spells : Spells quote value text) :
    resolve text = .ok value :=
  resolveFrom_of_spells spells _ 0

theorem quote_not_mem_of_spells {quote : Char} {value text : List Char} (quoting : quote = '"' ∨ quote = '\'')
    (spells : Spells quote value text) : quote ∉ text := by
  induction spells with
  | nil => exact List.not_mem_nil
  | raw _ no_quote _ ih =>
    rw [List.mem_cons, not_or]
    exact ⟨Ne.symm no_quote, ih⟩
  | @reference c name value text refers _ ih =>
    have outside : quote ≠ '&' ∧ quote ≠ ';' ∧ quote ∉ name := by
      rcases quoting with rfl | rfl
      · exact ⟨by decide, by decide, not_mem_of_refers refers (by decide)⟩
      · exact ⟨by decide, by decide, not_mem_of_refers refers (by decide)⟩
    simp [outside, ih]

end TextHarvest.Xml
