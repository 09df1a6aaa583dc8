import Mathlib.Data.List.Basic
import TextHarvest.Xml.Attribute

/-! # Attributes read piece by piece

What the steps of `valuesFrom` find when the next piece of a tag is there: blanks, a key with its equals sign, and a
value in quotes.
-/

namespace TextHarvest.Xml

theorem skipBlanks_append {gap : List Char} (blank : ∀ c ∈ gap, isBlank c = true) {first : Char}
    (visible : isBlank first = false) (offset : Nat) (rest : List Char) :
    skipBlanks offset (gap ++ first :: rest) = some (offset + Text.byteLength gap, first, rest) := by
  induction gap generalizing offset with
  | nil => simp [skipBlanks, visible]
  | cons c gap ih =>
    obtain ⟨here, later⟩ := List.forall_mem_cons.mp blank
    rw [List.cons_append, skipBlanks, if_pos here, ih later, Text.byteLength_cons, Nat.add_assoc]

theorem skipBlanks_of_blank {text : List Char} (blank : ∀ c ∈ text, isBlank c = true) (offset : Nat) :
    skipBlanks offset text = none := by
  induction text generalizing offset with
  | nil => rfl
  | cons c text ih =>
    obtain ⟨here, later⟩ := List.forall_mem_cons.mp blank
    rw [skipBlanks, if_pos here, ih later]

/-- A key ends at its equals sign. -/
theorem readKey_append {others : List Char} (plain : ∀ c ∈ others, c ≠ '=' ∧ isBlank c = false) (size offset : Nat)
    (first : Char) (rest : List Char) :
    readKey size offset first (others ++ '=' :: rest) =
      .ok (first :: others, offset + Text.byteLength (first :: others) + 1, rest) := by
  have tail : keyTail (others ++ '=' :: rest) = others := by
    rw [keyTail, List.takeWhile_append_of_pos, List.takeWhile_cons_of_neg, List.append_nil]
    · simp
    · intro c member
      simp [plain c member]
  have behind : (others ++ '=' :: rest).drop others.length = '=' :: rest := List.drop_left
  have equals : skipBlanks (offset + Text.byteLength (first :: others)) ('=' :: rest) =
      some (offset + Text.byteLength (first :: others), '=', rest) := rfl
  simp only [readKey, tail, behind, equals, ↓reduceIte]

/-- A value ends at the next quote of its kind. -/
theorem readValue_append {quote : Char} (quoting : quote = '"' ∨ quote = '\'') {value : List Char}
    (closed : quote ∉ value) (size offset : Nat) (rest : List Char) :
    readValue size offset (quote :: (value ++ quote :: rest)) =
      .ok (value, offset + 1 + Text.byteLength value + 1, rest) := by
  have visible : isBlank quote = false := by
    rcases quoting with rfl | rfl <;> rfl
  have found : skipBlanks offset (quote :: (value ++ quote :: rest)) =
      some (offset, quote, value ++ quote :: rest) := by
    rw [skipBlanks, visible]
    rfl
  have inside : (value ++ quote :: rest).takeWhile (· ≠ quote) = value := by
    rw [List.takeWhile_append_of_pos, List.takeWhile_cons_of_neg, List.append_nil]
    · simp
    · intro c member
      have other : c ≠ quote := fun same => closed (same ▸ member)
      simpa using other
  have behind : (value ++ quote :: rest).drop value.length = quote :: rest := List.drop_left
  simp only [readValue, found, quoting, ↓reduceIte, inside, behind]

theorem declared?_eq_none_iff {seen : List (List Char × Nat)} {key : List Char} :
    declared? seen key = none ↔ key ∉ seen.map Prod.fst := by
  rw [declared?, List.lookup_eq_none_iff, List.mem_map, not_exists]
  constructor
  · rintro absent ⟨other, position⟩ ⟨member, rfl⟩
    simpa using absent _ member
  · rintro absent ⟨other, position⟩ member
    have different : ¬ key = other := fun same => absent _ ⟨member, same.symm⟩
    simpa using different

end TextHarvest.Xml
