import TextHarvest.CSharp.Literal
import TextHarvest.Proofs.Po.RoundTrip

/-! # Every literal form spells every text

A text has a spelling in each of the three literal forms, and `Form.value?` reads it back off all of them: in a regular
literal the escapes of a PO file do, in a verbatim literal doubled quotes, and a raw literal holds the text as it is.
So what a catalog writes between quotes is itself a literal for the same text.
-/

namespace TextHarvest.CSharp.Literal

/-! ## Regular literals -/

theorem unescape_cons_plain {c : Char} (plain : c ≠ '\\') (rest : List Char) :
    unescape (c :: rest) = c :: unescape rest := by
  simp [unescape, pieces, piecesAfter, plain, Piece.value]

theorem unescape_cons_named {letter value : Char} (named : simpleEscape? letter = some value) (rest : List Char) :
    unescape ('\\' :: letter :: rest) = value :: unescape rest := by
  simp [unescape, pieces, piecesAfter, escapePiece, named, Piece.spelling, Piece.value]

/-- An escaped character stands for itself, whatever follows: none of the five escapes takes digits. -/
theorem unescape_escapeChar (c : Char) (rest : List Char) :
    unescape (Po.escapeChar c ++ rest) = c :: unescape rest := by
  unfold Po.escapeChar
  split_ifs with backslash quote feed carriage tab
  · rw [backslash]
    exact unescape_cons_named rfl rest
  · rw [quote]
    exact unescape_cons_named rfl rest
  · rw [feed]
    exact unescape_cons_named rfl rest
  · rw [carriage]
    exact unescape_cons_named rfl rest
  · rw [tab]
    exact unescape_cons_named rfl rest
  · exact unescape_cons_plain backslash rest

theorem unescape_escapeChars (text : List Char) : unescape (Po.escapeChars text) = text := by
  induction text with
  | nil => rfl
  | cons c text ih =>
    calc
      unescape (Po.escapeChars (c :: text)) = unescape (Po.escapeChar c ++ Po.escapeChars text) := by
        rw [Po.escapeChars, List.flatMap_cons, Po.escapeChars]
      _ = c :: unescape (Po.escapeChars text) := unescape_escapeChar c _
      _ = c :: text := by rw [ih]

/-- What stands between the quotes of a regular literal is unescaped: a closing quote is no suffix letter. -/
theorem regularValue?_enclosed (inner : List Char) :
    regularValue? ('"' :: (inner ++ ['"'])) = some (unescape inner) := by
  have open_end (letter : Char) : [letter, '8'].isSuffixOf ('"' :: (inner ++ ['"'])) = false := by
    simp [List.isSuffixOf, List.isPrefixOf]
  have opened : ['"'].isPrefixOf? ('"' :: (inner ++ ['"'])) = some (inner ++ ['"']) := by
    simp
  have closed : ['"'].isSuffixOf? (inner ++ ['"']) = some inner := by
    simp
  simp [regularValue?, open_end, opened, closed]

/-! ## Verbatim literals -/

/-- How a text is written in a verbatim literal: every quote twice. -/
def doubled (text : List Char) : List Char :=
  text.flatMap fun c => if c = '"' then ['"', '"'] else [c]

private theorem undouble_cons_plain {c : Char} (plain : c ≠ '"') (rest : List Char) :
    undouble (c :: rest) = c :: undouble rest := by
  rw [undouble]
  rintro rest' rfl
  exact absurd rfl plain

/-- Quotes are paired from the left, so a run of them is halved. -/
theorem undouble_doubled (text : List Char) : undouble (doubled text) = text := by
  induction text with
  | nil => rfl
  | cons c text ih =>
    rw [doubled, List.flatMap_cons, ← doubled]
    split_ifs with quote
    · rw [quote]
      exact congrArg ('"' :: ·) ih
    · rw [List.singleton_append, undouble_cons_plain quote, ih]

theorem verbatimValue?_enclosed (inner : List Char) :
    verbatimValue? ('@' :: '"' :: (inner ++ ['"'])) = some (undouble inner) := by
  have opened : ['@', '"'].isPrefixOf? ('@' :: '"' :: (inner ++ ['"'])) = some (inner ++ ['"']) := by
    simp
  have closed : ['"'].isSuffixOf? (inner ++ ['"']) = some inner := by
    simp
  simp [verbatimValue?, opened, closed]

/-! ## Raw literals -/

/-- The run of quotes that opens a raw literal ends where its inside begins. -/
theorem takeWhile_quotes {inner : List Char} (given : inner ≠ []) (no_quote : ¬ ['"'] <+: inner) (quotes : Nat)
    (rest : List Char) :
    (List.replicate quotes '"' ++ (inner ++ rest)).takeWhile (· = '"') = List.replicate quotes '"' := by
  obtain ⟨first, others, rfl⟩ := List.exists_cons_of_ne_nil given
  have other : first ≠ '"' := by
    rintro rfl
    exact no_quote (by simp)
  rw [List.takeWhile_append_of_pos (by simp)]
  simp [other]

/-- As many characters as quotes open a literal are cut from both its ends. -/
theorem take_drop_quotes {quotes : Nat} (inner : List Char) {tail : List Char} (cut : tail.length = quotes) :
    let token := List.replicate quotes '"' ++ (inner ++ tail)
    (token.drop quotes).take (token.length - 2 * quotes) = inner := by
  intro token
  have size : token.length - 2 * quotes = inner.length := by
    simp only [token, List.length_append, List.length_replicate, cut]
    omega
  rw [size, List.drop_left' List.length_replicate, List.take_left]

/-- What is left of a raw literal between these cuts is its value, or holds the lines of it. The characters that are cut
from its end need not be quotes. -/
theorem rawValue?_enclosed {quotes : Nat} (enough : 3 ≤ quotes) {inner : List Char} (given : inner ≠ [])
    (no_quote : ¬ ['"'] <+: inner) {tail : List Char} (cut : tail.length = quotes) :
    rawValue? (List.replicate quotes '"' ++ (inner ++ tail)) =
      some ((afterLineBreak? inner).elim inner multilineValue) := by
  have run : ((List.replicate quotes '"' ++ (inner ++ tail)).takeWhile (· = '"')).length = quotes := by
    rw [takeWhile_quotes given no_quote, List.length_replicate]
  have long : (decide (quotes < 3) || decide ((List.replicate quotes '"' ++ (inner ++ tail)).length < 2 * quotes)) =
      false := by
    simp only [List.length_append, List.length_replicate, cut, Bool.or_eq_false_iff, decide_eq_false_iff_not]
    omega
  simp only [rawValue?, run, long, take_drop_quotes inner cut, Bool.false_eq_true, ↓reduceIte]
  cases afterLineBreak? inner <;> rfl

/-- A text that a raw literal may hold on one line: it is there, it does not lengthen the run of quotes before it, and
it does not open with a line break. -/
structure IsRawText (text : List Char) : Prop where
  nonempty : text ≠ []
  no_quote : ¬ ['"'] <+: text
  no_feed : ¬ ['\n'] <+: text
  no_return : ¬ ['\r', '\n'] <+: text

theorem IsRawText.afterLineBreak? {text : List Char} (raw : IsRawText text) : afterLineBreak? text = none := by
  unfold Literal.afterLineBreak?
  split
  · exact absurd (by simp) raw.no_return
  · exact absurd (by simp) raw.no_feed
  · rfl

/-- A raw literal gives its text as it is. -/
theorem IsRawText.rawValue? {text : List Char} (raw : IsRawText text) {quotes : Nat} (enough : 3 ≤ quotes) :
    rawValue? (List.replicate quotes '"' ++ (text ++ List.replicate quotes '"')) = some text := by
  rw [rawValue?_enclosed enough raw.nonempty raw.no_quote List.length_replicate, raw.afterLineBreak?]
  rfl

/-! ## All forms -/

/-- The value of the quoted escaping of a text, of the verbatim literal with its quotes doubled, and of any raw literal
around it is the text itself. -/
theorem value?_spellings (text : String) :
    Form.regular.value? (Po.quoted text).toList = some text.toList ∧
      Form.verbatim.value? ('@' :: '"' :: (doubled text.toList ++ ['"'])) = some text.toList ∧
      ∀ quotes, 3 ≤ quotes → IsRawText text.toList →
        Form.raw.value? (List.replicate quotes '"' ++ (text.toList ++ List.replicate quotes '"')) =
          some text.toList := by
  refine ⟨?_, ?_, ?_⟩
  · rw [Po.toList_quoted]
    exact (regularValue?_enclosed _).trans (congrArg some (unescape_escapeChars _))
  · exact (verbatimValue?_enclosed _).trans (congrArg some (undouble_doubled _))
  · intro quotes enough raw
    exact raw.rawValue? enough

/-- Backslashes before letters that would make escapes, quotes at the end and a carriage return alone. -/
theorem value?_spellings_escapes :
    (3 ≤ 4 ∧ IsRawText "\r\\u0041\\\\x é\"\"".toList) ∧
      Form.raw.value? "\"\"\"\"\r\\u0041\\\\x é\"\"\"\"\"\"".toList = some "\r\\u0041\\\\x é\"\"".toList ∧
      Form.regular.value? "\"\\r\\\\u0041\\\\\\\\x é\\\"\\\"\"".toList = some "\r\\u0041\\\\x é\"\"".toList := by
  have raw : IsRawText "\r\\u0041\\\\x é\"\"".toList := ⟨by simp, by simp, by simp, by simp⟩
  have spelled := value?_spellings "\r\\u0041\\\\x é\"\""
  exact ⟨⟨by decide, raw⟩, spelled.2.2 4 (by decide) raw, spelled.1⟩

end TextHarvest.CSharp.Literal
