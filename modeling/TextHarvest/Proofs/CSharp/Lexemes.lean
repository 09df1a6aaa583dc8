import TextHarvest.CSharp.Tokenize
import TextHarvest.Proofs.Po.RoundTrip

/-! # Cutting texts lexeme by lexeme

`Cuts` says that the front of a text in code is cut into given tokens, and what is left then. One lexeme is cut off when
a scan measures it (`cuts_lexeme`), and cuts follow one another (`Cuts.trans`). A text in quotes, written with the
escapes of a PO file, is one lexeme: nothing in it ends it early or is taken for code (`cuts_quoted`).
-/

namespace TextHarvest.CSharp

/-- In code, the text from a line on is cut into the tokens and then like the rest from a line further on. -/
def Cuts (line : Nat) (text : List Char) (tokens : List Token) (onward : Nat) (rest : List Char) : Prop :=
  tokensFrom [.code] line text = (tokensFrom [.code] onward rest).map (tokens ++ ·)

theorem Cuts.refl (line : Nat) (text : List Char) : Cuts line text [] line text := by
  simp [Cuts]

theorem Cuts.trans {line middle onward : Nat} {text between rest : List Char} {first second : List Token}
    (front : Cuts line text first middle between) (back : Cuts middle between second onward rest) :
    Cuts line text (first ++ second) onward rest := by
  simp only [Cuts] at front back ⊢
  rw [front, back, Option.map_map]
  simp [Function.comp_def]

theorem Cuts.cons {line middle onward : Nat} {text between rest : List Char} {token : Token} {tokens : List Token}
    (front : Cuts line text [token] middle between) (back : Cuts middle between tokens onward rest) :
    Cuts line text (token :: tokens) onward rest :=
  front.trans back

/-- A lexeme that a scan measures at the front of the text is cut off; what it makes is a token or nothing. -/
theorem cuts_lexeme {lexeme tail : List Char} {kind : Option TokenKind} (given : lexeme ≠ [])
    (scanned : scan [.code] (lexeme ++ tail) = some ⟨lexeme.length, kind, [.code]⟩) (line : Nat) :
    Cuts line (lexeme ++ tail) (kind.map fun kind => ⟨kind, String.ofList lexeme, line, joinsNext tail⟩).toList
      (line + lexeme.count '\n') tail := by
  obtain ⟨c, others, rfl⟩ := List.exists_cons_of_ne_nil given
  rw [Cuts, List.cons_append, tokensFrom]
  rw [List.cons_append, List.length_cons] at scanned
  simp only [scanned, List.take_left, List.drop_left]
  cases tokensFrom [.code] (line + (c :: others).count '\n') tail with
  | none => rfl
  | some tokens => cases kind <;> rfl

/-- A lexeme on one line that makes a token. -/
theorem cuts_token {lexeme tail : List Char} {kind : TokenKind} (given : lexeme ≠ []) (inLine : '\n' ∉ lexeme)
    (scanned : scan [.code] (lexeme ++ tail) = some ⟨lexeme.length, some kind, [.code]⟩) (line : Nat) :
    Cuts line (lexeme ++ tail) [⟨kind, String.ofList lexeme, line, joinsNext tail⟩] line tail := by
  simpa [List.count_eq_zero.mpr inLine] using cuts_lexeme given scanned line

/-- An operator or a bracket of one character. -/
theorem cuts_symbol (c : Char) {tail : List Char} {joined : Bool} (inLine : c ≠ '\n')
    (scanned : scan [.code] (c :: tail) = some ⟨1, some .symbol, [.code]⟩) (joins : joinsNext tail = joined)
    (line : Nat) : Cuts line (c :: tail) [⟨.symbol, String.singleton c, line, joined⟩] line tail := by
  rw [← joins]
  exact cuts_token (List.cons_ne_nil c []) (by simpa using inLine.symm) scanned line

/-- A blank alone separates tokens and makes none. -/
theorem cuts_blank {c next : Char} (blank : isSpace c = true) (solid : isSpace next = false) (line : Nat)
    (tail : List Char) : Cuts line (c :: next :: tail) [] (line + if c = '\n' then 1 else 0) (next :: tail) := by
  have run : Lexeme.runLength isSpace (c :: next :: tail) = 1 := by
    simp [Lexeme.runLength, blank, solid]
  have scanned : scan [.code] ([c] ++ next :: tail) = some ⟨[c].length, none, [.code]⟩ := by
    simp only [List.singleton_append, scan, scanCode, blank, ↓reduceIte, run]
    rfl
  simpa [List.count_singleton] using cuts_lexeme (List.cons_ne_nil c []) scanned line

/-! ## Words -/

private theorem toNat_of_isAlpha {c : Char} (letter : c.isAlpha = true) :
    65 ≤ c.toNat ∧ c.toNat ≤ 90 ∨ 97 ≤ c.toNat ∧ c.toNat ≤ 122 := by
  rcases Bool.or_eq_true_iff.mp letter with upper | lower
  · exact .inl (of_decide_eq_true upper)
  · obtain ⟨least, most⟩ := Bool.and_eq_true_iff.mp lower
    exact .inr ⟨of_decide_eq_true least, of_decide_eq_true most⟩

private theorem isSpace_of_isAlpha {c : Char} (letter : c.isAlpha = true) : isSpace c = false := by
  have range := toNat_of_isAlpha letter
  have noMark : c ≠ Text.byteOrderMark := by
    rintro rfl
    exact absurd letter (by decide)
  have noBlank : ¬ Text.isBlank c = true := by
    simp only [Text.isBlank, Bool.or_eq_true, Bool.and_eq_true, decide_eq_true_eq, beq_iff_eq]
    omega
  simp [isSpace, noBlank, noMark]

private theorem isIdentifierStart_of_isAlpha {c : Char} (letter : c.isAlpha = true) :
    Text.isIdentifierStart c = true := by
  have range := toNat_of_isAlpha letter
  have latin : c.toNat < 0x80 := by omega
  simp [Text.isIdentifierStart, latin, letter]

/-- Letters go on an identifier, up to a character that cannot. -/
theorem identifierTail_letters {word : List Char} (letters : ∀ c ∈ word, c.isAlpha = true) {next : Char}
    (ends : Text.isIdentifierContinue next = false) (noEscape : next ≠ '\\') (tail : List Char) :
    Lexeme.identifierTail 0 (word ++ next :: tail) = word.length := by
  induction word with
  | nil =>
    have plain : Lexeme.identifierEscape (next :: tail) = 0 := by
      simp [Lexeme.identifierEscape, noEscape]
    simp [Lexeme.identifierTail, ends, plain]
  | cons c word ih =>
    obtain ⟨letter, rest⟩ := List.forall_mem_cons.mp letters
    have goesOn := Text.isIdentifierContinue_of_start (isIdentifierStart_of_isAlpha letter)
    simp only [List.cons_append, Lexeme.identifierTail, goesOn, ↓reduceIte, ih rest, List.length_cons]
    omega

section Letter

variable {c : Char} (letter : c.isAlpha = true)
include letter

private theorem ne_of_isAlpha {d : Char} (noLetter : d.isAlpha = false) : c ≠ d := by
  rintro rfl
  exact absurd letter (by simp [noLetter])

private theorem number_of_isAlpha (rest : List Char) : Lexeme.number (c :: rest) = 0 := by
  have noDigit : c.isDigit = false := by
    have range := toNat_of_isAlpha letter
    rw [← Bool.not_eq_true, Char.isDigit_iff_toNat]
    change ¬ (48 ≤ c.toNat ∧ c.toNat ≤ 57)
    omega
  have noZero := ne_of_isAlpha letter (d := '0') rfl
  have noLine := ne_of_isAlpha letter (d := '_') rfl
  have noPoint := ne_of_isAlpha letter (d := '.') rfl
  have based : Lexeme.based (c :: rest) = 0 := by
    simp [Lexeme.based, noZero]
  have digits : Lexeme.digits Char.isDigit (c :: rest) = 0 := by
    simp [Lexeme.digits, noDigit, noLine]
  have fraction : Lexeme.fraction (c :: rest) = 0 := by
    simp [Lexeme.fraction, noPoint]
  simp [Lexeme.number, based, digits, fraction]

private theorem textOpening?_of_isAlpha (rest : List Char) : textOpening? (c :: rest) = none := by
  have noAt := ne_of_isAlpha letter (d := '@') rfl
  have noDollar := ne_of_isAlpha letter (d := '$') rfl
  simp [textOpening?, Lexeme.runLength, noAt, noDollar]

end Letter

private theorem scan_word {word : List Char} (given : word ≠ []) (letters : ∀ c ∈ word, c.isAlpha = true) {next : Char}
    (ends : Text.isIdentifierContinue next = false) (noEscape : next ≠ '\\') (tail : List Char) :
    scan [.code] (word ++ next :: tail) = some ⟨word.length, some .word, [.code]⟩ := by
  obtain ⟨c, others, rfl⟩ := List.exists_cons_of_ne_nil given
  have letter := letters c List.mem_cons_self
  have measured := identifierTail_letters letters ends noEscape tail
  rw [List.cons_append] at measured ⊢
  have noAt := ne_of_isAlpha letter (d := '@') rfl
  have word : Lexeme.word (c :: (others ++ next :: tail)) = (c :: others).length := by
    simp [Lexeme.word, Lexeme.plainWord, noAt, isIdentifierStart_of_isAlpha letter, measured]
  simp [scan, scanCode, isSpace_of_isAlpha letter, ne_of_isAlpha letter (d := '/') rfl,
    ne_of_isAlpha letter (d := '#') rfl, ne_of_isAlpha letter (d := '"') rfl, ne_of_isAlpha letter (d := '\'') rfl,
    noAt, textOpening?_of_isAlpha letter, number_of_isAlpha letter, word]

/-- A word of letters is one token, if what follows cannot go on it. -/
theorem cuts_word (word : String) (given : word ≠ "") (spelled : word.toList.all Char.isAlpha = true) {next : Char}
    (ends : Text.isIdentifierContinue next = false ∧ next ≠ '\\') (line : Nat) (tail : List Char) :
    Cuts line (word.toList ++ next :: tail) [⟨.word, word, line, joinsNext (next :: tail)⟩] line (next :: tail) := by
  have letters : ∀ c ∈ word.toList, c.isAlpha = true := List.all_eq_true.mp spelled
  have inLine : '\n' ∉ word.toList := fun feed => absurd (letters '\n' feed) (by decide)
  have filled : word.toList ≠ [] := mt String.toList_eq_nil_iff.mp given
  simpa using cuts_token filled inLine (scan_word filled letters ends.1 ends.2 tail) line

/-! ## Quoted texts -/

private theorem regular?_cons_plain {c : Char} (quote : c ≠ '"') (backslash : c ≠ '\\') (feed : c ≠ '\n')
    (rest : List Char) : Lexeme.regular? (c :: rest) = (Lexeme.regular? rest).map (· + 1) := by
  simp [Lexeme.regular?, backslash, feed]

/-- An escaped character leaves a regular literal open. -/
theorem regular?_escapeChar (c : Char) (rest : List Char) :
    Lexeme.regular? (Po.escapeChar c ++ rest) = (Lexeme.regular? rest).map (· + (Po.escapeChar c).length) := by
  unfold Po.escapeChar
  split_ifs with backslash quote feed carriage tab
  · rfl
  · rfl
  · rfl
  · rfl
  · rfl
  · exact regular?_cons_plain quote backslash feed rest

/-- A regular literal goes on up to the quote behind an escaped text. -/
theorem regular?_escapeChars (text tail : List Char) :
    Lexeme.regular? (Po.escapeChars text ++ '"' :: tail) = some ((Po.escapeChars text).length + 1) := by
  induction text with
  | nil => rfl
  | cons c text ih =>
    rw [Po.escapeChars, List.flatMap_cons, List.append_assoc, regular?_escapeChar, ← Po.escapeChars, ih,
      Option.map_some, List.length_append]
    congr 1
    omega

/-- The quotes around a text do not run together with quotes in it, so they never open a raw literal. -/
theorem runLength_quotes (text : List Char) {next : Char} (other : next ≠ '"') (tail : List Char) :
    Lexeme.runLength (· = '"') ('"' :: (Po.escapeChars text ++ '"' :: next :: tail)) < 3 := by
  cases text with
  | nil => simp [Lexeme.runLength, Po.escapeChars, other]
  | cons c text =>
    have opening : ∃ first rest, Po.escapeChar c = first :: rest ∧ first ≠ '"' := by
      unfold Po.escapeChar
      split_ifs with backslash quote
      · exact ⟨_, _, rfl, by decide⟩
      · exact ⟨_, _, rfl, by decide⟩
      · exact ⟨_, _, rfl, by decide⟩
      · exact ⟨_, _, rfl, by decide⟩
      · exact ⟨_, _, rfl, by decide⟩
      · exact ⟨c, [], rfl, quote⟩
    obtain ⟨first, rest, written, different⟩ := opening
    rw [Po.escapeChars, List.flatMap_cons, written]
    simp [Lexeme.runLength, different]

private theorem scan_quoted (text : List Char) {next : Char} (other : next ≠ '"') (noSuffix : next ≠ 'u' ∧ next ≠ 'U')
    (tail : List Char) :
    scan [.code] ('"' :: (Po.escapeChars text ++ '"' :: next :: tail)) =
      some ⟨(Po.escapeChars text).length + 2, some (.string .regular), [.code]⟩ := by
  have few := runLength_quotes text other tail
  have closed := regular?_escapeChars text (next :: tail)
  have suffix : Lexeme.byteSuffix (next :: tail) = 0 := by
    simp [Lexeme.byteSuffix, noSuffix]
  have literal : stringLength? ('"' :: (Po.escapeChars text ++ '"' :: next :: tail)) =
      some ((Po.escapeChars text).length + 2, .regular) := by
    have behind : (Po.escapeChars text ++ '"' :: next :: tail).drop ((Po.escapeChars text).length + 1) =
        next :: tail := by
      rw [List.drop_append, List.drop_of_length_le (Nat.le_succ _)]
      simp
    simp only [stringLength?, Nat.not_le.mpr few, ↓reduceIte, closed, behind, suffix, Option.bind_eq_bind,
      Option.bind_some, Option.pure_def]
    congr 2
    omega
  have noOpening : textOpening? ('"' :: (Po.escapeChars text ++ '"' :: next :: tail)) = none := by
    simp [textOpening?, Lexeme.runLength]
  have solid : isSpace '"' = false := by decide
  simp [scan, scanCode, solid, noOpening, literal]

/-- A quoted text is one token, if what follows it is no quote and no suffix. -/
theorem cuts_quoted (text : String) {next : Char} (other : next ≠ '"') (noSuffix : next ≠ 'u' ∧ next ≠ 'U') (line : Nat)
    (tail : List Char) :
    Cuts line ((Po.quoted text).toList ++ next :: tail)
      [⟨.string .regular, Po.quoted text, line, joinsNext (next :: tail)⟩] line (next :: tail) := by
  have scanned : scan [.code] ((Po.quoted text).toList ++ next :: tail) =
      some ⟨(Po.quoted text).toList.length, some (.string .regular), [.code]⟩ := by
    simpa [Po.toList_quoted] using scan_quoted text.toList other noSuffix tail
  have given : (Po.quoted text).toList ≠ [] := by simp [Po.toList_quoted]
  simpa using cuts_token given (Po.newline_not_mem_quoted text) scanned line

end TextHarvest.CSharp
