import Mathlib.Data.List.TakeWhile
import TextHarvest.Proofs.CSharp.Calls
import TextHarvest.Proofs.CSharp.RawLines
import TextHarvest.Proofs.CSharp.SourceOrder

/-! # Literals that are byte sequences

A string literal with a suffix is a byte sequence and no text. A regular or verbatim literal with a suffix has no value;
but the suffix of a raw literal is counted among its closing quotes when these are cut off, so the literal has a value
that two of its quotes belong to (`value?_byteLiteral`, `extract?_rawBytes`).

`IsToken` is the spelling of a literal token, whatever it holds. Every literal that a source is cut into is spelled so
(`isToken_of_literals?`).
-/

namespace TextHarvest.CSharp

namespace Literal

/-- The suffixes that make a literal a byte sequence. -/
def byteSuffixes : List (List Char) :=
  [['u', '8'], ['U', '8']]

private theorem mem_byteSuffixes_iff {suffix : List Char} :
    suffix ∈ byteSuffixes ↔ suffix = ['u', '8'] ∨ suffix = ['U', '8'] := by
  simp [byteSuffixes]

/-- The spelling of a literal, from what it holds between its quotes and its suffix. A raw literal holds something, and
this does not go on the run of its opening quotes. -/
inductive IsToken : Form → List Char → List Char → List Char → Prop
  | regular (content suffix : List Char) : IsToken .regular content suffix ('"' :: (content ++ '"' :: suffix))
  | verbatim (content suffix : List Char) : IsToken .verbatim content suffix ('@' :: '"' :: (content ++ '"' :: suffix))
  | raw {quotes : Nat} {content : List Char} (enough : 3 ≤ quotes) (given : content ≠ [])
      (no_quote : ¬ ['"'] <+: content) (suffix : List Char) :
      IsToken .raw content suffix
        (List.replicate quotes '"' ++ (content ++ (List.replicate quotes '"' ++ suffix)))

/-! ## Values -/

/-- The value that a raw literal has with a suffix: two of its closing quotes are left behind what it holds. If it holds
lines, they stand on the closing line and belong to the indentation. -/
def rawBytesValue (content : List Char) : List Char :=
  (afterLineBreak? content).elim (content ++ ['"', '"']) fun body => multilineValue (body ++ ['"', '"'])

private theorem regularValue?_bytes (content : List Char) {suffix : List Char} (bytes : suffix ∈ byteSuffixes) :
    regularValue? ('"' :: (content ++ '"' :: suffix)) = none := by
  rcases mem_byteSuffixes_iff.mp bytes with rfl | rfl <;> simp [regularValue?, List.isSuffixOf]

private theorem verbatimValue?_bytes (content : List Char) {suffix : List Char} (bytes : suffix ∈ byteSuffixes) :
    verbatimValue? ('@' :: '"' :: (content ++ '"' :: suffix)) = none := by
  rcases mem_byteSuffixes_iff.mp bytes with rfl | rfl <;> simp [verbatimValue?, List.isSuffixOf?, List.isPrefixOf?]

private theorem afterLineBreak?_append_quotes (content : List Char) :
    afterLineBreak? (content ++ ['"', '"']) = (afterLineBreak? content).map (· ++ ['"', '"']) := by
  fun_cases afterLineBreak? content with
  | case1 rest => rfl
  | case2 rest => rfl
  | case3 content no_return no_feed =>
    have closed : afterLineBreak? (content ++ ['"', '"']) = none := by
      unfold afterLineBreak?
      split
      · rename_i rest whole
        rcases content with _ | ⟨c, _ | ⟨d, content⟩⟩
        · cases whole
        · cases whole
        · cases whole
          exact absurd rfl (no_return content)
      · rename_i rest whole
        rcases content with _ | ⟨c, content⟩
        · cases whole
        · cases whole
          exact absurd rfl (no_feed content)
      · rfl
    exact closed

/-- The characters that are cut from the end are the suffix and all but two of the quotes. -/
theorem rawValue?_bytes {quotes : Nat} (enough : 3 ≤ quotes) {content : List Char} (given : content ≠ [])
    (no_quote : ¬ ['"'] <+: content) {suffix : List Char} (bytes : suffix ∈ byteSuffixes) :
    rawValue? (List.replicate quotes '"' ++ (content ++ (List.replicate quotes '"' ++ suffix))) =
      some (rawBytesValue content) := by
  obtain ⟨more, rfl⟩ := Nat.exists_eq_add_of_le' (by omega : 2 ≤ quotes)
  have size : suffix.length = 2 := by
    rcases mem_byteSuffixes_iff.mp bytes with rfl | rfl <;> rfl
  have regrouped : content ++ (List.replicate (more + 2) '"' ++ suffix) =
      (content ++ ['"', '"']) ++ (List.replicate more '"' ++ suffix) := by
    rw [Nat.add_comm, List.replicate_add]
    simp
  have opens : ¬ ['"'] <+: content ++ ['"', '"'] := by
    obtain ⟨first, others, rfl⟩ := List.exists_cons_of_ne_nil given
    simpa using no_quote
  have cut : (List.replicate more '"' ++ suffix).length = more + 2 := by
    rw [List.length_append, List.length_replicate, size]
  rw [regrouped, rawValue?_enclosed enough (List.append_ne_nil_of_left_ne_nil given _) opens cut,
    afterLineBreak?_append_quotes, rawBytesValue]
  cases afterLineBreak? content <;> rfl

private theorem IsToken.value?_bytes {form : Form} {content suffix text : List Char}
    (token : IsToken form content suffix text) (bytes : suffix ∈ byteSuffixes) :
    form.value? text = if form = .raw then some (rawBytesValue content) else none := by
  cases token with
  | regular => exact regularValue?_bytes content bytes
  | verbatim => exact verbatimValue?_bytes content bytes
  | raw enough given no_quote => exact rawValue?_bytes enough given no_quote bytes

private theorem IsToken.value?_text {form : Form} {content text : List Char} (token : IsToken form content [] text) :
    form.value? text ≠ none := by
  cases token with
  | regular =>
    rw [Form.value?, regularValue?_enclosed]
    exact Option.some_ne_none _
  | verbatim =>
    rw [Form.value?, verbatimValue?_enclosed]
    exact Option.some_ne_none _
  | raw enough given no_quote =>
    rw [Form.value?, List.append_nil, rawValue?_enclosed enough given no_quote List.length_replicate]
    exact Option.some_ne_none _

/-! ## Tokens of a source -/

private theorem exists_of_regular? {text : List Char} {length : Nat} (measured : Lexeme.regular? text = some length) :
    ∃ content rest, text = content ++ '"' :: rest ∧ length = content.length + 1 := by
  fun_induction Lexeme.regular? text generalizing length with
  | case1 rest =>
    cases measured
    exact ⟨[], rest, rfl, rfl⟩
  | case2 c rest ih =>
    obtain ⟨body, inner, rfl⟩ := Option.map_eq_some_iff.mp measured
    obtain ⟨content, tail, rfl, rfl⟩ := ih inner
    exact ⟨'\\' :: c :: content, tail, rfl, rfl⟩
  | case3 => cases measured
  | case4 c rest _ _ _ ih =>
    obtain ⟨body, inner, rfl⟩ := Option.map_eq_some_iff.mp measured
    obtain ⟨content, tail, rfl, rfl⟩ := ih inner
    exact ⟨c :: content, tail, rfl, rfl⟩
  | case5 => cases measured

private theorem exists_of_verbatim? {text : List Char} {length : Nat} (measured : Lexeme.verbatim? text = some length) :
    ∃ content rest, text = content ++ '"' :: rest ∧ length = content.length + 1 := by
  fun_induction Lexeme.verbatim? text generalizing length with
  | case1 rest ih =>
    obtain ⟨body, inner, rfl⟩ := Option.map_eq_some_iff.mp measured
    obtain ⟨content, tail, rfl, rfl⟩ := ih inner
    exact ⟨'"' :: '"' :: content, tail, rfl, rfl⟩
  | case2 rest =>
    cases measured
    exact ⟨[], rest, rfl, rfl⟩
  | case3 c rest _ _ ih =>
    obtain ⟨body, inner, rfl⟩ := Option.map_eq_some_iff.mp measured
    obtain ⟨content, tail, rfl, rfl⟩ := ih inner
    exact ⟨c :: content, tail, rfl, rfl⟩
  | case4 => cases measured

/-- A raw literal ends with its quotes. The run of quotes before the text counts, so the end may be made of it. -/
theorem exists_of_raw? {quotes run length : Nat} {text : List Char}
    (measured : Lexeme.raw? quotes run text = some length) :
    ∃ lexeme rest content, text = lexeme ++ rest ∧ length = lexeme.length ∧
      List.replicate run '"' ++ lexeme = content ++ List.replicate quotes '"' := by
  induction text generalizing run length with
  | nil =>
    rw [Lexeme.raw?] at measured
    split_ifs at measured with full
    cases measured
    exact ⟨[], [], [], rfl, rfl, by simp [full]⟩
  | cons c text ih =>
    rw [Lexeme.raw?] at measured
    split_ifs at measured with quote full
    · obtain ⟨body, inner, rfl⟩ := Option.map_eq_some_iff.mp measured
      obtain ⟨lexeme, rest, content, rfl, rfl, ends⟩ := ih inner
      refine ⟨c :: lexeme, rest, content, rfl, rfl, ?_⟩
      rw [← ends, quote, List.replicate_succ', List.append_assoc, List.singleton_append]
    · cases measured
      exact ⟨[], c :: text, [], rfl, rfl, by simp [full]⟩
    · obtain ⟨body, inner, rfl⟩ := Option.map_eq_some_iff.mp measured
      obtain ⟨lexeme, rest, content, rfl, rfl, ends⟩ := ih inner
      refine ⟨c :: lexeme, rest, List.replicate run '"' ++ c :: content, rfl, rfl, ?_⟩
      rw [List.replicate_zero, List.nil_append] at ends
      rw [ends, List.append_assoc, List.cons_append]

/-- What is cut off behind the closing quotes is a suffix. -/
theorem exists_take_byteSuffix (front behind : List Char) : ∃ suffix, suffix ∈ [] :: byteSuffixes ∧
    (front ++ behind).take (front.length + Lexeme.byteSuffix behind) = front ++ suffix := by
  rw [List.take_append, Nat.add_sub_cancel_left, List.take_of_length_le (Nat.le_add_right _ _)]
  fun_cases Lexeme.byteSuffix behind with
  | case1 rest => exact ⟨['u', '8'], by simp [byteSuffixes], rfl⟩
  | case2 rest => exact ⟨['U', '8'], by simp [byteSuffixes], rfl⟩
  | case3 => exact ⟨[], by simp, rfl⟩

/-- The run of quotes at the front of a text, and what stands behind it. -/
theorem exists_quotes (text : List Char) :
    ∃ rest, text = List.replicate (Lexeme.runLength (· = '"') text) '"' ++ rest ∧ ¬ ['"'] <+: rest := by
  refine ⟨text.dropWhile (· = '"'), ?_, ?_⟩
  · have run : text.takeWhile (· = '"') = List.replicate (Lexeme.runLength (· = '"') text) '"' := by
      refine List.eq_replicate_iff.mpr ⟨rfl, ?_⟩
      intro c member
      simpa using List.mem_takeWhile_imp member
    rw [← run, List.takeWhile_append_dropWhile]
  · rintro ⟨rest, whole⟩
    have stops := List.head?_dropWhile_not (· = '"') text
    rw [← whole] at stops
    simp at stops

/-- A literal with one closing quote is cut off with its suffix. -/
theorem exists_take_closed (opening content behind : List Char) : ∃ suffix, suffix ∈ [] :: byteSuffixes ∧
    (opening ++ (content ++ '"' :: behind)).take (opening.length + (content.length + 1) +
      Lexeme.byteSuffix ((content ++ '"' :: behind).drop (content.length + 1))) =
      opening ++ (content ++ '"' :: suffix) := by
  obtain ⟨suffix, known, cut⟩ := exists_take_byteSuffix (opening ++ (content ++ ['"'])) behind
  refine ⟨suffix, known, ?_⟩
  have after : (content ++ '"' :: behind).drop (content.length + 1) = behind := by
    rw [← List.drop_drop, List.drop_left, List.drop_one, List.tail_cons]
  have size : (opening ++ (content ++ ['"'])).length = opening.length + (content.length + 1) := by
    simp only [List.length_append, List.length_singleton]
  simpa only [after, size, List.append_assoc, List.singleton_append] using cut

private theorem isToken_regular {rest : List Char} {body : Nat} (measured : Lexeme.regular? rest = some body) :
    ∃ content suffix, suffix ∈ [] :: byteSuffixes ∧ IsToken .regular content suffix
      (('"' :: rest).take (1 + body + Lexeme.byteSuffix (rest.drop body))) := by
  obtain ⟨content, behind, rfl, rfl⟩ := exists_of_regular? measured
  obtain ⟨suffix, known, cut⟩ := exists_take_closed ['"'] content behind
  exact ⟨content, suffix, known, cut ▸ .regular content suffix⟩

private theorem isToken_verbatim {rest : List Char} {body : Nat} (measured : Lexeme.verbatim? rest = some body) :
    ∃ content suffix, suffix ∈ [] :: byteSuffixes ∧ IsToken .verbatim content suffix
      (('@' :: '"' :: rest).take (2 + body + Lexeme.byteSuffix (rest.drop body))) := by
  obtain ⟨content, behind, rfl, rfl⟩ := exists_of_verbatim? measured
  obtain ⟨suffix, known, cut⟩ := exists_take_closed ['@', '"'] content behind
  exact ⟨content, suffix, known, cut ▸ .verbatim content suffix⟩

private theorem isToken_raw {quotes body : Nat} (enough : 3 ≤ quotes) {inner : List Char} (no_quote : ¬ ['"'] <+: inner)
    (measured : Lexeme.raw? quotes 0 inner = some body) :
    let text := List.replicate quotes '"' ++ inner
    ∃ content suffix, suffix ∈ [] :: byteSuffixes ∧ IsToken .raw content suffix
      (text.take (quotes + body + Lexeme.byteSuffix (text.drop (quotes + body)))) := by
  intro text
  obtain ⟨lexeme, behind, content, rfl, rfl, ends⟩ := exists_of_raw? measured
  rw [List.replicate_zero, List.nil_append] at ends
  subst ends
  have given : content ≠ [] := by
    rintro rfl
    obtain ⟨more, rfl⟩ := Nat.exists_eq_add_of_le' enough
    exact no_quote ⟨_, rfl⟩
  have opens : ¬ ['"'] <+: content := by
    intro quote
    rw [List.append_assoc] at no_quote
    exact no_quote (quote.trans (List.prefix_append _ _))
  have whole : text = List.replicate quotes '"' ++ (content ++ List.replicate quotes '"') ++ behind := by
    rw [List.append_assoc]
  have size : quotes + (content ++ List.replicate quotes '"').length =
      (List.replicate quotes '"' ++ (content ++ List.replicate quotes '"')).length := by
    simp only [List.length_append, List.length_replicate]
  obtain ⟨suffix, known, cut⟩ :=
    exists_take_byteSuffix (List.replicate quotes '"' ++ (content ++ List.replicate quotes '"')) behind
  refine ⟨content, suffix, known, ?_⟩
  rw [whole, size, List.drop_left, cut, List.append_assoc, List.append_assoc]
  exact .raw enough given opens suffix

/-- The literal that is measured at the front of a text is spelled as one, with or without a suffix. -/
theorem isToken_of_stringLength? {text : List Char} {length : Nat} {form : Form}
    (measured : stringLength? text = some (length, form)) :
    ∃ content suffix, suffix ∈ [] :: byteSuffixes ∧ IsToken form content suffix (text.take length) := by
  unfold stringLength? at measured
  split at measured
  · obtain ⟨body, inner, found⟩ := Option.bind_eq_some_iff.mp measured
    cases found
    exact isToken_verbatim inner
  · rename_i rest
    dsimp only at measured
    split_ifs at measured with enough
    · obtain ⟨body, inner, found⟩ := Option.bind_eq_some_iff.mp measured
      cases found
      obtain ⟨after, whole, no_quote⟩ := exists_quotes ('"' :: rest)
      generalize Lexeme.runLength (· = '"') ('"' :: rest) = quotes at *
      rw [whole] at inner ⊢
      rw [List.drop_left' List.length_replicate] at inner
      exact isToken_raw enough no_quote inner
    · obtain ⟨body, inner, found⟩ := Option.bind_eq_some_iff.mp measured
      cases found
      exact isToken_regular inner
  · cases measured

end Literal

open Literal

def Scan.isLiteral (found : Scan) : Bool :=
  match found.kind with
  | some (.string _) => true
  | _ => false

/-- What is found at the front of the text is a literal only where one is measured there. -/
def MeasuresLiterals (text : List Char) (result : Option Scan) : Prop :=
  ∀ found form, result = some found → found.kind = some (.string form) →
    stringLength? text = some (found.length, form)

namespace MeasuresLiterals

variable {text : List Char}

theorem none : MeasuresLiterals text none := by
  intro found form scanned
  cases scanned

theorem other {found : Scan} (different : found.isLiteral = false) : MeasuresLiterals text (some found) := by
  intro own form same literal
  cases same
  simp [Scan.isLiteral, literal] at different

theorem map {α : Type} {make : α → Scan} (different : ∀ a, (make a).isLiteral = false) (measured : Option α) :
    MeasuresLiterals text (measured.map make) := by
  cases measured with
  | none => exact .none
  | some a => exact .other (different a)

private theorem ite {condition : Prop} [Decidable condition] {first second : Option Scan}
    (positive : MeasuresLiterals text first) (negative : MeasuresLiterals text second) :
    MeasuresLiterals text (if condition then first else second) := by
  split
  · exact positive
  · exact negative

theorem directive (modes : List Mode) (text : List Char) : MeasuresLiterals text (scanDirective modes text) := by
  unfold scanDirective
  dsimp only
  split
  · exact .other rfl
  · exact .ite (.other rfl) .none

theorem symbol (modes : List Mode) (text : List Char) : MeasuresLiterals text (scanSymbol modes text) := by
  unfold scanSymbol
  split
  · exact .none
  · exact .other rfl

theorem code (modes : List Mode) (text : List Char) : MeasuresLiterals text (scanCode modes text) := by
  unfold scanCode
  split
  · exact .none
  · refine .ite (.other rfl) (.ite (.other rfl) (.ite (.map (fun _ => rfl) _) (.ite (directive modes _) ?_)))
    split
    · exact .other rfl
    · refine .ite ?_ (.ite (.map (fun _ => rfl) _) (.ite (.other rfl) (.ite (.other rfl) (symbol modes _))))
      intro found form scanned literal
      obtain ⟨⟨length, own⟩, measured, rfl⟩ := Option.map_eq_some_iff.mp scanned
      cases literal
      exact measured

theorem scan (modes : List Mode) (text : List Char) : MeasuresLiterals text (CSharp.scan modes text) := by
  unfold CSharp.scan
  split
  · exact .none
  · exact code _ text
  · unfold scanCondition
    split
    · exact .none
    · exact .ite (.other rfl) (.ite (.other rfl) (code _ _))
  · unfold scanText
    split
    · exact .none
    · exact .other rfl
    · exact .ite (.other rfl) (.other rfl)
  · unfold scanHole
    extract_lets braces
    split
    · exact .ite (.ite (.other rfl) .none) (code _ _)
    · exact .ite (.ite .none (.other rfl)) (code _ _)
    · exact code _ _

end MeasuresLiterals

/-- Every literal among the tokens of a text is spelled as one. -/
theorem isToken_of_tokensFrom {modes : List Mode} {line : Nat} {text : List Char} {tokens : List Token}
    (cut : tokensFrom modes line text = some tokens) {token : Token} (member : token ∈ tokens) {form : Form}
    (literal : token.kind = .string form) :
    ∃ content suffix, suffix ∈ [] :: byteSuffixes ∧ IsToken form content suffix token.text.toList := by
  fun_induction tokensFrom modes line text generalizing tokens with
  | case1 =>
    cases cut
    cases member
  | case2 => cases cut
  | case3 => cases cut
  | case4 => cases cut
  | case5 => cases cut
  | case6 _ _ _ _ _ _ _ _ later rest _ =>
    rename_i ih
    cases cut
    exact ih rest member
  | case7 modes line c text length onward lexeme tail later rest kind scanned =>
    rename_i ih
    cases cut
    rcases List.mem_cons.mp member with rfl | member
    · have measured := MeasuresLiterals.scan modes (c :: text) _ form scanned (congrArg some literal)
      rw [String.toList_ofList]
      exact isToken_of_stringLength? measured
    · exact ih rest member

/-- Every literal of a source is spelled as one, with or without a suffix. -/
theorem isToken_of_literals? {source : String} {literals : List Token} (accepted : literals? source = some literals)
    {token : Token} (member : token ∈ literals) :
    ∃ form content suffix, token.kind = .string form ∧ suffix ∈ [] :: byteSuffixes ∧
      IsToken form content suffix token.text.toList := by
  obtain ⟨trees, parsed, rfl⟩ := Option.map_eq_some_iff.mp accepted
  obtain ⟨member, isString⟩ := List.mem_filter.mp member
  have cut := tokensAll_of_parse parsed
  rw [tokenize] at cut
  cases kind : token.kind with
  | string form =>
    obtain ⟨content, suffix, known, shape⟩ := isToken_of_tokensFrom cut member kind
    exact ⟨form, content, suffix, rfl, known, shape⟩
  | _ => simp [Token.isString, kind] at isString

/-! ## Arguments -/

private theorem spells_append_cons {before after : List Tree} {argument : Tree} {values : List String} :
    Spells (before ++ argument :: after) values ↔ ∃ earlier later, Spells before earlier ∧ Spells after later ∧
      values = earlier ++ argument.literalArgument?.toList ++ later := by
  simp only [spells_iff]
  rw [List.filterMap_append, List.filterMap_cons]
  constructor
  · rintro rfl
    refine ⟨_, _, rfl, rfl, ?_⟩
    cases argument.literalArgument? <;> simp
  · rintro ⟨_, _, rfl, rfl, rfl⟩
    cases argument.literalArgument? <;> simp

private theorem literalArgument?_leaf (kind : NodeKind) (front : List Tree) (token : Token) :
    (Tree.node kind (front ++ [.leaf token])).literalArgument? = token.value? := by
  simp [Tree.literalArgument?, Tree.children]

section Bytes

variable {token : Token} {form : Form} {content suffix : List Char} (literal : token.kind = .string form)
  (shape : IsToken form content suffix token.text.toList) (bytes : suffix ∈ byteSuffixes)
include literal shape bytes

private theorem value?_of_isToken :
    token.value? = if form = .raw then some (String.ofList (rawBytesValue content)) else none := by
  rw [Token.value?, literal]
  dsimp only
  rw [shape.value?_bytes bytes]
  split <;> rfl

private theorem value?_eq_none_iff : token.value? = none ↔ form ≠ .raw := by
  rw [value?_of_isToken literal shape bytes, ite_eq_right_iff]
  exact ⟨fun absent raw => Option.some_ne_none _ (absent raw), fun other raw => absurd raw other⟩

end Bytes

/-- A literal with a suffix has no value, and the literals of a call are those of the other arguments, unless it is raw:
then two of its quotes are left behind what it holds, and this is one of the literals of the call. In a source, a
literal has no value just where it has a suffix and is not raw. -/
theorem value?_byteLiteral (token : Token) :
    (∀ form content suffix, token.kind = .string form → IsToken form content suffix token.text.toList →
      suffix ∈ byteSuffixes →
      (token.value? = none ↔ form ≠ .raw) ∧
      ∀ front before after values, Spells (before ++ .node .argument (front ++ [.leaf token]) :: after) values ↔
        ∃ earlier later, Spells before earlier ∧ Spells after later ∧
          values = earlier ++ (if form = .raw then [String.ofList (rawBytesValue content)] else []) ++ later) ∧
    ∀ source literals, literals? source = some literals → token ∈ literals →
      ∃ form content suffix, token.kind = .string form ∧ IsToken form content suffix token.text.toList ∧
        suffix ∈ [] :: byteSuffixes ∧ (token.value? = none ↔ form ≠ .raw ∧ suffix ∈ byteSuffixes) := by
  constructor
  · intro form content suffix literal shape bytes
    refine ⟨value?_eq_none_iff literal shape bytes, ?_⟩
    intro front before after values
    rw [spells_append_cons, literalArgument?_leaf, value?_of_isToken literal shape bytes]
    split <;> rfl
  · intro source literals accepted member
    obtain ⟨form, content, suffix, literal, known, shape⟩ := isToken_of_literals? accepted member
    refine ⟨form, content, suffix, literal, shape, known, ?_⟩
    rcases List.mem_cons.mp known with rfl | bytes
    · have some_value : token.value? ≠ none := by
        rw [Token.value?, literal]
        exact mt Option.map_eq_none_iff.mp shape.value?_text
      simp [some_value, byteSuffixes]
    · rw [value?_eq_none_iff literal shape bytes, and_iff_left bytes]

/-- A verbatim literal with a suffix, alone among the arguments of a call. -/
theorem value?_byteLiteral_verbatim :
    let token : Token := ⟨.string .verbatim, "@\"a\"\"b\"U8", 1, false⟩
    (IsToken .verbatim "a\"\"b".toList ['U', '8'] token.text.toList ∧ ['U', '8'] ∈ byteSuffixes) ∧
      token.value? = none ∧ Spells [.node .argument [.leaf token]] [] := by
  intro token
  have shape : IsToken .verbatim "a\"\"b".toList ['U', '8'] token.text.toList := by
    have written : token.text.toList = '@' :: '"' :: ("a\"\"b".toList ++ '"' :: ['U', '8']) := by decide
    rw [written]
    exact .verbatim _ _
  have bytes : ['U', '8'] ∈ byteSuffixes := by decide
  obtain ⟨value, arguments⟩ := (value?_byteLiteral token).1 .verbatim _ _ rfl shape bytes
  exact ⟨⟨shape, bytes⟩, value.mpr (by decide), (arguments [] [] [] []).mpr ⟨[], [], .nil, .nil, rfl⟩⟩

/-- The bytes of a raw literal make an id, with two quotes behind them. -/
theorem extract?_rawBytes :
    IsToken .raw ['a', 'b', 'c'] ['u', '8'] "\"\"\"abc\"\"\"u8".toList ∧ ['u', '8'] ∈ byteSuffixes ∧
      Form.raw.value? "\"\"\"abc\"\"\"u8".toList = some "abc\"\"".toList ∧
      extract? ⟨"GetText", "LocalizedText"⟩ "a.cs" "T.GetText(\"\"\"abc\"\"\"u8);" =
        some [⟨"a.cs", 1, "abc\"\"", none, none, none⟩] := by
  refine ⟨?_, by decide, by decide, by decide +kernel⟩
  have written : "\"\"\"abc\"\"\"u8".toList =
      List.replicate 3 '"' ++ (['a', 'b', 'c'] ++ (List.replicate 3 '"' ++ ['u', '8'])) := by decide
  rw [written]
  exact .raw (Nat.le_refl 3) (by simp) (by simp) _

end TextHarvest.CSharp
