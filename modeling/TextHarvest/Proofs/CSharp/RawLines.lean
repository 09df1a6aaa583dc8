import TextHarvest.Proofs.CSharp.LiteralForms

/-! # Raw literals of many lines

A raw literal that opens with a line break holds whole lines, and the blanks before its closing quotes are the
indentation that its lines lose. `rawBlock` writes such a literal; an empty line may stand there without indentation.
Reading gives back the lines as they were before they were indented, whatever line break separates them
(`rawValue?_rawBlock`).

Reading cuts the literal at byte offsets, which it finds from the ends. `IsByteSlice` says that a cut is safe: both
offsets are inside the text and between two of its characters.
-/

namespace TextHarvest.CSharp.Literal

/-! ## Cuts by bytes -/

/-- The piece stands between two byte offsets of the text, and no character stands across one of them. -/
structure IsByteSlice (text : String) (start stop : Nat) (piece : String) : Prop where
  ordered : start ≤ stop
  start_valid : String.Pos.Raw.IsValid text ⟨start⟩
  stop_valid : String.Pos.Raw.IsValid text ⟨stop⟩
  bytes : text.toByteArray.extract start stop = piece.toByteArray

private theorem isByteSlice_append (before piece after : String) :
    IsByteSlice (before ++ (piece ++ after)) before.utf8ByteSize (before.utf8ByteSize + piece.utf8ByteSize) piece where
  ordered := Nat.le_add_right _ _
  start_valid := String.Pos.Raw.isValid_iff_exists_append.mpr ⟨before, piece ++ after, rfl, rfl⟩
  stop_valid := by
    refine String.Pos.Raw.isValid_iff_exists_append.mpr ⟨before ++ piece, after, String.append_assoc.symm, ?_⟩
    rw [← String.utf8ByteSize_append]
    rfl
  bytes := by
    have nothing : before.toByteArray.extract before.toByteArray.size
        (before.toByteArray.size + piece.toByteArray.size) = ByteArray.empty := by
      rw [ByteArray.extract_eq_empty_iff]
      omega
    rw [String.toByteArray_append, String.toByteArray_append, ← String.size_toByteArray, ← String.size_toByteArray,
      ByteArray.extract_append, nothing, ByteArray.empty_append, Nat.sub_self, Nat.add_sub_cancel_left,
      ByteArray.extract_append_eq_left rfl]

private theorem utf8ByteSize_quotes (quotes : Nat) :
    (String.ofList (List.replicate quotes '"')).utf8ByteSize = quotes := by
  induction quotes with
  | zero => rfl
  | succ quotes ih =>
    rw [List.replicate_succ, ← List.singleton_append, String.ofList_append, String.utf8ByteSize_append, ih,
      Nat.add_comm]
    rfl

/-- As many bytes as quotes open a literal are cut from both its ends. -/
theorem isByteSlice_quotes (quotes : Nat) (inner : List Char) :
    let token := String.ofList (List.replicate quotes '"' ++ (inner ++ List.replicate quotes '"'))
    IsByteSlice token quotes (token.utf8ByteSize - quotes) (String.ofList inner) := by
  intro token
  have whole : token = String.ofList (List.replicate quotes '"') ++
      (String.ofList inner ++ String.ofList (List.replicate quotes '"')) := by
    rw [← String.ofList_append, ← String.ofList_append]
  have slice := isByteSlice_append (String.ofList (List.replicate quotes '"')) (String.ofList inner)
    (String.ofList (List.replicate quotes '"'))
  rw [← whole, utf8ByteSize_quotes] at slice
  have size : token.utf8ByteSize - quotes = quotes + (String.ofList inner).utf8ByteSize := by
    rw [whole, String.utf8ByteSize_append, String.utf8ByteSize_append, utf8ByteSize_quotes]
    omega
  rw [size]
  exact slice

/-- A text is cut at a line feed in two: before it and behind it. -/
theorem isByteSlice_feed (content rest : List Char) :
    let text := String.ofList (content ++ '\n' :: rest)
    let feed := (String.ofList content).utf8ByteSize
    IsByteSlice text 0 feed (String.ofList content) ∧
      IsByteSlice text (feed + 1) text.utf8ByteSize (String.ofList rest) := by
  intro text feed
  have whole : text = String.ofList content ++ ("\n" ++ String.ofList rest) := by
    have mark : "\n" = String.ofList ['\n'] := rfl
    rw [mark, ← String.ofList_append, ← String.ofList_append, List.singleton_append]
  have mark : "\n".utf8ByteSize = 1 := rfl
  constructor
  · have slice := isByteSlice_append "" (String.ofList content) ("\n" ++ String.ofList rest)
    rw [String.empty_append, ← whole, String.utf8ByteSize_empty, Nat.zero_add] at slice
    exact slice
  · have slice := isByteSlice_append (String.ofList content ++ "\n") (String.ofList rest) ""
    rw [String.append_empty, String.append_assoc, ← whole, String.utf8ByteSize_append, mark] at slice
    have size : text.utf8ByteSize = feed + 1 + (String.ofList rest).utf8ByteSize := by
      rw [whole, String.utf8ByteSize_append, String.utf8ByteSize_append, mark, Nat.add_assoc]
    rw [size]
    exact slice

private theorem splitLastLine?_append (content : List Char) {last : List Char} (flat : '\n' ∉ last) :
    splitLastLine? (content ++ '\n' :: last) = some (content, last) := by
  have none_of_flat : splitLastLine? last = none := by
    induction last with
    | nil => rfl
    | cons c last ih =>
      obtain ⟨other, flat⟩ := List.ne_and_not_mem_of_not_mem_cons flat
      rw [splitLastLine?, ih flat]
      exact if_neg other.symm
  induction content with
  | nil => simp [splitLastLine?, none_of_flat]
  | cons c content ih => rw [List.cons_append, splitLastLine?, ih]

/-! ## Lines -/

/-- The line breaks of a source text. -/
inductive LineBreak
  | feed
  | returnFeed
deriving DecidableEq, Repr

/-- What stands before the line feed of a line break. -/
def LineBreak.carriage : LineBreak → List Char
  | feed => []
  | returnFeed => ['\r']

def LineBreak.text (ending : LineBreak) : List Char :=
  ending.carriage ++ ['\n']

/-- A line of a raw literal, and whether it is written without the indentation. Only an empty line is. -/
structure RawLine where
  text : List Char
  bare : Bool
  no_feed : '\n' ∉ text
  no_return : '\r' ∉ text
  empty_of_bare : bare = true → text = []

/-- The line as it is written, without its line break. -/
def RawLine.written (indent : List Char) (line : RawLine) : List Char :=
  if line.bare then [] else indent ++ line.text

/-- What stands between the first line break of a raw literal and its closing quotes. -/
def rawBody (ending : LineBreak) (indent : List Char) (lines : List RawLine) : List Char :=
  lines.flatMap (fun line => line.written indent ++ ending.text) ++ indent

/-- A raw literal that holds lines. -/
def rawBlock (quotes : Nat) (ending : LineBreak) (indent : List Char) (lines : List RawLine) : List Char :=
  List.replicate quotes '"' ++ ((ending.text ++ rawBody ending indent lines) ++ List.replicate quotes '"')

private theorem afterLineBreak?_text (ending : LineBreak) (rest : List Char) :
    afterLineBreak? (ending.text ++ rest) = some rest := by
  cases ending <;> rfl

/-- A carriage return before a line feed is dropped, and no other character. -/
theorem dropTail_carriage (ending : LineBreak) {text : List Char} (ends : text.getLast? ≠ some '\r') :
    dropTail ['\r'] (text ++ ending.carriage) = text := by
  cases ending with
  | feed =>
    have none : ['\r'].isSuffixOf? text = none := by
      rw [Option.eq_none_iff_forall_ne_some]
      intro front found
      have whole := List.isSuffixOf?_eq_some_iff_append_eq.mp found
      exact ends (by rw [← whole, List.getLast?_append]; rfl)
    rw [LineBreak.carriage, List.append_nil, dropTail, none, Option.getD_none]
  | returnFeed =>
    have found : ['\r'].isSuffixOf? (text ++ ['\r']) = some text :=
      List.isSuffixOf?_eq_some_iff_append_eq.mpr rfl
    rw [LineBreak.carriage, dropTail, found, Option.getD_some]

/-- A line loses its indentation, and nothing if it has none. -/
theorem dropHead_written (indent : List Char) (line : RawLine) : dropHead indent (line.written indent) = line.text := by
  unfold RawLine.written
  split_ifs with bare
  · rw [line.empty_of_bare bare]
    cases indent <;> rfl
  · have found : indent.isPrefixOf? (indent ++ line.text) = some line.text :=
      List.isPrefixOf?_eq_some_iff_append_eq.mpr rfl
    rw [dropHead, found, Option.getD_some]

private theorem splitOn_lines {lines : List (List Char)} {last : List Char} (closed : ∀ line ∈ lines, '\n' ∉ line)
    (flat : '\n' ∉ last) : (lines.flatMap (· ++ ['\n']) ++ last).splitOn '\n' = lines ++ [last] := by
  induction lines with
  | nil => exact List.splitOn_eq_singleton flat
  | cons line lines ih =>
    obtain ⟨here, later⟩ := List.forall_mem_cons.mp closed
    rw [List.flatMap_cons, List.append_assoc, List.append_assoc, List.singleton_append,
      List.splitOn_append_cons_self_of_not_mem here, ih later, List.cons_append]

/-- Lines with line feeds behind them and one more line end in the last character of this line, or in a line feed. -/
theorem getLast?_lines (lines : List (List Char)) {last : List Char} (clean : '\r' ∉ last) :
    (lines.flatMap (· ++ ['\n']) ++ last).getLast? ≠ some '\r' := by
  intro ends
  rw [List.getLast?_append, Option.or_eq_some_iff] at ends
  rcases ends with inside | ⟨_, before⟩
  · exact clean (List.mem_of_getLast? inside)
  · rcases List.eq_nil_or_concat lines with rfl | ⟨front, line, rfl⟩
    · cases before
    · simp at before

/-- The last line feed of a block stands before the indentation of its closing quotes. -/
theorem rawBody_concat (ending : LineBreak) (indent : List Char) (front : List RawLine) (last : RawLine) :
    rawBody ending indent (front ++ [last]) =
      (front.map fun line => line.written indent ++ ending.carriage).flatMap (· ++ ['\n']) ++
        last.written indent ++ ending.carriage ++ '\n' :: indent := by
  simp [rawBody, LineBreak.text, List.flatMap_map]

private theorem exists_rawBody (ending : LineBreak) (indent : List Char) {lines : List RawLine} (given : lines ≠ []) :
    ∃ content, rawBody ending indent lines = content ++ '\n' :: indent := by
  obtain ⟨front, last, rfl⟩ := (List.eq_nil_or_concat lines).resolve_left given
  rw [List.concat_eq_append]
  exact ⟨_, rawBody_concat ending indent front last⟩

section Block

variable {indent : List Char} (blank : ∀ c ∈ indent, c = ' ' ∨ c = '\t')
include blank

private theorem not_mem_indent {c : Char} (dark : c ≠ ' ' ∧ c ≠ '\t') : c ∉ indent := by
  intro member
  exact (blank c member).elim dark.1 dark.2

private theorem not_mem_written {c : Char} (dark : c ≠ ' ' ∧ c ≠ '\t') {line : RawLine} (inside : c ∉ line.text) :
    c ∉ line.written indent := by
  have front := not_mem_indent blank dark
  unfold RawLine.written
  split_ifs <;> simp [inside, front]

private theorem feed_not_mem_indent : '\n' ∉ indent :=
  not_mem_indent blank (by decide)

private theorem feed_not_mem_written (line : RawLine) : '\n' ∉ line.written indent :=
  not_mem_written blank (by decide) line.no_feed

private theorem return_not_mem_written (line : RawLine) : '\r' ∉ line.written indent :=
  not_mem_written blank (by decide) line.no_return

private theorem line_value (ending : LineBreak) (line : RawLine) :
    dropHead indent (dropTail ['\r'] (line.written indent ++ ending.carriage)) = line.text := by
  have ends : (line.written indent).getLast? ≠ some '\r' :=
    fun last => return_not_mem_written blank line (List.mem_of_getLast? last)
  rw [dropTail_carriage ending ends, dropHead_written]

/-- Every line loses its indentation and its line break. The carriage return of the last line is dropped with the
closing line, those of the others one by one. -/
theorem multilineValue_rawBody (ending : LineBreak) {lines : List RawLine} (given : lines ≠ []) :
    multilineValue (rawBody ending indent lines) = ['\n'].intercalate (lines.map RawLine.text) := by
  obtain ⟨front, last, rfl⟩ := (List.eq_nil_or_concat lines).resolve_left given
  have closed : ∀ line ∈ front.map fun line => line.written indent ++ ending.carriage, '\n' ∉ line := by
    rw [List.forall_mem_map]
    intro line _
    have flat := feed_not_mem_written blank line
    cases ending <;> simp [LineBreak.carriage, flat]
  have closing : dropHead indent (dropTail ['\r'] (last.written indent)) = last.text := by
    simpa [LineBreak.carriage] using line_value blank .feed last
  rw [List.concat_eq_append, multilineValue, rawBody_concat, splitLastLine?_append _ (feed_not_mem_indent blank)]
  dsimp only
  rw [dropTail_carriage ending (getLast?_lines _ (return_not_mem_written blank last)),
    splitOn_lines closed (feed_not_mem_written blank last), List.map_append, List.map_map, List.map_singleton, closing,
    List.map_append, List.map_singleton]
  congr 2
  apply List.map_congr_left
  intro line _
  exact line_value blank ending line

/-- A raw literal of lines stands for these lines as they were before they were indented, for both line breaks. What is
cut off by bytes is what is cut off by characters, and all cuts are safe: those of the quotes at both ends, and those
around the last line feed of what is left. -/
theorem rawValue?_rawBlock {quotes : Nat} (enough : 3 ≤ quotes) (ending : LineBreak) {lines : List RawLine}
    (given : lines ≠ []) :
    let token := rawBlock quotes ending indent lines
    rawValue? token = some (['\n'].intercalate (lines.map RawLine.text)) ∧
      ∃ inner body content : List Char,
        (token.drop quotes).take (token.length - 2 * quotes) = inner ∧ afterLineBreak? inner = some body ∧
        splitLastLine? body = some (content, indent) ∧
        IsByteSlice (.ofList token) quotes ((String.ofList token).utf8ByteSize - quotes) (.ofList inner) ∧
        IsByteSlice (.ofList body) 0 (String.ofList content).utf8ByteSize (.ofList content) ∧
        IsByteSlice (.ofList body) ((String.ofList content).utf8ByteSize + 1) (String.ofList body).utf8ByteSize
          (.ofList indent) := by
  intro token
  have inner_ne : ending.text ++ rawBody ending indent lines ≠ [] := by
    cases ending <;> exact List.cons_ne_nil _ _
  have no_quote : ¬ ['"'] <+: ending.text ++ rawBody ending indent lines := by
    cases ending <;> simp [LineBreak.text, LineBreak.carriage]
  have value := rawValue?_enclosed enough inner_ne no_quote (List.length_replicate (a := '"'))
  rw [afterLineBreak?_text, Option.elim_some, multilineValue_rawBody blank ending given] at value
  refine ⟨value, ending.text ++ rawBody ending indent lines, rawBody ending indent lines, ?_⟩
  obtain ⟨content, whole⟩ := exists_rawBody ending indent given
  have last_feed : splitLastLine? (rawBody ending indent lines) = some (content, indent) := by
    rw [whole]
    exact splitLastLine?_append content (feed_not_mem_indent blank)
  have around := isByteSlice_feed content indent
  rw [← whole] at around
  exact ⟨content, take_drop_quotes _ List.length_replicate, afterLineBreak?_text ending _, last_feed,
    isByteSlice_quotes quotes _, around⟩

end Block

/-- A line with quotes and a wide character, empty lines with and without indentation, and a line that goes on with more
of the indentation. -/
theorem rawValue?_rawBlock_quotes :
    let lines : List RawLine := [⟨['é', '"', '"', '"'], false, by decide, by decide, by decide⟩,
      ⟨[], true, by decide, by decide, by decide⟩, ⟨[], false, by decide, by decide, by decide⟩,
      ⟨[' ', '\t', 'b'], false, by decide, by decide, by decide⟩]
    (3 ≤ 4 ∧ lines ≠ [] ∧ ' ' ∈ [' ', '\t'] ∧ (' ' = ' ' ∨ ' ' = '\t')) ∧
      rawBlock 4 .returnFeed [' ', '\t'] lines =
        "\"\"\"\"\r\n \té\"\"\"\r\n\r\n \t\r\n \t \tb\r\n \t\"\"\"\"".toList ∧
      rawValue? "\"\"\"\"\r\n \té\"\"\"\r\n\r\n \t\r\n \t \tb\r\n \t\"\"\"\"".toList =
        some "é\"\"\"\n\n\n \tb".toList := by
  intro lines
  have blank : ∀ c ∈ [' ', '\t'], c = ' ' ∨ c = '\t' := by simp
  have given : lines ≠ [] := List.cons_ne_nil _ _
  have token : rawBlock 4 .returnFeed [' ', '\t'] lines =
      "\"\"\"\"\r\n \té\"\"\"\r\n\r\n \t\r\n \t \tb\r\n \t\"\"\"\"".toList := by decide
  have value := (rawValue?_rawBlock blank (by decide : 3 ≤ 4) .returnFeed given).1
  rw [token] at value
  exact ⟨⟨by decide, given, List.mem_cons_self, .inl rfl⟩, token, value.trans (by decide)⟩

end TextHarvest.CSharp.Literal
