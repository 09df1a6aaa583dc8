import TextHarvest.CSharp.Lexeme
import TextHarvest.CSharp.Token
import TextHarvest.Text.Blank

/-! # Cutting C# source into tokens

`tokenize` reads the source from left to right. What a character means depends on where it stands: in code, in the
text of an interpolated string, in a hole of such a string, or behind a conditional directive. A stack of `Mode`s
records this. At every position `scan` measures one lexeme, says which token it makes, if any, and how the stack
changes; the lexemes are cut off one after the other, so together they are the whole source.

The source is refused when a character opens no lexeme, when a literal or a comment has no end, or when the source
ends inside an interpolated string.
-/

namespace TextHarvest.CSharp

/-- How an interpolated string is delimited: its form, the dollar signs, the quotes. -/
structure TextShape where
  form : Literal.Form
  dollars : Nat
  quotes : Nat
deriving DecidableEq, Repr

/-- Where in the source the next lexeme stands. -/
inductive Mode
  | code
  /-- Behind a conditional directive, up to the end of the line. -/
  | condition
  /-- In the text of an interpolated string. -/
  | text (shape : TextShape)
  /-- In a hole of an interpolated string, with the number of open brackets and, outside all of them, of question
  marks that still wait for their colon. -/
  | hole (shape : TextShape) (depth questions : Nat)
deriving DecidableEq, Repr

/-- One lexeme: its length, the token it makes, and where the source goes on. -/
structure Scan where
  length : Nat
  kind : Option TokenKind
  modes : List Mode

/-- Characters that separate tokens. -/
def isSpace (c : Char) : Bool :=
  Text.isBlank c || c == Text.byteOrderMark

/-- The directives that divide the source, by name. -/
def conditionals : List (String × Conditional) :=
  [("if", .openIf), ("elif", .elseIf), ("else", .otherwise), ("endif", .endIf)]

/-- The directives that annotate the source, by name. -/
def annotations : List String :=
  ["region", "endregion", "pragma", "error", "warning", "line", "nullable", "define", "undef"]

/-- The directive at a number sign: the name counts; an annotating directive goes on to the end of the line. -/
def scanDirective (modes : List Mode) (text : List Char) : Option Scan :=
  let spaces := Lexeme.runLength (fun c => c = ' ' || c = '\t') (text.drop 1)
  let name := String.ofList ((text.drop (1 + spaces)).takeWhile Char.isAlpha)
  let length := 1 + spaces + name.length
  match conditionals.lookup name with
  | some conditional =>
    let waits := conditional == .openIf || conditional == .elseIf
    some ⟨length, some (.directive conditional), if waits then .condition :: modes else modes⟩
  | none =>
    if annotations.contains name then some ⟨Lexeme.runLength (· ≠ '\n') text, none, modes⟩ else none

/-- The shape of the interpolated string that opens here, and the length of its opening. -/
def textOpening? (text : List Char) : Option (Nat × TextShape) :=
  let atFirst := if text.head? = some '@' then 1 else 0
  let dollars := Lexeme.runLength (· = '$') (text.drop atFirst)
  let signs := atFirst + dollars
  let atLast := if atFirst = 0 && (text.drop signs).head? = some '@' then 1 else 0
  let quotes := Lexeme.runLength (· = '"') (text.drop (signs + atLast))
  if dollars = 0 || quotes = 0 then none
  else if atFirst + atLast = 1 then some (signs + atLast + 1, ⟨.verbatim, dollars, 1⟩)
  else if quotes = 1 then some (signs + 1, ⟨.regular, dollars, 1⟩)
  else if 3 ≤ quotes then some (signs + quotes, ⟨.raw, dollars, quotes⟩)
  else none

/-- The string literal that opens at a quote, or at an at sign and a quote. -/
def stringLength? (text : List Char) : Option (Nat × Literal.Form) :=
  match text with
  | '@' :: '"' :: rest => do
    let body ← Lexeme.verbatim? rest
    return (2 + body + Lexeme.byteSuffix (rest.drop body), .verbatim)
  | '"' :: rest =>
    let quotes := Lexeme.runLength (· = '"') text
    if 3 ≤ quotes then do
      let body ← Lexeme.raw? quotes 0 (text.drop quotes)
      let length := quotes + body
      return (length + Lexeme.byteSuffix (text.drop length), .raw)
    else do
      let body ← Lexeme.regular? rest
      return (1 + body + Lexeme.byteSuffix (rest.drop body), .regular)
  | _ => none

/-- How an operator or a bracket changes the bookkeeping of the hole it stands in; `next` is the character after
it. A question mark before a point or a square bracket does not wait for a colon. -/
def Mode.afterSymbol (symbol : String) (next : Option Char) : Mode → Mode
  | .hole shape depth questions =>
    if symbol == "(" || symbol == "[" || symbol == "\x7b" then .hole shape (depth + 1) questions
    else if symbol == ")" || symbol == "]" || symbol == "\x7d" then .hole shape (depth - 1) questions
    else if depth = 0 && symbol == "?" && next != some '.' && next != some '[' then
      .hole shape depth (questions + 1)
    else if depth = 0 && symbol == ":" then .hole shape depth (questions - 1)
    else .hole shape depth questions
  | mode => mode

/-- Bookkeeping of the innermost mode after an operator or a bracket. -/
def afterSymbol (symbol : String) (next : Option Char) : List Mode → List Mode
  | mode :: modes => mode.afterSymbol symbol next :: modes
  | [] => []

def scanSymbol (modes : List Mode) (text : List Char) : Option Scan :=
  match Lexeme.symbol text with
  | 0 => none
  | length + 1 =>
    let symbol := String.ofList (text.take (length + 1))
    some ⟨length + 1, some .symbol, afterSymbol symbol (text.drop (length + 1)).head? modes⟩

def scanCode (modes : List Mode) (text : List Char) : Option Scan :=
  match text with
  | [] => none
  | c :: rest =>
    if isSpace c then some ⟨Lexeme.runLength isSpace text, none, modes⟩
    else if c = '/' && rest.head? = some '/' then
      some ⟨Lexeme.runLength (fun d => d ≠ '\n' && d ≠ '\r') text, none, modes⟩
    else if c = '/' && rest.head? = some '*' then
      (Lexeme.blockComment? (rest.drop 1)).map fun length => ⟨2 + length, none, modes⟩
    else if c = '#' then scanDirective modes text
    else
      match textOpening? text with
      | some (length, shape) => some ⟨length, some .openText, .text shape :: modes⟩
      | none =>
        if c = '"' || (c = '@' && rest.head? = some '"') then
          (stringLength? text).map fun (length, form) => ⟨length, some (.string form), modes⟩
        else if c = '\'' then
          (Lexeme.character? rest).map fun length => ⟨1 + length, some .character, modes⟩
        else if Lexeme.number text ≠ 0 then some ⟨Lexeme.number text, some .number, modes⟩
        else if Lexeme.word text ≠ 0 then some ⟨Lexeme.word text, some .word, modes⟩
        else scanSymbol modes text

/-- A lexeme behind a conditional directive, where the end of the line is a token. -/
def scanCondition (modes : List Mode) (text : List Char) : Option Scan :=
  match text with
  | [] => none
  | c :: _ =>
    if c = '\n' then some ⟨1, some .lineEnd, modes⟩
    else if isSpace c then
      some ⟨Lexeme.runLength (fun d => isSpace d && d ≠ '\n') text, none, .condition :: modes⟩
    else scanCode (.condition :: modes) text

/-- A lexeme in a hole: code, until the hole or its format text closes it. -/
def scanHole (shape : TextShape) (depth questions : Nat) (modes : List Mode) (text : List Char) : Option Scan :=
  let braces := if shape.form = .raw then shape.dollars else 1
  match text with
  | '}' :: _ =>
    if depth = 0 then
      if braces ≤ Lexeme.runLength (· = '}') text then some ⟨braces, some .closeHole, modes⟩ else none
    else scanCode (.hole shape depth questions :: modes) text
  | ':' :: rest =>
    if depth = 0 && questions = 0 && rest.head? ≠ some ':' then
      let length := Lexeme.runLength (fun c => c ≠ '}' && c ≠ '"') rest
      if length = 0 then none else some ⟨1 + length, some .format, .hole shape depth questions :: modes⟩
    else scanCode (.hole shape depth questions :: modes) text
  | _ => scanCode (.hole shape depth questions :: modes) text

/-- The length of the text in front of the next hole or of the closing quotes of an interpolated string; `pending`
characters belong to an escape or a run that has begun. -/
def textLength? (shape : TextShape) : Nat → List Char → Option Nat
  | _, [] => none
  | pending + 1, _ :: rest => (textLength? shape pending rest).map (· + 1)
  | 0, c :: rest =>
    let go (pending : Nat) := (textLength? shape pending rest).map (· + 1)
    let run := Lexeme.runLength (· = c) (c :: rest)
    match shape.form with
    | .raw =>
      if c = '"' then if run = shape.quotes then some 0 else go (run - 1)
      else if c = '\x7b' then if shape.dollars ≤ run then some (run - shape.dollars) else go (run - 1)
      else go 0
    | .verbatim =>
      if c = '"' then if 2 ≤ run then go 1 else some 0
      else if c = '\x7b' then if 2 ≤ run then go 1 else some 0
      else go 0
    | .regular =>
      if c = '"' then some 0
      else if c = '\x7b' then if 2 ≤ run then go 1 else some 0
      else if c = '\\' then
        match Lexeme.strictEscape? rest with
        | some length => go length
        | none => none
      else if c = '\n' then none
      else go 0

/-- A lexeme in the text of an interpolated string: some text, the opening of a hole, or the closing quotes. -/
def scanText (shape : TextShape) (modes : List Mode) (text : List Char) : Option Scan :=
  match textLength? shape 0 text with
  | none => none
  | some (length + 1) => some ⟨length + 1, some .textPart, .text shape :: modes⟩
  | some 0 =>
    if text.head? = some '"' then some ⟨shape.quotes, some .closeText, modes⟩
    else
      let braces := if shape.form = .raw then shape.dollars else 1
      some ⟨braces, some .openHole, .hole shape 0 0 :: .text shape :: modes⟩

/-- The lexeme at the front of the text. -/
def scan (modes : List Mode) (text : List Char) : Option Scan :=
  match modes with
  | [] => none
  | .code :: _ => scanCode modes text
  | .condition :: outer => scanCondition outer text
  | .text shape :: outer => scanText shape outer text
  | .hole shape depth questions :: outer => scanHole shape depth questions outer text

/-- May the source end here? It may not end inside an interpolated string. -/
def mayEnd : List Mode → Bool
  | [.code] => true
  | [.condition, .code] => true
  | _ => false

/-- Does a token follow at once? A slash may open a comment and counts as a blank. -/
def joinsNext : List Char → Bool
  | [] => false
  | c :: _ => !isSpace c && c != '/'

/-- Cut the text into tokens, where `line` is the line of its first character. -/
def tokensFrom (modes : List Mode) (line : Nat) (text : List Char) : Option (List Token) :=
  match text with
  | [] => if mayEnd modes then some [] else none
  | c :: rest =>
    match scan modes (c :: rest) with
    | none => none
    | some ⟨0, _, _⟩ => none
    | some ⟨length + 1, kind, modes⟩ =>
      let lexeme := c :: rest.take length
      let tail := rest.drop length
      match tokensFrom modes (line + lexeme.count '\n') tail with
      | none => none
      | some tokens =>
        match kind with
        | none => some tokens
        | some kind => some (⟨kind, String.ofList lexeme, line, joinsNext tail⟩ :: tokens)
termination_by text.length
decreasing_by
  simp only [List.length_cons, List.length_drop]
  omega

/-- The length of a first line that names an interpreter, without its line feed. -/
def interpreterLine (text : List Char) : Nat :=
  if ['#', '!'].isPrefixOf text then Lexeme.runLength (· ≠ '\n') text else 0

/-- The tokens of a source text, or `none` if the text cannot be cut. -/
def tokenize (source : List Char) : Option (List Token) :=
  tokensFrom [.code] 1 (source.drop (interpreterLine source))

end TextHarvest.CSharp
