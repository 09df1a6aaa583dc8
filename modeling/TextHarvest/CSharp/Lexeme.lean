import TextHarvest.CSharp.Literal
import TextHarvest.Text.Identifier

/-! # Lengths of lexemes

For every class of lexeme a function that measures, at the front of a text, how many characters belong to it. A
measure of a literal or a comment is `none` when the lexeme has no end.
-/

namespace TextHarvest.CSharp.Lexeme

/-- The length of the longest front of `text` whose characters are all in the class. -/
def runLength (inClass : Char → Bool) (text : List Char) : Nat :=
  (text.takeWhile inClass).length

/-- The rest of a comment between `/*` and `*/`, the closing pair included. -/
def blockComment? : List Char → Option Nat
  | '*' :: '/' :: _ => some 2
  | _ :: rest => (blockComment? rest).map (· + 1)
  | [] => none

/-- The rest of a regular literal after its opening quote, the closing quote included. A line feed ends no literal,
unless a backslash stands before it. -/
def regular? : List Char → Option Nat
  | '"' :: _ => some 1
  | '\\' :: _ :: rest => (regular? rest).map (· + 2)
  | c :: rest => if c = '\n' then none else (regular? rest).map (· + 1)
  | [] => none

/-- The rest of a verbatim literal after its opening quote, the closing quote included. -/
def verbatim? : List Char → Option Nat
  | '"' :: '"' :: rest => (verbatim? rest).map (· + 2)
  | '"' :: _ => some 1
  | _ :: rest => (verbatim? rest).map (· + 1)
  | [] => none

/-- The rest of a raw literal after its opening quotes, up to the end of a run of exactly `quotes` quotes; `run`
quotes stand right before the text. -/
def raw? (quotes run : Nat) : List Char → Option Nat
  | [] => if run = quotes then some 0 else none
  | c :: rest =>
    if c = '"' then (raw? quotes (run + 1) rest).map (· + 1)
    else if run = quotes then some 0
    else (raw? quotes 0 rest).map (· + 1)

/-- The length of the suffix that makes a literal a byte sequence. -/
def byteSuffix : List Char → Nat
  | 'u' :: '8' :: _ => 2
  | 'U' :: '8' :: _ => 2
  | _ => 0

/-- The length of a valid escape sequence after its backslash, where unknown escapes are not tolerated. -/
def strictEscape? : List Char → Option Nat
  | [] => none
  | letter :: rest =>
    let digits (most : Nat) := ((rest.take most).takeWhile isHexDigit).length
    if letter = 'x' then if 1 ≤ digits 4 then some (1 + digits 4) else none
    else if letter = 'u' then if digits 4 = 4 then some 5 else none
    else if letter = 'U' then if digits 8 = 8 then some 9 else none
    else if letter = '?' || (Literal.simpleEscape? letter).isSome then some 1
    else none

/-- The rest of a character literal after its opening quote: one character or escape and the closing quote. -/
def character? : List Char → Option Nat
  | '\\' :: rest => do
    let length ← strictEscape? rest
    if (rest.drop length).head? = some '\'' then some (length + 2) else none
  | c :: '\'' :: _ => if c = '\'' then none else some 2
  | _ => none

/-- The length of a Unicode escape inside an identifier, or 0. -/
def identifierEscape (text : List Char) : Nat :=
  match text with
  | '\\' :: 'u' :: rest => if ((rest.take 4).takeWhile isHexDigit).length = 4 then 6 else 0
  | '\\' :: 'U' :: rest => if ((rest.take 8).takeWhile isHexDigit).length = 8 then 10 else 0
  | _ => 0

/-- The length of what may go on an identifier; `pending` characters belong to an escape that has begun. -/
def identifierTail : Nat → List Char → Nat
  | _, [] => 0
  | pending + 1, _ :: rest => 1 + identifierTail pending rest
  | 0, c :: rest =>
    if Text.isIdentifierContinue c then 1 + identifierTail 0 rest
    else
      match identifierEscape (c :: rest) with
      | 0 => 0
      | length + 1 => 1 + identifierTail length rest

/-- The length of an identifier or keyword, or 0. -/
def plainWord (text : List Char) : Nat :=
  match text with
  | [] => 0
  | c :: _ =>
    if Text.isIdentifierStart c || identifierEscape text != 0 then identifierTail 0 text else 0

/-- The length of an identifier or keyword, with the at sign that may stand before it, or 0. -/
def word (text : List Char) : Nat :=
  match text with
  | '@' :: rest =>
    match plainWord rest with
    | 0 => 0
    | length + 1 => length + 2
  | _ => plainWord text

/-- The length of a run of digits of the class with low lines inside it, or 0. A run neither begins nor ends
with a low line. -/
def digits (inClass : Char → Bool) (text : List Char) : Nat :=
  let run := text.takeWhile fun c => inClass c || c == '_'
  match run with
  | [] => 0
  | c :: _ => if inClass c then (run.reverse.dropWhile (· = '_')).length else 0

def exponent (text : List Char) : Nat :=
  match text with
  | e :: rest =>
    if e = 'e' || e = 'E' then
      let sign := match rest with
        | s :: _ => if s = '+' || s = '-' then 1 else 0
        | [] => 0
      match (rest.drop sign).head? with
      | some d => if d.isDigit then 1 + sign + runLength (fun c => c.isDigit || c == '_') (rest.drop sign) else 0
      | none => 0
    else 0
  | [] => 0

def integerSuffix (text : List Char) : Nat :=
  let unsigned (c : Char) := c = 'u' || c = 'U'
  let long (c : Char) := c = 'l' || c = 'L'
  match text with
  | a :: b :: _ =>
    if (unsigned a && long b) || (long a && unsigned b) then 2 else if unsigned a || long a then 1 else 0
  | [a] => if unsigned a || long a then 1 else 0
  | [] => 0

def realSuffix (text : List Char) : Nat :=
  match text with
  | c :: _ => if ['f', 'F', 'd', 'D', 'm', 'M'].contains c then 1 else 0
  | [] => 0

/-- The length of a number with a base mark (`0x`, `0b`), or 0. -/
def based (text : List Char) : Nat :=
  match text with
  | '0' :: mark :: rest =>
    let body :=
      if mark = 'x' || mark = 'X' then digits isHexDigit (rest.dropWhile (· = '_'))
      else if mark = 'b' || mark = 'B' then digits (fun c => c = '0' || c = '1') (rest.dropWhile (· = '_'))
      else 0
    if body = 0 then 0
    else
      let length := 2 + runLength (· = '_') rest + body
      length + integerSuffix (text.drop length)
  | _ => 0

/-- The length of a fraction, the point included, or 0. -/
def fraction (text : List Char) : Nat :=
  match text with
  | '.' :: rest =>
    match digits Char.isDigit rest with
    | 0 => 0
    | length + 1 => length + 2
  | _ => 0

def number (text : List Char) : Nat :=
  if based text ≠ 0 then based text
  else
    let whole := digits Char.isDigit text
    let point := fraction (text.drop whole)
    if whole + point = 0 then 0
    else
      let power := exponent (text.drop (whole + point))
      let length := whole + point + power
      let real := realSuffix (text.drop length)
      if real = 0 && point = 0 && power = 0 then length + integerSuffix (text.drop length) else length + real

/-- Operators and brackets, the longer ones first. A closing angle bracket stands alone, because it may close two
lists of type arguments at once. -/
def symbols : List String :=
  ["??=", "<<=", "=>", "==", "!=", "<=", ">=", "&&", "||", "++", "--", "+=", "-=", "*=", "/=", "%=", "&=", "|=",
   "^=", "->", "??", "::", "..", "<<", "\x7b", "\x7d", "(", ")", "[", "]", ".", ",", ":", ";", "?", "+", "-", "*",
   "/", "%", "&", "|", "^", "!", "~", "=", "<", ">"]

def symbol (text : List Char) : Nat :=
  match symbols.find? fun symbol => symbol.toList.isPrefixOf text with
  | some found => found.length
  | none => 0

end TextHarvest.CSharp.Lexeme
