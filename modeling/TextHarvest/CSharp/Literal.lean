/-! # Values of string literals

C# spells a plain text in three forms: regular (`"…"`, with backslash escapes), verbatim (`@"…"`, with doubled
quotes) and raw (three or more quotes around text without escapes). `Form.value?` reads the value off the
spelling of a whole literal. A regular or verbatim literal with a `u8` suffix is a byte sequence and has no text
value.

A regular literal is decoded piece by piece: `pieces` cuts the inside of the quotes into units, from left to right
and each as long as possible, and the value is what the units stand for, one after the other. A unit that is no
valid escape stands for itself.
-/

namespace TextHarvest.CSharp

/-- The character with the given code, if that code is a Unicode scalar value. -/
def scalar? (code : Nat) : Option Char :=
  if valid : code.isValidChar then some (Char.ofNatAux code valid) else none

def isHexDigit (c : Char) : Bool :=
  c.isDigit || ('a' ≤ c && c ≤ 'f') || ('A' ≤ c && c ≤ 'F')

def hexDigitValue (c : Char) : Nat :=
  if c.isDigit then c.toNat - 48 else if 'a' ≤ c then c.toNat - 87 else c.toNat - 55

/-- The number that a run of hexadecimal digits spells. -/
def hexValue (digits : List Char) : Nat :=
  digits.foldl (fun value digit => 16 * value + hexDigitValue digit) 0

namespace Literal

/-- The character that a one-letter escape stands for. -/
def simpleEscape? (letter : Char) : Option Char :=
  match letter with
  | '\'' => some '\''
  | '"' => some '"'
  | '\\' => some '\\'
  | '0' => some (Char.ofNat 0)
  | 'a' => some (Char.ofNat 7)
  | 'b' => some (Char.ofNat 8)
  | 'e' => some (Char.ofNat 27)
  | 'f' => some (Char.ofNat 12)
  | 'n' => some '\n'
  | 'r' => some '\r'
  | 't' => some '\t'
  | 'v' => some (Char.ofNat 11)
  | _ => none

/-- How many hexadecimal digits an escape by code takes, least and most. -/
def digitBounds? (letter : Char) : Option (Nat × Nat) :=
  match letter with
  | 'x' => some (1, 4)
  | 'u' => some (4, 4)
  | 'U' => some (8, 8)
  | _ => none

/-- One unit of the inside of a regular literal. -/
inductive Piece
  /-- A character other than the backslash. -/
  | plain (character : Char)
  /-- A backslash and a letter that names a character. -/
  | named (letter value : Char)
  /-- A backslash, one of the letters `x`, `u`, `U`, and the digits that are there, up to the most it takes. -/
  | coded (letter : Char) (least : Nat) (digits : List Char)
  /-- A backslash and a character that makes no escape. -/
  | unknown (character : Char)
  /-- A backslash at the very end. -/
  | lone
deriving DecidableEq, Repr

namespace Piece

def spelling : Piece → List Char
  | plain c => [c]
  | named letter _ => ['\\', letter]
  | coded letter _ digits => '\\' :: letter :: digits
  | unknown c => ['\\', c]
  | lone => ['\\']

/-- What a unit stands for; anything that is no valid escape stands for itself. -/
def value : Piece → List Char
  | plain c => [c]
  | named _ c => [c]
  | coded letter least digits =>
    match if least ≤ digits.length then scalar? (hexValue digits) else none with
    | some c => [c]
    | none => '\\' :: letter :: digits
  | unknown c => ['\\', c]
  | lone => ['\\']

end Piece

/-- The digits of an escape by code: as many as are there, up to `most`. -/
def escapeDigits (most : Nat) (text : List Char) : List Char :=
  (text.take most).takeWhile isHexDigit

/-- The unit that begins with a backslash and `letter`, when `rest` follows. -/
def escapePiece (letter : Char) (rest : List Char) : Piece :=
  match simpleEscape? letter with
  | some value => .named letter value
  | none =>
    match digitBounds? letter with
    | some (least, most) => .coded letter least (escapeDigits most rest)
    | none => .unknown letter

/-- The units of a text, from left to right. `pending` counts the characters that belong to the last unit. -/
def piecesAfter : Nat → List Char → List Piece
  | _, [] => []
  | pending + 1, _ :: rest => piecesAfter pending rest
  | 0, c :: rest =>
    if c = '\\' then
      match rest with
      | [] => [.lone]
      | letter :: tail =>
        let piece := escapePiece letter tail
        piece :: piecesAfter (piece.spelling.length - 1) rest
    else .plain c :: piecesAfter 0 rest

/-- The units of the inside of a regular literal. -/
def pieces (text : List Char) : List Piece :=
  piecesAfter 0 text

/-- The text that the inside of a regular literal stands for. -/
def unescape (text : List Char) : List Char :=
  (pieces text).flatMap Piece.value

/-- Read a doubled quote as one quote. -/
def undouble : List Char → List Char
  | '"' :: '"' :: rest => '"' :: undouble rest
  | c :: rest => c :: undouble rest
  | [] => []

/-- Drop `tail` from the end of `text` if it is there. -/
def dropTail (tail text : List Char) : List Char :=
  (tail.isSuffixOf? text).getD text

/-- Drop `head` from the front of `text` if it is there. -/
def dropHead (head text : List Char) : List Char :=
  (head.isPrefixOf? text).getD text

/-- The text before and after the last line feed. -/
def splitLastLine? : List Char → Option (List Char × List Char)
  | [] => none
  | c :: rest =>
    match splitLastLine? rest with
    | some (before, after) => some (c :: before, after)
    | none => if c = '\n' then some ([], rest) else none

/-- The text after a leading line break, which is a line feed or a carriage return with a line feed. -/
def afterLineBreak? : List Char → Option (List Char)
  | '\r' :: '\n' :: rest => some rest
  | '\n' :: rest => some rest
  | _ => none

/-- The value of a raw literal that opens with a line break: what stands on the closing line is the indentation,
and every line that begins with it loses it. -/
def multilineValue (body : List Char) : List Char :=
  match splitLastLine? body with
  | none => []
  | some (content, indent) =>
    ['\n'].intercalate <|
      ((dropTail ['\r'] content).splitOn '\n').map fun line => dropHead indent (dropTail ['\r'] line)

/-- The value of a regular literal, quotes included. -/
def regularValue? (text : List Char) : Option (List Char) :=
  if ['u', '8'].isSuffixOf text || ['U', '8'].isSuffixOf text then none
  else do
    let opened ← ['"'].isPrefixOf? text
    let inner ← ['"'].isSuffixOf? opened
    return unescape inner

/-- The value of a verbatim literal, the at sign and the quotes included. -/
def verbatimValue? (text : List Char) : Option (List Char) := do
  let opened ← ['@', '"'].isPrefixOf? text
  let inner ← ['"'].isSuffixOf? opened
  return undouble inner

/-- The value of a raw literal: as many characters are cut from the end as quotes open it, whatever they are. -/
def rawValue? (text : List Char) : Option (List Char) :=
  let quotes := (text.takeWhile (· = '"')).length
  if quotes < 3 || text.length < 2 * quotes then none
  else
    let inner := (text.drop quotes).take (text.length - 2 * quotes)
    match afterLineBreak? inner with
    | none => some inner
    | some body => some (multilineValue body)

/-- The three spellings of a plain text. -/
inductive Form
  | regular
  | verbatim
  | raw
deriving DecidableEq, Repr

def Form.value? (form : Form) (spelling : List Char) : Option (List Char) :=
  match form with
  | .regular => regularValue? spelling
  | .verbatim => verbatimValue? spelling
  | .raw => rawValue? spelling

end Literal

end TextHarvest.CSharp
