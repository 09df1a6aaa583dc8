import TextHarvest.Text.Blank

/-! # Localizing markup extensions

A XAML attribute value carries a localizable text in a markup extension such as

* `{res:Localize 'Open'}`, with an id, or
* `{res:Localize 'menu//Open'}`, with a context and an id.

`capture?` finds the first such extension in a value. The marker (`Localize`) follows the last colon that makes an
extension, so what stands before it may hold colons as well. The context ends at the first double slash of the line,
if a closing quote and brace come later in that line, even if others come before it.
-/

namespace TextHarvest.Xaml

/-- The text of a localizing markup extension. -/
structure Captured where
  context : Option (List Char)
  id : List Char
deriving DecidableEq, Repr

/-- The text before and behind the first occurrence of `mark` in the first line. -/
def splitInLine? (mark : List Char) : List Char → Option (List Char × List Char)
  | [] => none
  | c :: rest =>
    match mark.isPrefixOf? (c :: rest) with
    | some behind => some ([], behind)
    | none =>
      if c = '\n' then none
      else (splitInLine? mark rest).map fun (before, behind) => (c :: before, behind)

/-- The double slash that ends a context. -/
def contextMark : List Char := ['/', '/']

/-- The quote and the brace that end an extension. -/
def closing : List Char := ['\'', '\x7d']

/-- The context and the id behind the opening quote. -/
def captureQuoted? (text : List Char) : Option Captured :=
  let withContext := do
    let (context, behind) ← splitInLine? contextMark text
    let (id, _) ← splitInLine? closing behind
    return { context := some context, id }
  let plain := do
    let (id, _) ← splitInLine? closing text
    return { context := none, id }
  withContext <|> plain

/-- The context and the id behind the colon: the marker, at least one space, and a quoted text. -/
def captureMarked? (marker text : List Char) : Option Captured :=
  match marker.isPrefixOf? text with
  | some (' ' :: behind) =>
    match behind.dropWhile (· = ' ') with
    | '\'' :: quoted => captureQuoted? quoted
    | _ => none
  | _ => none

/-- The extension behind an opening brace: some characters that are not blank, a colon, and what it marks. The last
colon that makes an extension counts; `started` tells whether a character was read. -/
def captureBehindBrace? (marker : List Char) (started : Bool) : List Char → Option Captured
  | [] => none
  | c :: rest =>
    let later := if Text.isBlank c then none else captureBehindBrace? marker true rest
    later <|> if started ∧ c = ':' then captureMarked? marker rest else none

/-- The first localizing markup extension in an attribute value. -/
def findExtension? (marker : List Char) : List Char → Option Captured
  | [] => none
  | c :: rest =>
    (if c = '\x7b' then captureBehindBrace? marker false rest else none) <|> findExtension? marker rest

/-- The text of the first localizing markup extension in an attribute value, unless its id is empty. -/
def capture? (marker value : List Char) : Option Captured :=
  match findExtension? marker value with
  | some captured => if captured.id = [] then none else some captured
  | none => none

end TextHarvest.Xaml
