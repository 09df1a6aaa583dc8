import TextHarvest.Po.Render

/-! # Reading PO files

A reader for PO files that goes line by line: the lines are split at line feeds, an empty line separates stanzas, and
what stands in a line follows from how the line begins. The first stanza is the header. `read?` refuses a text that is
not laid out as `render` does it, so what it gives is all that the text says.
-/

namespace TextHarvest.Po

/-- What a PO file says about an entry. -/
structure Stanza where
  /-- The lines of the comment. -/
  comment : List String
  reference : String
  context : Option String
  id : String
  plural : Option String
deriving DecidableEq, Repr

structure Document where
  header : Header
  stanzas : List Stanza
deriving DecidableEq, Repr

/-- The character that a letter behind a backslash stands for. -/
def escaped? (letter : Char) : Option Char :=
  if letter = '\\' then some '\\'
  else if letter = '"' then some '"'
  else if letter = 'n' then some '\n'
  else if letter = 'r' then some '\r'
  else if letter = 't' then some '\t'
  else none

/-- A quoted text without its opening quote, read up to the closing quote, which must end the line. -/
def readQuoted? : List Char → Option (List Char)
  | [] => none
  | '"' :: rest => if rest = [] then some [] else none
  | ['\\'] => none
  | '\\' :: letter :: rest => do
    let c ← escaped? letter
    let text ← readQuoted? rest
    return c :: text
  | c :: rest => do
    let text ← readQuoted? rest
    return c :: text

/-- The text of a line that is made of an opening and a quoted text. -/
def readField? (opening : String) (line : List Char) : Option String := do
  let rest ← (opening.toList ++ ['"']).isPrefixOf? line
  let text ← readQuoted? rest
  return String.ofList text

/-- The value of a header field, which stands in a line of its own between the name and a line feed. -/
def readHeaderField? (name : String) (line : List Char) : Option String := do
  let text ← readField? "" line
  let rest ← (name.toList ++ [':', ' ']).isPrefixOf? text.toList
  let value ← (['\n'] : List Char).isSuffixOf? rest
  return String.ofList value

def readHeader? : List (List Char) → Option Header
  | [id, text, language, version, content, plurals] => do
    let id ← readField? "msgid " id
    let text ← readField? "msgstr " text
    let language ← readHeaderField? "Language" language
    let version ← readHeaderField? "MIME-Version" version
    let content ← readHeaderField? "Content-Type" content
    let pluralForms ← readHeaderField? "Plural-Forms" plurals
    if id = "" ∧ text = "" ∧ version = "1.0" ∧ content = "text/plain; charset=UTF-8" then
      some { language, pluralForms }
    else none
  | _ => none

/-- The lines of a comment at the front, and the lines behind them. -/
def readComment : List (List Char) → List String × List (List Char)
  | [] => ([], [])
  | line :: rest =>
    match "#. ".toList.isPrefixOf? line with
    | some text => ((String.ofList text :: (readComment rest).1), (readComment rest).2)
    | none => ([], line :: rest)

/-- The context, if a line gives one, and the lines behind it. -/
def readContext : List (List Char) → Option String × List (List Char)
  | [] => (none, [])
  | line :: rest =>
    match readField? "msgctxt " line with
    | some context => (some context, rest)
    | none => (none, line :: rest)

/-- The plural, if there is one, of the lines behind the id: one empty text, or a plural and two empty texts. -/
def readPlural? : List (List Char) → Option (Option String)
  | [text] => do
    let text ← readField? "msgstr " text
    if text = "" then some none else none
  | [plural, first, second] => do
    let plural ← readField? "msgid_plural " plural
    let first ← readField? "msgstr[0] " first
    let second ← readField? "msgstr[1] " second
    if first = "" ∧ second = "" then some (some plural) else none
  | _ => none

def readStanza? (lines : List (List Char)) : Option Stanza :=
  match readComment lines with
  | (_, []) => none
  | (comment, line :: rest) => do
    let reference ← "#: ".toList.isPrefixOf? line
    match readContext rest with
    | (_, []) => none
    | (context, line :: rest) =>
      let id ← readField? "msgid " line
      let plural ← readPlural? rest
      return { comment, reference := String.ofList reference, context, id, plural }

/-- The lines of a text in which a line feed ends every line. -/
def linesOf? (text : List Char) : Option (List (List Char)) :=
  match (text.splitOn '\n').reverse with
  | [] :: lines => some lines.reverse
  | _ => none

def read? (text : String) : Option Document := do
  let lines ← linesOf? text.toList
  match lines.splitOn [] with
  | [] => none
  | header :: stanzas =>
    let header ← readHeader? header
    let stanzas ← stanzas.mapM readStanza?
    return { header, stanzas }

end TextHarvest.Po
