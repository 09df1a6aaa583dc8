import TextHarvest.Catalog
import TextHarvest.Po.Escape

/-! # Catalogs as PO files

`render` writes a catalog as a gettext PO file: a header, and for every entry an empty line and a stanza of lines. A
stanza gives the lines of the comment, the reference, the context if there is one, the id, and room for the
texts of the language, two of them if there is a plural.
-/

namespace TextHarvest.Po

/-- What the header of a PO file says about the texts. -/
structure Header where
  language : String
  pluralForms : String
deriving DecidableEq, Repr

def quoted (text : String) : String :=
  "\"" ++ escape text ++ "\""

/-- A line of the header: a field and its value, with a line feed that is part of the header text. -/
def headerField (name value : String) : String :=
  "\"" ++ name ++ ": " ++ escape value ++ "\\n\""

def Header.lines (header : Header) : List String :=
  ["msgid \"\"",
   "msgstr \"\"",
   headerField "Language" header.language,
   headerField "MIME-Version" "1.0",
   headerField "Content-Type" "text/plain; charset=UTF-8",
   headerField "Plural-Forms" header.pluralForms]

/-- The lines of a comment, without their line breaks. A carriage return belongs to the line break only before a
line feed, and an empty piece at the end is no line. -/
def commentLines (comment : List Char) : List (List Char) :=
  let pieces := comment.splitOn '\n'
  let ended := pieces.dropLast.map fun piece => ((['\r'] : List Char).isSuffixOf? piece).getD piece
  let last := pieces.getLast?.getD []
  if last = [] then ended else ended ++ [last]

def stanza (entry : CatalogEntry) : List String :=
  let record := entry.record
  let comment := match record.comment with
    | some comment => (commentLines comment.toList).map fun line => "#. " ++ String.ofList line
    | none => []
  let context := match record.context with
    | some context => ["msgctxt " ++ quoted context]
    | none => []
  let plural := match record.plural with
    | some plural => ["msgid_plural " ++ quoted plural, "msgstr[0] \"\"", "msgstr[1] \"\""]
    | none => ["msgstr \"\""]
  comment ++ ["#: " ++ entry.reference] ++ context ++ ["msgid " ++ quoted record.id] ++ plural

def lines (header : Header) (catalog : Catalog) : List String :=
  header.lines ++ catalog.entries.flatMap fun entry => "" :: stanza entry

def render (header : Header) (catalog : Catalog) : String :=
  String.join ((lines header catalog).map (· ++ "\n"))

end TextHarvest.Po
