/-! # Quoted text in PO files

Inside quotes a PO file writes a backslash, a quote, a line feed, a carriage return and a tab as a backslash and a
letter, and every other character as itself.
-/

namespace TextHarvest.Po

/-- How a character is written inside quotes. -/
def escapeChar (c : Char) : List Char :=
  if c = '\\' then ['\\', '\\']
  else if c = '"' then ['\\', '"']
  else if c = '\n' then ['\\', 'n']
  else if c = '\r' then ['\\', 'r']
  else if c = '\t' then ['\\', 't']
  else [c]

def escapeChars (text : List Char) : List Char :=
  text.flatMap escapeChar

def escape (text : String) : String :=
  String.ofList (escapeChars text.toList)

end TextHarvest.Po
