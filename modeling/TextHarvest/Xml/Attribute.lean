import TextHarvest.Xml.Reference

/-! # Attributes of a tag

`attributeValues` reads the attributes of a tag from the text between its angle brackets and returns their values,
resolved, in source order. Keys must differ from one another; each value stands in single or double quotes. The first
fault in source order counts, and a key that was there before is found before its value is read.
-/

namespace TextHarvest.Xml

def isBlank (c : Char) : Bool :=
  c == ' ' || c == '\t' || c == '\r' || c == '\n'

/-- The first non-blank character, with its byte offset and what follows it. -/
def skipBlanks (offset : Nat) : List Char → Option (Nat × Char × List Char)
  | [] => none
  | c :: rest => if isBlank c then skipBlanks (offset + c.utf8Size) rest else some (offset, c, rest)

/-- The part of a key behind its first character: everything up to an equals sign or a blank. -/
def keyTail (text : List Char) : List Char :=
  text.takeWhile fun c => c != '=' && !isBlank c

/-- The key at the front of the text, which starts at byte `offset`, with what follows its equals sign. `size` is the
byte length of the tag. -/
def readKey (size offset : Nat) (first : Char) (rest : List Char) :
    Except AttributeFault (List Char × Nat × List Char) :=
  let key := first :: keyTail rest
  let behind := rest.drop (keyTail rest).length
  match skipBlanks (offset + Text.byteLength key) behind with
  | none => .error (.noEquals size)
  | some (position, c, rest) =>
    if c = '=' then .ok (key, position + 1, rest) else .error (.noEquals position)

/-- The quoted value at the front of the text, which starts at byte `offset`, and what follows its closing quote. -/
def readValue (size offset : Nat) (text : List Char) : Except AttributeFault (List Char × Nat × List Char) :=
  match skipBlanks offset text with
  | none => .error (.noValue size)
  | some (position, quote, rest) =>
    if quote = '"' ∨ quote = '\'' then
      let value := rest.takeWhile (· ≠ quote)
      match rest.drop value.length with
      | [] => .error (.openQuote size quote)
      | _ :: behind => .ok (value, position + 1 + Text.byteLength value + 1, behind)
    else .error (.unquoted position)

/-- The place where a key was declared before. -/
def declared? (seen : List (List Char × Nat)) (key : List Char) : Option Nat :=
  seen.lookup key

/-- The values of the attributes in the rest of a tag, which starts at byte `offset`; `seen` are the keys before it
and their places. Every attribute takes at least two characters, so `limit` bounds their number. -/
def valuesFrom (size : Nat) : Nat → List (List Char × Nat) → Nat → List Char → Except Fault (List (List Char))
  | 0, _, _, _ => .ok []
  | limit + 1, seen, offset, text =>
    match skipBlanks offset text with
    | none => .ok []
    | some (position, first, rest) =>
      match readKey size position first rest with
      | .error fault => .error (.badAttribute fault)
      | .ok (key, offset, rest) =>
        match declared? seen key with
        | some previous => .error (.badAttribute (.duplicate position previous))
        | none =>
          match readValue size offset rest with
          | .error fault => .error (.badAttribute fault)
          | .ok (raw, offset, rest) =>
            match resolve raw with
            | .error fault => .error (.badValue fault)
            | .ok value =>
              match valuesFrom size limit (seen ++ [(key, position)]) offset rest with
              | .error fault => .error fault
              | .ok values => .ok (value :: values)

/-- The name of a tag: everything up to the first blank. -/
def tagName (content : List Char) : List Char :=
  content.takeWhile fun c => !isBlank c

/-- The values of the attributes of a tag, resolved and in source order. -/
def attributeValues (content : List Char) : Except Fault (List (List Char)) :=
  let name := tagName content
  valuesFrom (Text.byteLength content) content.length [] (Text.byteLength name) (content.drop name.length)

end TextHarvest.Xml
