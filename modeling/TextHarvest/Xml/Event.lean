import TextHarvest.Text.Blank
import TextHarvest.Xml.Attribute

/-! # Events of an XML text

An XML text is a row of events: tags, text between them, and other markup. `read` delivers the row with the byte
position of every event, up to the end of the text or up to the first fault. It keeps the names of the open elements,
and an end tag that does not close the innermost of them is a fault.

Text is not looked into, and neither are names; the quotes in a tag hide the angle brackets between them.
-/

namespace TextHarvest.Xml

/-- A piece of an XML text. -/
inductive Event
  /-- A start tag, with the text between its angle brackets. -/
  | startTag (content : List Char)
  /-- A tag of an element without content, with the text before its slash. -/
  | emptyTag (content : List Char)
  /-- An end tag, with its name. -/
  | endTag (name : List Char)
  | text (content : List Char)
  /-- A comment, character data, an instruction or a declaration. -/
  | other
deriving DecidableEq, Repr

/-- The events of an XML text, each with its byte position, and what ends them. -/
inductive Row
  | finished
  | broken (position : Nat) (fault : Fault)
  | event (position : Nat) (event : Event) (rest : Row)
deriving DecidableEq, Repr

/-- The text up to the first closing angle bracket outside quotes, where `quote` is the quote that is open. -/
def tagContent? : Option Char → List Char → Option (List Char)
  | _, [] => none
  | some quote, c :: rest => (tagContent? (if c = quote then none else some quote) rest).map (c :: ·)
  | none, c :: rest =>
    if c = '>' then some []
    else (tagContent? (if c = '"' ∨ c = '\'' then some c else none) rest).map (c :: ·)

/-- The text up to the first closing angle bracket at which `closes` accepts what was read before it, last character
first. -/
def contentUntil? (closes : List Char → Bool) (before : List Char) : List Char → Option (List Char)
  | [] => none
  | c :: rest =>
    if c = '>' ∧ closes before then some [] else (contentUntil? closes (c :: before) rest).map (c :: ·)

/-- The text up to the closing angle bracket that balances the opening ones, of which `depth` are open. -/
def balancedContent? : Nat → List Char → Option (List Char)
  | _, [] => none
  | depth, c :: rest =>
    if c = '>' ∧ depth = 0 then some []
    else
      let depth := if c = '<' then depth + 1 else if c = '>' then depth - 1 else depth
      (balancedContent? depth rest).map (c :: ·)

/-- Does a comment end here? Two dashes close it that are not the ones that opened it. -/
def closesComment (before : List Char) : Bool :=
  ['-', '-'].isPrefixOf before && 5 ≤ before.length

def closesCharacterData (before : List Char) : Bool :=
  [']', ']'].isPrefixOf before

def closesInstruction (before : List Char) : Bool :=
  ['?'].isPrefixOf before

/-- What stands at an opening angle bracket: the text between the brackets and the event, or the fault and how many
bytes behind the bracket it is. -/
abbrev Found := Except (Nat × Fault) (List Char × Event)

/-- Markup of the given kind, whose content must open as `opening` says. -/
def otherMarkup (markup : Markup) (opening : List Char → Bool) (content : Option (List Char)) : Found :=
  match content with
  | none => .error (0, .unclosed markup)
  | some content => if opening content then .ok (content, .other) else .error (0, .unclosed markup)

/-- The keyword of a document type declaration, in any case. -/
def opensDocumentType (content : List Char) : Bool :=
  ['!', 'd', 'o', 'c', 't', 'y', 'p', 'e'].isPrefixOf (content.map Char.toLower)

/-- A document type declaration; it must name the type. -/
def documentType (text : List Char) : Found :=
  match balancedContent? 0 text with
  | none => .error (0, .unclosed .documentType)
  | some content =>
    if opensDocumentType content then
      if (content.drop 8).all isBlank then .error (Text.byteLength content + 1, .namelessDocumentType)
      else .ok (content, .other)
    else .error (0, .unclosed .documentType)

/-- Drop the blanks at the end. A text of nothing but blanks keeps them. -/
def trimEnd (text : List Char) : List Char :=
  if text.all isBlank then text else (text.reverse.dropWhile isBlank).reverse

/-- A start tag, or the tag of an element without content. -/
def openingTag (content : List Char) : Event :=
  if content.getLast? = some '/' then .emptyTag content.dropLast else .startTag content

/-- A tag: a slash opens an end tag. -/
def tag (text : List Char) : Found :=
  match tagContent? none text with
  | none => .error (0, .unclosed .tag)
  | some content =>
    match content with
    | '/' :: name => .ok (content, .endTag (trimEnd name))
    | _ => .ok (content, openingTag content)

/-- What stands behind an opening angle bracket. -/
def markup (text : List Char) : Found :=
  match text with
  | '!' :: rest =>
    match rest with
    | '-' :: _ => otherMarkup .comment (['!', '-', '-'].isPrefixOf ·) (contentUntil? closesComment [] text)
    | '[' :: _ =>
      otherMarkup .characterData (['!', '[', 'C', 'D', 'A', 'T', 'A', '['].isPrefixOf ·)
        (contentUntil? closesCharacterData [] text)
    | c :: _ => if c = 'D' ∨ c = 'd' then documentType text else .error (0, .unknownMarkup)
    | [] => .error (0, .unknownMarkup)
  | '?' :: _ => otherMarkup .instruction (2 ≤ ·.length) (contentUntil? closesInstruction [] text)
  | _ => tag text

/-- The names of the open elements after an event, innermost first, or the fault of an end tag that closes none of
them. -/
def openAfter (names : List (List Char)) : Event → Except Fault (List (List Char))
  | .startTag content => .ok (tagName content :: names)
  | .endTag name =>
    match names with
    | [] => .error (.strayEnd (String.ofList name))
    | expected :: outer =>
      if expected = name then .ok outer
      else .error (.wrongEnd (String.ofList expected) (String.ofList name))
  | _ => .ok names

/-- The events of the rest of a text, which starts at byte `position`, with the names of the open elements. -/
def readFrom (names : List (List Char)) (position : Nat) (text : List Char) : Row :=
  match text with
  | [] => .finished
  | c :: rest =>
    if c = '<' then
      match markup rest with
      | .error (offset, fault) => .broken (position + offset) fault
      | .ok (content, event) =>
        match openAfter names event with
        | .error fault => .broken position fault
        | .ok names =>
          .event position event
            (readFrom names (position + Text.byteLength content + 2) (rest.drop (content.length + 1)))
    else
      let content := c :: rest.takeWhile (· ≠ '<')
      .event position (.text content)
        (readFrom names (position + Text.byteLength content) (rest.drop (content.length - 1)))
termination_by text.length
decreasing_by
  all_goals
    simp only [List.length_cons, List.length_drop]
    omega

/-- The events of an XML text. A byte-order mark at its front is passed over and not counted. -/
def read (text : List Char) : Row :=
  readFrom [] 0 (Text.dropByteOrderMark text)

end TextHarvest.Xml
