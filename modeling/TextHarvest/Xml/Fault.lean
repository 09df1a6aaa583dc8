/-! # Faults of XML text

Everything that can be wrong with an XML text, as causes, and the wording of each of them. A cause is reported
together with the causes nested in it, from the outside in: `Fault.messages` lists them.
-/

namespace TextHarvest.Xml

/-- What may be opened and not closed. -/
inductive Markup
  | tag
  | comment
  | characterData
  | documentType
  | instruction
deriving DecidableEq, Repr

/-- What the text calls a piece of markup, and what would have closed it. -/
def Markup.description : Markup → String × String
  | .tag => ("tag", ">")
  | .comment => ("comment", "-->")
  | .characterData => ("CDATA", "]]>")
  | .documentType => ("DOCTYPE", ">")
  | .instruction => ("processing instruction or xml declaration", "?>")

/-- What is wrong with the number of a character reference. -/
inductive NumberFault
  | empty
  | badDigit
  | tooLarge
deriving DecidableEq, Repr

def NumberFault.message : NumberFault → String
  | .empty => "cannot parse integer from empty string"
  | .badDigit => "invalid digit found in string"
  | .tooLarge => "number too large to fit in target type"

/-- What is wrong with a character reference. -/
inductive ReferenceFault
  /-- A sign stands before the number. -/
  | signed
  | number (fault : NumberFault)
  /-- The null character is never allowed. -/
  | null
  /-- The number is no character's. -/
  | noCharacter (code : Nat)
deriving DecidableEq, Repr

def ReferenceFault.message : ReferenceFault → String
  | .signed => "unexpected number sign"
  | .number fault => fault.message
  | .null => "0x0 character is not permitted in XML"
  | .noCharacter code => s!"`{code}` is not a valid codepoint"

/-- What is wrong with an attribute value; places are byte offsets in the value. -/
inductive ValueFault
  /-- An ampersand without its semicolon; the range goes to the end of the value. -/
  | unterminated (start stop : Nat)
  /-- A name that is no predefined entity. -/
  | unknownEntity (start stop : Nat) (name : String)
  | reference (fault : ReferenceFault)
deriving DecidableEq, Repr

def ValueFault.message : ValueFault → String
  | .unterminated start stop =>
    s!"Error while escaping character at range {start}..{stop}: Cannot find ';' after '&'"
  | .unknownEntity start stop name => s!"at {start}..{stop}: unrecognized entity `{name}`"
  | .reference fault => "invalid character reference: " ++ fault.message

/-- What is wrong with the attributes of a tag; places are byte offsets in the tag. -/
inductive AttributeFault
  /-- No equals sign after the key. -/
  | noEquals (position : Nat)
  /-- No value after the equals sign. -/
  | noValue (position : Nat)
  /-- A value without quotes. -/
  | unquoted (position : Nat)
  /-- A value whose opening quote does not occur again. -/
  | openQuote (position : Nat) (quote : Char)
  /-- A key that was there before. -/
  | duplicate (position previous : Nat)
deriving DecidableEq, Repr

def AttributeFault.message : AttributeFault → String
  | .noEquals position => s!"position {position}: attribute key must be directly followed by `=` or space"
  | .noValue position => s!"position {position}: `=` must be followed by an attribute value"
  | .unquoted position => s!"position {position}: attribute value must be enclosed in `\"` or `'`"
  | .openQuote position quote => s!"position {position}: missing closing quote `{quote}` in attribute value"
  | .duplicate position previous =>
    s!"position {position}: duplicated attribute, previous declaration at position {previous}"

/-- What is wrong with an XML text. -/
inductive Fault
  | unclosed (markup : Markup)
  /-- An exclamation mark that opens nothing known. -/
  | unknownMarkup
  /-- A document type declaration that names no type. -/
  | namelessDocumentType
  /-- An end tag for another element than the innermost open one. -/
  | wrongEnd (expected found : String)
  /-- An end tag where no element is open. -/
  | strayEnd (found : String)
  | badAttribute (fault : AttributeFault)
  | badValue (fault : ValueFault)
deriving DecidableEq, Repr

namespace Fault

/-- The class of a fault, which its wording opens with, and the wording without it. -/
def wording : Fault → String × String
  | unclosed markup =>
    ("syntax error: ",
      s!"{markup.description.1} not closed: `{markup.description.2}` not found before end of input")
  | unknownMarkup => ("syntax error: ", "unknown or missed symbol in markup")
  | namelessDocumentType =>
    ("ill-formed document: ", "`<!DOCTYPE>` declaration does not contain a name of a document type")
  | wrongEnd expected found =>
    ("ill-formed document: ", s!"expected `</{expected}>`, but `</{found}>` was found")
  | strayEnd found => ("ill-formed document: ", s!"close tag `</{found}>` does not match any open tag")
  | badAttribute fault => ("error while parsing attribute: ", fault.message)
  | badValue fault => ("", fault.message)

def message (fault : Fault) : String :=
  fault.wording.1 ++ fault.wording.2

/-- The wordings of a fault and of the faults nested in it, from the outside in. -/
def messages (fault : Fault) : List String :=
  [fault.message, fault.wording.2] ++
    match fault with
    | badValue (.reference (.number number)) => [number.message, number.message]
    | badValue (.reference reference) => [reference.message]
    | _ => []

end Fault

end TextHarvest.Xml
