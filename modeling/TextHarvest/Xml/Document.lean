import TextHarvest.Text.Lines
import TextHarvest.Xml.Event

/-! # XML documents

A document is an XML text with exactly one root element and nothing but blanks and other markup around it.
`elements` lists the elements of a document in the order of their tags, each with its line and its attribute values;
of a text that is no document it tells the first fault.
-/

namespace TextHarvest.Xml

structure Element where
  /-- The line of its tag, counted from 1. -/
  line : Nat
  /-- The values of its attributes, resolved and in source order. -/
  values : List String
deriving DecidableEq, Repr

/-- Why a row of events makes no document. -/
inductive ShapeFault
  | textOutsideRoot
  | severalRoots
  | unclosedElement
  | noRoot
deriving DecidableEq, Repr

def ShapeFault.message : ShapeFault → String
  | .textOutsideRoot => "text outside the root element"
  | .severalRoots => "multiple root elements"
  | .unclosedElement => "unexpected end of document, unclosed element"
  | .noRoot => "no root element"

/-- Why a text is no document. -/
inductive DocumentFault
  | malformed (position : Nat) (fault : Fault)
  | misshapen (line : Nat) (fault : ShapeFault)
deriving DecidableEq, Repr

/-- The blanks that may stand around the root element. -/
def isOuterBlank (c : Char) : Bool :=
  isBlank c || c == Char.ofNat 12

/-- The element of a tag. A fault in its attributes is reported at the front of the text. -/
def readElement (line : Nat) (content : List Char) : Except DocumentFault Element :=
  match attributeValues content with
  | .ok values => .ok ⟨line, values.map String.ofList⟩
  | .error fault => .error (.malformed 0 fault)

/-- The elements of a row of events, of which `depth` elements are open and the root element was seen or not. -/
def elementsOf (lines : Text.LineTable) : (depth : Nat) → (rooted : Bool) → Row →
    Except DocumentFault (List Element)
  | depth, rooted, .finished =>
    if 0 < depth then .error (.misshapen lines.lineCount .unclosedElement)
    else if rooted then .ok []
    else .error (.misshapen 1 .noRoot)
  | _, _, .broken position fault => .error (.malformed position fault)
  | depth, rooted, .event position event rest =>
    let line := lines.lineOf position
    let enter (content : List Char) (inside : Nat) : Except DocumentFault (List Element) :=
      if depth = 0 ∧ rooted then .error (.misshapen line .severalRoots)
      else
        match readElement line content with
        | .error fault => .error fault
        | .ok element =>
          match elementsOf lines inside true rest with
          | .error fault => .error fault
          | .ok elements => .ok (element :: elements)
    match event with
    | .startTag content => enter content (depth + 1)
    | .emptyTag content => enter content depth
    | .endTag _ => elementsOf lines (depth - 1) rooted rest
    | .text content =>
      if depth = 0 ∧ ¬ content.all isOuterBlank then .error (.misshapen line .textOutsideRoot)
      else elementsOf lines depth rooted rest
    | .other => elementsOf lines depth rooted rest

/-- The elements of a document, in the order of their tags. One byte-order mark may open the text. -/
def elements (source : String) : Except DocumentFault (List Element) :=
  let text := Text.dropByteOrderMark source.toList
  elementsOf (Text.LineTable.ofText text) 0 false (read text)

end TextHarvest.Xml
