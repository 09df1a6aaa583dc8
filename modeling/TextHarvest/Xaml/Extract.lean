import TextHarvest.Record
import TextHarvest.Xaml.Markup
import TextHarvest.Xml.Document

/-! # Localizable texts in XAML source

`extract` lists the localizable texts in the attribute values of a XAML document, elements in document order and
values in source order. A record has the line of its element, and never a plural.
-/

namespace TextHarvest.Xaml

/-- Does `part` occur in the text? -/
def occursIn (part : List Char) : List Char → Bool
  | [] => part.isEmpty
  | c :: rest => part.isPrefixOf (c :: rest) || occursIn part rest

/-- The record of an attribute value; a value without the marker is not searched. -/
def record? (marker path : String) (line : Nat) (value : String) : Option TextRecord :=
  if occursIn marker.toList value.toList then
    (capture? marker.toList value.toList).map fun captured =>
      { path, line, id := String.ofList captured.id, context := captured.context.map String.ofList }
  else none

def recordsOf (marker path : String) (elements : List Xml.Element) : List TextRecord :=
  elements.flatMap fun element => element.values.filterMap (record? marker path element.line)

def extract (marker path source : String) : Except Xml.DocumentFault (List TextRecord) :=
  match Xml.elements source with
  | .ok elements => .ok (recordsOf marker path elements)
  | .error fault => .error fault

end TextHarvest.Xaml
