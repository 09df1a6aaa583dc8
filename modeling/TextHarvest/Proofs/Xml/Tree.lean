import Mathlib.Data.List.Basic

/-! # Trees of elements

The tree behind a document, whatever it is made of: tags, the ends of the elements that have one, and the items
between them. A tree is laid out from left to right, and its tags come in the order in which the layout has them.

The same trees serve twice: as derivations of a row of events, and as documents that are written as text.
-/

namespace TextHarvest.Xml

mutual

/-- An element is a tag alone, or a tag with its content and its end. -/
inductive ElementTree (Tag Ending Item : Type)
  | leaf (tag : Tag)
  | branch (tag : Tag) (inside : ContentTree Tag Ending Item) (ending : Ending)

/-- The content of an element: elements and items in any order. -/
inductive ContentTree (Tag Ending Item : Type)
  | nil
  | element (first : ElementTree Tag Ending Item) (rest : ContentTree Tag Ending Item)
  | item (first : Item) (rest : ContentTree Tag Ending Item)

end

/-- A document is one element, with items around it that may be of a kind of their own. -/
structure DocumentTree (Tag Ending Item Outer : Type) where
  before : List Outer
  root : ElementTree Tag Ending Item
  after : List Outer

/-- How the parts of a tree are laid out. -/
structure Layout (Tag Ending Item Letter : Type) where
  leaf : Tag → List Letter
  opening : Tag → List Letter
  closing : Tag → Ending → List Letter
  item : Item → List Letter

variable {Tag Ending Item Outer Letter : Type}

/-! ## The tags of a tree -/

mutual

/-- The tags of an element, its own tag before those inside it. -/
def ElementTree.tags : ElementTree Tag Ending Item → List Tag
  | .leaf tag => [tag]
  | .branch tag inside _ => tag :: inside.tags

def ContentTree.tags : ContentTree Tag Ending Item → List Tag
  | .nil => []
  | .element first rest => first.tags ++ rest.tags
  | .item _ rest => rest.tags

end

def DocumentTree.tags (document : DocumentTree Tag Ending Item Outer) : List Tag :=
  document.root.tags

theorem ElementTree.tags_ne_nil (element : ElementTree Tag Ending Item) : element.tags ≠ [] := by
  cases element <;> simp [tags]

/-! ## The layout of a tree -/

mutual

def ElementTree.layOut (layout : Layout Tag Ending Item Letter) : ElementTree Tag Ending Item → List Letter
  | .leaf tag => layout.leaf tag
  | .branch tag inside ending => layout.opening tag ++ (inside.layOut layout ++ layout.closing tag ending)

def ContentTree.layOut (layout : Layout Tag Ending Item Letter) : ContentTree Tag Ending Item → List Letter
  | .nil => []
  | .element first rest => first.layOut layout ++ rest.layOut layout
  | .item first rest => layout.item first ++ rest.layOut layout

end

def DocumentTree.layOut (layout : Layout Tag Ending Item Letter) (outer : Outer → List Letter)
    (document : DocumentTree Tag Ending Item Outer) : List Letter :=
  document.before.flatMap outer ++ (document.root.layOut layout ++ document.after.flatMap outer)

mutual

/-- The tags of an element, each with all that is laid out before it, where `front` comes before the element. -/
def ElementTree.tagsAfter (layout : Layout Tag Ending Item Letter) (front : List Letter) :
    ElementTree Tag Ending Item → List (List Letter × Tag)
  | .leaf tag => [(front, tag)]
  | .branch tag inside _ => (front, tag) :: inside.tagsAfter layout (front ++ layout.opening tag)

def ContentTree.tagsAfter (layout : Layout Tag Ending Item Letter) (front : List Letter) :
    ContentTree Tag Ending Item → List (List Letter × Tag)
  | .nil => []
  | .element first rest => first.tagsAfter layout front ++ rest.tagsAfter layout (front ++ first.layOut layout)
  | .item first rest => rest.tagsAfter layout (front ++ layout.item first)

end

end TextHarvest.Xml
