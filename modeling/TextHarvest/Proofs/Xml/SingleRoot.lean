import Mathlib.Data.List.Forall2
import TextHarvest.Proofs.Xml.Steps
import TextHarvest.Proofs.Xml.Tree

/-! # Documents are the texts with a single root

A text is a document exactly if the reader finds no fault in it, the attributes of all its tags can be read, and its
events derive from the grammar

* Document ::= Misc\* Element Misc\*
* Element ::= EmptyTag | StartTag (Element | Text | Other)\* EndTag
* Misc ::= blank Text | Other

Derivations are the trees of `EventDocument`. The argument runs along the events: `Opens` is the way of the reader over
them and `Passage` the way of the loop that lists the elements, and the loop counts what the reader holds open.
-/

namespace TextHarvest.Xml

/-! ## Rows of events -/

namespace Row

/-- The events of a row, each with its byte position. -/
def events : Row → List (Nat × Event)
  | .finished => []
  | .broken _ _ => []
  | .event position delivered rest => (position, delivered) :: rest.events

/-- The fault that ends a row, and its byte position. -/
def fault? : Row → Option (Nat × Fault)
  | .finished => none
  | .broken position fault => some (position, fault)
  | .event _ _ rest => rest.fault?

/-- A row that goes on behind some events. -/
def behind : List (Nat × Event) → Row → Row
  | [], row => row
  | (position, delivered) :: front, row => .event position delivered (behind front row)

theorem eq_behind (row : Row) : ∃ last, row = behind row.events last := by
  induction row with
  | finished => exact ⟨.finished, rfl⟩
  | broken position fault => exact ⟨.broken position fault, rfl⟩
  | event position delivered rest ih =>
    obtain ⟨last, same⟩ := ih
    exact ⟨last, congrArg (Row.event position _) same⟩

end Row

/-- The tag that an event is, with its position. -/
def tagOf? : Nat × Event → Option (Nat × List Char)
  | (position, .startTag content) => some (position, content)
  | (position, .emptyTag content) => some (position, content)
  | _ => none

/-- The start tags and empty tags among events, with their positions. -/
def tagsIn (events : List (Nat × Event)) : List (Nat × List Char) :=
  events.filterMap tagOf?

private theorem tagsIn_append (first second : List (Nat × Event)) :
    tagsIn (first ++ second) = tagsIn first ++ tagsIn second :=
  List.filterMap_append

/-! ## The grammar -/

/-- What may stand between tags. -/
inductive Piece
  | text (position : Nat) (content : List Char)
  | other (position : Nat)

namespace Piece

def event : Piece → Nat × Event
  | text position content => (position, .text content)
  | other position => (position, .other)

/-- The pieces that may stand around the root: text only if it is blank. -/
def IsMisc : Piece → Prop
  | text _ content => content.all isOuterBlank = true
  | other _ => True

end Piece

/-- The events of an element: its tag and its end tag are events, and so is every piece inside. -/
def eventLayout : Layout (Nat × List Char) (Nat × List Char) Piece (Nat × Event) where
  leaf tag := [(tag.1, .emptyTag tag.2)]
  opening tag := [(tag.1, .startTag tag.2)]
  closing _ ending := [(ending.1, .endTag ending.2)]
  item piece := [piece.event]

abbrev EventElement := ElementTree (Nat × List Char) (Nat × List Char) Piece

abbrev EventContent := ContentTree (Nat × List Char) (Nat × List Char) Piece

/-- A derivation of events from the grammar of documents. -/
abbrev EventDocument := DocumentTree (Nat × List Char) (Nat × List Char) Piece {piece : Piece // piece.IsMisc}

def miscEvents (pieces : List {piece : Piece // piece.IsMisc}) : List (Nat × Event) :=
  pieces.flatMap fun piece => [piece.1.event]

/-- The events that a derivation derives. -/
def DocumentTree.events (document : EventDocument) : List (Nat × Event) :=
  document.layOut eventLayout fun piece => [piece.1.event]

private theorem DocumentTree.events_eq (document : EventDocument) :
    document.events =
      miscEvents document.before ++ (document.root.layOut eventLayout ++ miscEvents document.after) :=
  rfl

private theorem tagsIn_miscEvents (pieces : List {piece : Piece // piece.IsMisc}) :
    tagsIn (miscEvents pieces) = [] := by
  induction pieces with
  | nil => rfl
  | cons piece pieces ih =>
    obtain ⟨_ | _, _⟩ := piece
    · exact ih
    · exact ih

mutual

private theorem tagsIn_element : ∀ element : EventElement, tagsIn (element.layOut eventLayout) = element.tags
  | .leaf _ => rfl
  | .branch tag inside ending => by
    rw [ElementTree.layOut, tagsIn_append, tagsIn_append, tagsIn_content inside, ElementTree.tags]
    simp [tagsIn, tagOf?, eventLayout]

private theorem tagsIn_content : ∀ content : EventContent, tagsIn (content.layOut eventLayout) = content.tags
  | .nil => rfl
  | .element first rest => by
    rw [ContentTree.layOut, tagsIn_append, tagsIn_element first, tagsIn_content rest, ContentTree.tags]
  | .item piece rest => by
    rw [ContentTree.layOut, tagsIn_append, tagsIn_content rest, ContentTree.tags]
    cases piece <;> rfl

end

/-- The elements of a derivation in their order are the tags of its events. -/
theorem DocumentTree.tagsIn_events (document : EventDocument) :
    tagsIn document.events = document.tags := by
  rw [events_eq, tagsIn_append, tagsIn_append, tagsIn_miscEvents, tagsIn_miscEvents, tagsIn_element, List.nil_append,
    List.append_nil, DocumentTree.tags]

/-! ## The way of the reader -/

/-- The elements that the reader holds open before and behind some events, innermost first. -/
inductive Opens : List (List Char) → List (Nat × Event) → List (List Char) → Prop
  | nil (names : List (List Char)) : Opens names [] names
  | cons {names middle last : List (List Char)} {placed : Nat × Event} {events : List (Nat × Event)} :
      openAfter names placed.2 = .ok middle → Opens middle events last → Opens names (placed :: events) last

/-- An event is delivered only if it agrees with the open elements. It stands where the reader is, and the reader goes
on further behind, with the elements that are open there. -/
theorem readFrom_eq_event {names : List (List Char)} {position place : Nat} {text : List Char} {event : Event}
    {row : Row} (read : readFrom names position text = .event place event row) :
    ∃ later next rest, openAfter names event = .ok later ∧ row = readFrom later next rest ∧
      place = position ∧ position < next := by
  cases text with
  | nil =>
    rw [readFrom] at read
    cases read
  | cons c text =>
    by_cases opening : c = '<'
    · subst opening
      cases found : markup text with
      | error broken =>
        rw [readFrom_of_fault names position found] at read
        cases read
      | ok inside =>
        obtain ⟨content, delivered⟩ := inside
        obtain ⟨rest, rfl⟩ := exists_of_markup found
        rw [readFrom_markup names position found] at read
        split at read
        · cases read
        · next opened =>
          cases read
          exact ⟨_, _, _, opened, rfl, rfl, by omega⟩
    · rw [readFrom_text names position opening] at read
      cases read
      have wide := c.utf8Size_pos
      refine ⟨names, _, _, rfl, rfl, rfl, ?_⟩
      rw [List.takeWhile_cons_of_pos (by simpa using opening), Text.byteLength_cons]
      omega

/-- Behind any number of events the reader goes on with the elements that these left open. -/
theorem opens_of_readFrom {names : List (List Char)} {position : Nat} {text : List Char}
    {front : List (Nat × Event)} {ahead : Row} (read : readFrom names position text = Row.behind front ahead) :
    ∃ last next rest, Opens names front last ∧ ahead = readFrom last next rest := by
  induction front generalizing names position text with
  | nil => exact ⟨names, position, text, .nil names, read.symm⟩
  | cons placed front ih =>
    obtain ⟨later, next, rest, opened, goes_on, _⟩ := readFrom_eq_event read
    obtain ⟨last, after, unread, opens, reached⟩ := ih goes_on.symm
    exact ⟨last, after, unread, .cons opened opens, reached⟩

/-! ## The way of the loop -/

/-- The elements found along some events, and the progress before and behind them. -/
inductive Passage (lines : Text.LineTable) : Progress → List (Nat × Event) → List Element → Progress → Prop
  | nil (progress : Progress) : Passage lines progress [] [] progress
  | cons {source middle target : Progress} {placed : Nat × Event} {events : List (Nat × Event)}
      {found later : List Element} :
      Passes lines source placed found middle → Passage lines middle events later target →
      Passage lines source (placed :: events) (found ++ later) target

private theorem exists_isElementOf_iff (lines : Text.LineTable) (tag : Nat × List Char) :
    (∃ element, IsElementOf lines tag element) ↔ ∃ values, attributeValues tag.2 = .ok values := by
  unfold IsElementOf readElement
  cases attributeValues tag.2 with
  | error fault => simp
  | ok values => simp

/-- One event adds the element of its tag, if it is a tag. -/
theorem Passes.elements {lines : Text.LineTable} {source target : Progress} {placed : Nat × Event}
    {found : List Element} (passes : Passes lines source placed found target) :
    List.Forall₂ (IsElementOf lines) (tagsIn [placed]) found := by
  cases passes with
  | startTag _ read => exact .cons read .nil
  | emptyTag _ read => exact .cons read .nil
  | endTag => exact .nil
  | text => exact .nil
  | other => exact .nil

/-- One step of the loop counts what one step of the reader leaves open. -/
theorem Passes.depth {lines : Text.LineTable} {source target : Progress} {placed : Nat × Event}
    {found : List Element} (passes : Passes lines source placed found target) {names opened : List (List Char)}
    (held : openAfter names placed.2 = .ok opened) (counted : source.depth = names.length) :
    target.depth = opened.length := by
  cases passes with
  | startTag =>
    cases held
    rw [counted, List.length_cons]
  | emptyTag =>
    cases held
    exact counted
  | endTag position name =>
    cases names with
    | nil => cases held
    | cons expected outer =>
      simp only [openAfter] at held
      split_ifs at held
      cases held
      rw [counted, List.length_cons, Nat.add_sub_cancel]
  | text =>
    cases held
    exact counted
  | other =>
    cases held
    exact counted

namespace Passage

variable {lines : Text.LineTable} {source middle target : Progress} {first second : List (Nat × Event)}
  {found later : List Element}

theorem append (left : Passage lines source first found middle) (right : Passage lines middle second later target) :
    Passage lines source (first ++ second) (found ++ later) target := by
  induction left with
  | nil => exact right
  | cons passes _ ih =>
    rw [List.append_assoc]
    exact .cons passes (ih right)

theorem single {placed : Nat × Event} (passes : Passes lines source placed found target) :
    Passage lines source [placed] found target := by
  rw [← List.append_nil found]
  exact .cons passes (.nil target)

/-- A row makes elements exactly if it ends without a fault and the loop passes all its events, with all elements closed
and the root seen at the end. -/
theorem elementsOf_eq_ok_iff {row : Row} :
    elementsOf lines source.depth source.rooted row = .ok found ↔
      row.fault? = none ∧ Passage lines source row.events found ⟨0, true⟩ := by
  induction row generalizing source found with
  | finished =>
    obtain ⟨depth, rooted⟩ := source
    rw [elementsOf]
    constructor
    · intro done
      split_ifs at done with inside seen
      cases done
      obtain rfl : depth = 0 := Nat.eq_zero_of_not_pos inside
      cases seen
      exact ⟨rfl, .nil _⟩
    · rintro ⟨_, passage⟩
      cases passage
      rfl
  | broken position fault =>
    rw [elementsOf]
    simp [Row.fault?]
  | event position event rest ih =>
    constructor
    · intro done
      rw [elementsOf_event] at done
      split at done
      · cases done
      · next here next passed =>
        cases behind : elementsOf lines next.depth next.rooted rest with
        | error fault =>
          rw [behind] at done
          cases done
        | ok elements =>
          rw [behind] at done
          cases done
          obtain ⟨sound, passage⟩ := ih.mp behind
          exact ⟨sound, .cons (Progress.pass_eq_ok_iff.mp passed) passage⟩
    · rintro ⟨sound, passage⟩
      cases passage with
      | cons passes passage =>
        rw [elementsOf_of_passes passes, ih.mpr ⟨sound, passage⟩]
        rfl

/-- The elements found along events are those of their tags, in order. -/
theorem elements (passage : Passage lines source first found target) :
    List.Forall₂ (IsElementOf lines) (tagsIn first) found := by
  induction passage with
  | nil => exact .nil
  | @cons _ _ _ placed events _ _ passes _ ih =>
    rw [← List.singleton_append, tagsIn_append]
    exact List.rel_append passes.elements ih

private theorem exists_isElementOf (passage : Passage lines source first found target) {tag : Nat × List Char}
    (member : tag ∈ tagsIn first) : ∃ element, IsElementOf lines tag element := by
  have lists := passage.elements
  generalize tagsIn first = tags at lists member
  clear passage
  induction lists with
  | nil => exact absurd member List.not_mem_nil
  | cons read _ ih =>
    rcases List.mem_cons.mp member with rfl | later
    · exact ⟨_, read⟩
    · exact ih later

/-- Along the same events, the loop and the reader stay in step. -/
theorem depth {names opened : List (List Char)} (passage : Passage lines source first found target)
    (opens : Opens names first opened) (counted : source.depth = names.length) : target.depth = opened.length := by
  induction passage generalizing names with
  | nil =>
    cases opens
    exact counted
  | cons passes _ ih =>
    cases opens with
    | cons held opens => exact ih opens (passes.depth held counted)

end Passage

/-! ## Derivations are passed -/

private theorem passes_piece (lines : Text.LineTable) {progress : Progress} {piece : Piece}
    (fits : progress.depth = 0 → piece.IsMisc) : Passes lines progress piece.event [] progress := by
  cases piece with
  | text position content => exact .text fits
  | other position => exact .other position

private theorem passage_misc (lines : Text.LineTable) (progress : Progress)
    (pieces : List {piece : Piece // piece.IsMisc}) : Passage lines progress (miscEvents pieces) [] progress := by
  induction pieces with
  | nil => exact .nil progress
  | cons piece pieces ih => exact .cons (passes_piece lines fun _ => piece.2) ih

mutual

/-- The loop passes an element and comes out at the depth where it went in. -/
theorem exists_passage_element (lines : Text.LineTable) : ∀ (element : EventElement) (progress : Progress),
    (progress.depth = 0 → progress.rooted = false) → (∀ tag ∈ element.tags, ∃ found, IsElementOf lines tag found) →
    ∃ found, Passage lines progress (element.layOut eventLayout) found ⟨progress.depth, true⟩
  | .leaf tag, progress, fresh, readable => by
    obtain ⟨found, read⟩ := readable tag (by simp [ElementTree.tags])
    exact ⟨[found], .single (.emptyTag fresh read)⟩
  | .branch tag inside ending, progress, fresh, readable => by
    obtain ⟨found, read⟩ := readable tag (by simp [ElementTree.tags])
    obtain ⟨nested, passage⟩ := exists_passage_content lines inside progress.depth
      (fun tag member => readable tag (by simp [ElementTree.tags, member]))
    have opening : Passage lines progress (eventLayout.opening tag) [found] ⟨progress.depth + 1, true⟩ :=
      .single (.startTag fresh read)
    have closing : Passage lines ⟨progress.depth + 1, true⟩ (eventLayout.closing tag ending) []
        ⟨progress.depth, true⟩ := .single (.endTag _ _)
    exact ⟨_, opening.append (passage.append closing)⟩

/-- The loop passes a content inside an element and stays at its depth. -/
theorem exists_passage_content (lines : Text.LineTable) : ∀ (content : EventContent) (depth : Nat),
    (∀ tag ∈ content.tags, ∃ found, IsElementOf lines tag found) →
    ∃ found, Passage lines ⟨depth + 1, true⟩ (content.layOut eventLayout) found ⟨depth + 1, true⟩
  | .nil, depth, _ => ⟨[], .nil _⟩
  | .element first rest, depth, readable => by
    obtain ⟨found, left⟩ := exists_passage_element lines first ⟨depth + 1, true⟩ (fun outside => by cases outside)
      (fun tag member => readable tag (by simp [ContentTree.tags, member]))
    obtain ⟨later, right⟩ := exists_passage_content lines rest depth
      (fun tag member => readable tag (by simp [ContentTree.tags, member]))
    exact ⟨_, left.append right⟩
  | .item piece rest, depth, readable => by
    obtain ⟨later, passage⟩ := exists_passage_content lines rest depth
      (fun tag member => readable tag (by simp [ContentTree.tags, member]))
    exact ⟨_, .cons (passes_piece lines (fun outside => by cases outside)) passage⟩

end

/-- The loop passes the events of a derivation whose tags can all be read. -/
theorem exists_passage_document (lines : Text.LineTable) (document : EventDocument)
    (readable : ∀ tag ∈ document.tags, ∃ found, IsElementOf lines tag found) :
    ∃ found, Passage lines .start document.events found ⟨0, true⟩ := by
  obtain ⟨found, root⟩ := exists_passage_element lines document.root .start (fun _ => rfl) readable
  have before := passage_misc lines .start document.before
  have after := passage_misc lines ⟨0, true⟩ document.after
  exact ⟨_, before.append (root.append after)⟩

/-! ## What is passed has a derivation -/

/-- The events that close the given number of open elements and end a document: for each element the rest of its
content and its end tag, and then pieces that may stand behind the root. -/
inductive Closes : Nat → List (Nat × Event) → Prop
  | outside (pieces : List {piece : Piece // piece.IsMisc}) : Closes 0 (miscEvents pieces)
  | inside {depth : Nat} {rest : List (Nat × Event)} (content : EventContent) (ending : Nat × List Char) :
      Closes depth rest → Closes (depth + 1) (content.layOut eventLayout ++ (ending.1, .endTag ending.2) :: rest)

namespace Closes

variable {depth : Nat} {rest : List (Nat × Event)}

theorem piece (closes : Closes depth rest) (piece : Piece) (fits : depth = 0 → piece.IsMisc) :
    Closes depth (piece.event :: rest) := by
  cases closes with
  | outside pieces => exact .outside (⟨piece, fits rfl⟩ :: pieces)
  | inside content ending closes => exact .inside (.item piece content) ending closes

theorem element (closes : Closes (depth + 1) rest) (element : EventElement) :
    Closes (depth + 1) (element.layOut eventLayout ++ rest) := by
  cases closes with
  | inside content ending closes =>
    rw [← List.append_assoc]
    exact .inside (.element element content) ending closes

/-- Behind a start tag, the content up to the first end tag that is left makes an element. -/
theorem exists_branch (closes : Closes (depth + 1) rest) (tag : Nat × List Char) :
    ∃ (element : EventElement) (later : List (Nat × Event)), Closes depth later ∧
      (tag.1, .startTag tag.2) :: rest = element.layOut eventLayout ++ later := by
  cases closes with
  | inside content ending closes =>
    refine ⟨.branch tag content ending, _, closes, ?_⟩
    simp [ElementTree.layOut, eventLayout]

end Closes

/-- A passage at the depth that the reader holds open, to the end of a document, closes what is open. -/
theorem closes_of_passage {lines : Text.LineTable} {names last : List (List Char)} {events : List (Nat × Event)}
    {found : List Element} (opens : Opens names events last)
    (passage : Passage lines ⟨names.length, true⟩ events found ⟨0, true⟩) : Closes names.length events := by
  induction events generalizing names found with
  | nil =>
    generalize names.length = depth at passage
    cases passage
    exact .outside []
  | cons placed events ih =>
    cases opens with
    | cons held opens =>
      cases passage with
      | cons passes passage =>
        cases passes with
        | @startTag position content _ fresh _ =>
          cases held
          cases names with
          | nil => cases fresh rfl
          | cons name names =>
            obtain ⟨element, later, closes, same⟩ := (ih opens passage).exists_branch (position, content)
            rw [same]
            exact closes.element element
        | @emptyTag position content _ fresh _ =>
          cases held
          cases names with
          | nil => cases fresh rfl
          | cons name names => exact (ih opens passage).element (.leaf (position, content))
        | endTag position name =>
          cases names with
          | nil => cases held
          | cons expected outer =>
            simp only [openAfter] at held
            split_ifs at held
            cases held
            exact .inside .nil (position, name) (ih opens passage)
        | @text position content blank =>
          cases held
          exact (ih opens passage).piece (.text position content) blank
        | other position =>
          cases held
          exact (ih opens passage).piece (.other position) fun _ => trivial

/-- Events that the loop passes from the start to the end of a document have a derivation. -/
theorem exists_document_of_passage {lines : Text.LineTable} {last : List (List Char)} {events : List (Nat × Event)}
    {found : List Element} (opens : Opens [] events last)
    (passage : Passage lines .start events found ⟨0, true⟩) :
    ∃ document : EventDocument, document.events = events := by
  induction events generalizing found with
  | nil => cases passage
  | cons placed events ih =>
    cases opens with
    | cons held opens =>
      cases passage with
      | cons passes passage =>
        cases passes with
        | @startTag position content _ _ _ =>
          cases held
          have closes := closes_of_passage opens passage
          obtain ⟨root, later, behind, same⟩ := closes.exists_branch (position, content)
          cases behind with
          | outside pieces => exact ⟨⟨[], root, pieces⟩, same.symm⟩
        | @emptyTag position content _ _ _ =>
          cases held
          cases closes_of_passage opens passage with
          | outside pieces => exact ⟨⟨[], .leaf (position, content), pieces⟩, rfl⟩
        | endTag => cases held
        | @text position content blank =>
          cases held
          obtain ⟨document, rfl⟩ := ih opens passage
          exact ⟨{ document with before := ⟨.text position content, blank rfl⟩ :: document.before }, rfl⟩
        | other position =>
          cases held
          obtain ⟨document, rfl⟩ := ih opens passage
          exact ⟨{ document with before := ⟨.other position, trivial⟩ :: document.before }, rfl⟩

/-! ## Whole texts -/

/-- The events of a source text. One byte-order mark is no part of it. -/
def rowOf (source : String) : Row :=
  read (Text.dropByteOrderMark source.toList)

def linesOf (source : String) : Text.LineTable :=
  .ofText (Text.dropByteOrderMark source.toList)

theorem elements_eq_ok_iff {source : String} {found : List Element} :
    elements source = .ok found ↔
      (rowOf source).fault? = none ∧ Passage (linesOf source) .start (rowOf source).events found ⟨0, true⟩ :=
  @Passage.elementsOf_eq_ok_iff (linesOf source) .start found (rowOf source)

private theorem opens_of_rowOf {source : String} {front : List (Nat × Event)} {ahead : Row}
    (read : rowOf source = Row.behind front ahead) :
    ∃ names position rest, Opens [] front names ∧ ahead = readFrom names position rest :=
  opens_of_readFrom read

/-- A text is a document exactly if the reader finds no fault, the attributes of every tag can be read, and the events
derive from the grammar. Its elements are then those of the derivation, each before those inside it. At every point the
depth is the number of elements that the reader holds open, so an end tag always finds an element to close. -/
theorem elements_singleRooted (source : String) :
    ((∃ found, elements source = .ok found) ↔
      (rowOf source).fault? = none ∧
        (∀ tag ∈ tagsIn (rowOf source).events, ∃ values, attributeValues tag.2 = .ok values) ∧
        ∃ document : EventDocument, document.events = (rowOf source).events) ∧
    (∀ found, elements source = .ok found → found ≠ [] ∧
      ∀ document : EventDocument, document.events = (rowOf source).events →
        List.Forall₂ (IsElementOf (linesOf source)) document.tags found) ∧
    ∀ front ahead found progress, rowOf source = Row.behind front ahead →
      Passage (linesOf source) .start front found progress →
      ∃ names position rest, Opens [] front names ∧ ahead = readFrom names position rest ∧
        progress.depth = names.length ∧
        ∀ place name later, ahead = .event place (.endTag name) later → 0 < progress.depth := by
  have derives {found : List Element} (done : elements source = .ok found) :
      ∃ document : EventDocument, document.events = (rowOf source).events := by
    obtain ⟨last, row⟩ := (rowOf source).eq_behind
    obtain ⟨names, _, _, opens, _⟩ := opens_of_rowOf row
    exact exists_document_of_passage opens (elements_eq_ok_iff.mp done).2
  have lists {found : List Element} (done : elements source = .ok found) (document : EventDocument)
      (derived : document.events = (rowOf source).events) :
      List.Forall₂ (IsElementOf (linesOf source)) document.tags found := by
    rw [← DocumentTree.tagsIn_events, derived]
    exact (elements_eq_ok_iff.mp done).2.elements
  refine ⟨⟨?_, ?_⟩, ?_, ?_⟩
  · rintro ⟨found, done⟩
    obtain ⟨sound, passage⟩ := elements_eq_ok_iff.mp done
    refine ⟨sound, ?_, derives done⟩
    intro tag member
    exact (exists_isElementOf_iff _ tag).mp (passage.exists_isElementOf member)
  · rintro ⟨sound, readable, document, derived⟩
    obtain ⟨found, passage⟩ := exists_passage_document (linesOf source) document (by
      intro tag member
      rw [← DocumentTree.tagsIn_events, derived] at member
      exact (exists_isElementOf_iff _ tag).mpr (readable tag member))
    exact ⟨found, elements_eq_ok_iff.mpr ⟨sound, derived ▸ passage⟩⟩
  · intro found done
    refine ⟨?_, lists done⟩
    rintro rfl
    obtain ⟨document, derived⟩ := derives done
    have empty := List.forall₂_nil_right_iff.mp (lists done document derived)
    exact document.root.tags_ne_nil empty
  · intro front ahead found progress row passage
    obtain ⟨names, position, rest, opens, reached⟩ := opens_of_rowOf row
    have counted := passage.depth opens rfl
    refine ⟨names, position, rest, opens, reached, counted, ?_⟩
    rintro place name later rfl
    obtain ⟨_, _, _, held, _⟩ := readFrom_eq_event reached.symm
    cases names with
    | nil => cases held
    | cons expected outer =>
      rw [counted]
      exact Nat.succ_pos _

/-- An element inside another one on the next line: a document, with one element open before the last end tag. -/
theorem elements_singleRooted_nested :
    let source := "<a>\n<b c='&lt;'/></a>"
    let front := [(0, .startTag ['a']), (3, .text ['\n']), (4, .emptyTag "b c='&lt;'".toList)]
    let ahead := Row.event 17 (.endTag ['a']) .finished
    elements source = .ok [⟨1, []⟩, ⟨2, ["<"]⟩] ∧ rowOf source = Row.behind front ahead ∧
      Passage (linesOf source) .start front [⟨1, []⟩, ⟨2, ["<"]⟩] ⟨1, true⟩ ∧
      (∃ document : EventDocument, document.events = (rowOf source).events ∧
        List.Forall₂ (IsElementOf (linesOf source)) document.tags [⟨1, []⟩, ⟨2, ["<"]⟩]) ∧
      ∃ names position rest, Opens [] front names ∧ ahead = readFrom names position rest ∧ 1 = names.length := by
  intro source front ahead
  obtain ⟨accepted, lists, counts⟩ := elements_singleRooted source
  have done : elements source = .ok [⟨1, []⟩, ⟨2, ["<"]⟩] := by decide +kernel
  have row : rowOf source = Row.behind front ahead := by decide +kernel
  have passage : Passage (linesOf source) .start front [⟨1, []⟩, ⟨2, ["<"]⟩] ⟨1, true⟩ := by
    have outer : IsElementOf (linesOf source) (0, ['a']) ⟨1, []⟩ := by decide +kernel
    have inner : IsElementOf (linesOf source) (4, "b c='&lt;'".toList) ⟨2, ["<"]⟩ := by decide +kernel
    exact .cons (.startTag (fun _ => rfl) outer)
      (.cons (.text fun outside => by cases outside) (.single (.emptyTag (fun outside => by cases outside) inner)))
  obtain ⟨_, _, document, derived⟩ := accepted.mp ⟨_, done⟩
  obtain ⟨names, position, rest, opens, reached, counted, _⟩ := counts front ahead _ _ row passage
  exact ⟨done, row, passage, ⟨document, derived, (lists _ done).2 document derived⟩,
    names, position, rest, opens, reached, counted⟩

end TextHarvest.Xml
