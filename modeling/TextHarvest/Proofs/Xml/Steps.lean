import TextHarvest.Proofs.Text.Pieces
import TextHarvest.Xml.Document

/-! # One event at a time

The reader delivers one event after the other, and the list of elements grows with them. This file says what one step of
either does, so that whole texts are handled by induction over steps:

* `readFrom_markup` and `readFrom_text` are the two steps of the reader, with the rest of the text as it stands there;
* `Progress.pass` is what an event does to the depth, to the root that was seen and to the list of elements, and
  `elementsOf_event` says that `elementsOf` is made of such steps;
* `Passes` lists how an event can be passed.
-/

namespace TextHarvest.Xml

/-! ## The reader -/

private theorem exists_of_tagContent? {quote : Option Char} {text content : List Char}
    (found : tagContent? quote text = some content) : ∃ rest, text = content ++ '>' :: rest := by
  induction text generalizing quote content with
  | nil => simp [tagContent?] at found
  | cons c text ih =>
    cases quote with
    | some quote =>
      obtain ⟨inner, read, rfl⟩ := Option.map_eq_some_iff.mp found
      obtain ⟨rest, rfl⟩ := ih read
      exact ⟨rest, rfl⟩
    | none =>
      rw [tagContent?] at found
      split_ifs at found with closing
      · cases found
        exact ⟨text, by rw [closing]; rfl⟩
      all_goals
        obtain ⟨inner, read, rfl⟩ := Option.map_eq_some_iff.mp found
        obtain ⟨rest, rfl⟩ := ih read
        exact ⟨rest, rfl⟩

private theorem exists_of_contentUntil? {closes : List Char → Bool} {before text content : List Char}
    (found : contentUntil? closes before text = some content) : ∃ rest, text = content ++ '>' :: rest := by
  induction text generalizing before content with
  | nil => simp [contentUntil?] at found
  | cons c text ih =>
    rw [contentUntil?] at found
    split_ifs at found with closing
    · cases found
      exact ⟨text, by rw [closing.1]; rfl⟩
    · obtain ⟨inner, read, rfl⟩ := Option.map_eq_some_iff.mp found
      obtain ⟨rest, rfl⟩ := ih read
      exact ⟨rest, rfl⟩

private theorem exists_of_balancedContent? {depth : Nat} {text content : List Char}
    (found : balancedContent? depth text = some content) : ∃ rest, text = content ++ '>' :: rest := by
  induction text generalizing depth content with
  | nil => simp [balancedContent?] at found
  | cons c text ih =>
    rw [balancedContent?] at found
    split_ifs at found with closing
    · cases found
      exact ⟨text, by rw [closing.1]; rfl⟩
    all_goals
      obtain ⟨inner, read, rfl⟩ := Option.map_eq_some_iff.mp found
      obtain ⟨rest, rfl⟩ := ih read
      exact ⟨rest, rfl⟩

private theorem otherMarkup_eq_ok {kind : Markup} {opening : List Char → Bool} {inside : Option (List Char)}
    {content : List Char} {event : Event} (found : otherMarkup kind opening inside = .ok (content, event)) :
    inside = some content := by
  unfold otherMarkup at found
  split at found
  · cases found
  · split_ifs at found
    cases found
    rfl

/-- Markup is closed by an angle bracket right behind its content. -/
theorem exists_of_markup {text content : List Char} {event : Event} (found : markup text = .ok (content, event)) :
    ∃ rest, text = content ++ '>' :: rest := by
  unfold markup at found
  split at found
  · split at found
    · exact exists_of_contentUntil? (otherMarkup_eq_ok found)
    · exact exists_of_contentUntil? (otherMarkup_eq_ok found)
    · split_ifs at found
      unfold documentType at found
      split at found
      · cases found
      · next read =>
        split_ifs at found
        cases found
        exact exists_of_balancedContent? read
    · cases found
  · exact exists_of_contentUntil? (otherMarkup_eq_ok found)
  · unfold tag at found
    split at found
    · cases found
    · next read =>
      split at found <;> cases found <;> exact exists_of_tagContent? read

/-- The step of the reader at an opening angle bracket. -/
theorem readFrom_markup (names : List (List Char)) (position : Nat) {content rest : List Char} {event : Event}
    (found : markup (content ++ '>' :: rest) = .ok (content, event)) :
    readFrom names position ('<' :: (content ++ '>' :: rest)) =
      match openAfter names event with
      | .error fault => .broken position fault
      | .ok names => .event position event (readFrom names (position + Text.byteLength content + 2) rest) := by
  have behind : (content ++ '>' :: rest).drop (content.length + 1) = rest := by simp
  rw [readFrom]
  cases held : openAfter names event with
  | error fault => simp only [↓reduceIte, found, held]
  | ok opened => simp only [↓reduceIte, found, held, behind]

theorem byteLength_markup (content : List Char) :
    Text.byteLength ('<' :: (content ++ ['>'])) = Text.byteLength content + 2 := by
  have brackets : '<'.utf8Size = 1 ∧ '>'.utf8Size = 1 := by decide
  simp only [Text.byteLength_cons, Text.byteLength_append, Text.byteLength_nil, brackets]
  omega

theorem readFrom_of_fault (names : List (List Char)) (position : Nat) {text : List Char} {offset : Nat} {fault : Fault}
    (broken : markup text = .error (offset, fault)) :
    readFrom names position ('<' :: text) = .broken (position + offset) fault := by
  rw [readFrom]
  simp only [↓reduceIte, broken]

/-- The step of the reader anywhere else: the text up to the next opening angle bracket. -/
theorem readFrom_text (names : List (List Char)) (position : Nat) {c : Char} (other : c ≠ '<') (rest : List Char) :
    readFrom names position (c :: rest) =
      .event position (.text ((c :: rest).takeWhile (· ≠ '<')))
        (readFrom names (position + Text.byteLength ((c :: rest).takeWhile (· ≠ '<')))
          ((c :: rest).dropWhile (· ≠ '<'))) := by
  have taken : (c :: rest).takeWhile (· ≠ '<') = c :: rest.takeWhile (· ≠ '<') :=
    List.takeWhile_cons_of_pos (by simpa using other)
  have left : (c :: rest).dropWhile (· ≠ '<') = rest.dropWhile (· ≠ '<') :=
    List.dropWhile_cons_of_pos (by simpa using other)
  rw [readFrom, if_neg other, taken, left]
  simp only [List.length_cons, Nat.add_sub_cancel, Text.drop_length_takeWhile]

/-! ## The list of elements -/

/-- How far a row of events has come: how many elements are open, and whether the root element was seen. -/
structure Progress where
  depth : Nat
  rooted : Bool
deriving DecidableEq, Repr

namespace Progress

def start : Progress :=
  ⟨0, false⟩

/-- The element of a tag, behind which `depth` elements are open. -/
def enter (lines : Text.LineTable) (progress : Progress) (position : Nat) (content : List Char) (depth : Nat) :
    Except DocumentFault (List Element × Progress) :=
  if progress.depth = 0 ∧ progress.rooted then .error (.misshapen (lines.lineOf position) .severalRoots)
  else
    match readElement (lines.lineOf position) content with
    | .error fault => .error fault
    | .ok element => .ok ([element], ⟨depth, true⟩)

/-- The elements that an event adds, and the progress behind it. -/
def pass (lines : Text.LineTable) (progress : Progress) (position : Nat) :
    Event → Except DocumentFault (List Element × Progress)
  | .startTag content => progress.enter lines position content (progress.depth + 1)
  | .emptyTag content => progress.enter lines position content progress.depth
  | .endTag _ => .ok ([], ⟨progress.depth - 1, progress.rooted⟩)
  | .text content =>
    if progress.depth = 0 ∧ ¬ content.all isOuterBlank then
      .error (.misshapen (lines.lineOf position) .textOutsideRoot)
    else .ok ([], progress)
  | .other => .ok ([], progress)

end Progress

theorem map_nil_append (result : Except DocumentFault (List Element)) : result.map ([] ++ ·) = result := by
  cases result <;> rfl

/-- The elements of a row are those of its first event and those of the rest, in this order. -/
theorem elementsOf_event (lines : Text.LineTable) (progress : Progress) (position : Nat) (event : Event) (rest : Row) :
    elementsOf lines progress.depth progress.rooted (.event position event rest) =
      match progress.pass lines position event with
      | .error fault => .error fault
      | .ok (found, next) => (elementsOf lines next.depth next.rooted rest).map (found ++ ·) := by
  cases event with
  | startTag content | emptyTag content =>
    simp only [elementsOf, Progress.pass, Progress.enter]
    split_ifs
    · rfl
    · cases readElement (lines.lineOf position) content with
      | error fault => rfl
      | ok element =>
        dsimp only
        cases elementsOf lines _ true rest <;> rfl
  | endTag name => exact (map_nil_append _).symm
  | text content =>
    simp only [elementsOf, Progress.pass]
    split_ifs
    · rfl
    · exact (map_nil_append _).symm
  | other => exact (map_nil_append _).symm

/-- An element is that of a tag: it has the line of the tag, and its values are read off the tag. -/
def IsElementOf (lines : Text.LineTable) (tag : Nat × List Char) (element : Element) : Prop :=
  readElement (lines.lineOf tag.1) tag.2 = .ok element

instance (lines : Text.LineTable) (tag : Nat × List Char) (element : Element) :
    Decidable (IsElementOf lines tag element) :=
  inferInstanceAs (Decidable (readElement (lines.lineOf tag.1) tag.2 = .ok element))

/-- How an event can be passed. A tag outside an element must be the first one there, and text outside must be blank. -/
inductive Passes (lines : Text.LineTable) (progress : Progress) : Nat × Event → List Element → Progress → Prop
  | startTag {position : Nat} {content : List Char} {element : Element}
      (fresh : progress.depth = 0 → progress.rooted = false) (read : IsElementOf lines (position, content) element) :
      Passes lines progress (position, .startTag content) [element] ⟨progress.depth + 1, true⟩
  | emptyTag {position : Nat} {content : List Char} {element : Element}
      (fresh : progress.depth = 0 → progress.rooted = false) (read : IsElementOf lines (position, content) element) :
      Passes lines progress (position, .emptyTag content) [element] ⟨progress.depth, true⟩
  | endTag (position : Nat) (name : List Char) :
      Passes lines progress (position, .endTag name) [] ⟨progress.depth - 1, progress.rooted⟩
  | text {position : Nat} {content : List Char} (blank : progress.depth = 0 → content.all isOuterBlank = true) :
      Passes lines progress (position, .text content) [] progress
  | other (position : Nat) : Passes lines progress (position, .other) [] progress

private theorem Progress.enter_eq_ok_iff {lines : Text.LineTable} {progress next : Progress} {position depth : Nat}
    {content : List Char} {found : List Element} :
    progress.enter lines position content depth = .ok (found, next) ↔
      (progress.depth = 0 → progress.rooted = false) ∧
        ∃ element, IsElementOf lines (position, content) element ∧ found = [element] ∧ next = ⟨depth, true⟩ := by
  unfold enter IsElementOf
  split_ifs with taken
  · simp [taken]
  · have fresh : progress.depth = 0 → progress.rooted = false := by simpa using taken
    cases readElement (lines.lineOf position) content with
    | error fault => simp
    | ok element =>
      simp only [Except.ok.injEq, Prod.mk.injEq, exists_eq_left', eq_comm (a := found), eq_comm (a := next)]
      exact ⟨fun same => ⟨fresh, same⟩, fun same => same.2⟩

theorem Progress.pass_eq_ok_iff {lines : Text.LineTable} {progress next : Progress} {position : Nat} {event : Event}
    {found : List Element} :
    progress.pass lines position event = .ok (found, next) ↔ Passes lines progress (position, event) found next := by
  constructor
  · intro passed
    cases event with
    | startTag content =>
      obtain ⟨fresh, element, read, rfl, rfl⟩ := enter_eq_ok_iff.mp passed
      exact .startTag fresh read
    | emptyTag content =>
      obtain ⟨fresh, element, read, rfl, rfl⟩ := enter_eq_ok_iff.mp passed
      exact .emptyTag fresh read
    | endTag name =>
      cases passed
      exact .endTag position name
    | text content =>
      simp only [pass] at passed
      split_ifs at passed with visible
      cases passed
      exact .text (by simpa using visible)
    | other =>
      cases passed
      exact .other position
  · intro passes
    cases passes with
    | startTag fresh read => exact enter_eq_ok_iff.mpr ⟨fresh, _, read, rfl, rfl⟩
    | emptyTag fresh read => exact enter_eq_ok_iff.mpr ⟨fresh, _, read, rfl, rfl⟩
    | endTag => rfl
    | text blank =>
      have invisible : ¬ (progress.depth = 0 ∧ ¬ _ = true) := fun outside => outside.2 (blank outside.1)
      exact if_neg invisible
    | other => rfl

/-- Where an event can be passed, the elements behind it follow those it adds. -/
theorem elementsOf_of_passes {lines : Text.LineTable} {progress next : Progress} {position : Nat} {event : Event}
    {found : List Element} (passes : Passes lines progress (position, event) found next) (rest : Row) :
    elementsOf lines progress.depth progress.rooted (.event position event rest) =
      (elementsOf lines next.depth next.rooted rest).map (found ++ ·) := by
  rw [elementsOf_event, Progress.pass_eq_ok_iff.mpr passes]

def elementsFrom (lines : Text.LineTable) (progress : Progress) (names : List (List Char)) (position : Nat)
    (text : List Char) : Except DocumentFault (List Element) :=
  elementsOf lines progress.depth progress.rooted (readFrom names position text)

end TextHarvest.Xml
