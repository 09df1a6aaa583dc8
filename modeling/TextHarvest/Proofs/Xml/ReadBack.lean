import TextHarvest.Proofs.Text.Lines
import TextHarvest.Proofs.Xml.Writing

/-! # Written documents are read back

`elements_write` says that the elements of a written document are those of its tree, in the order of their tags, with
their values and with the lines their tags are on. It holds for every tree and for every way of writing it. The argument
goes through the text from left to right: the table of lines is that of the whole text, so what was read is kept beside
what is still to be read.
-/

namespace TextHarvest.Xml

/-! ## From one place to the next -/

private theorem elementsFrom_markup {lines : Text.LineTable} {progress next : Progress}
    {names opened : List (List Char)} {position : Nat} {content rest : List Char} {event : Event}
    {here later : List Element} (found : markup (content ++ '>' :: rest) = .ok (content, event))
    (held : openAfter names event = .ok opened) (passes : Passes lines progress (position, event) here next)
    (behind :
      elementsFrom lines next opened (position + Text.byteLength ('<' :: (content ++ ['>']))) rest = .ok later) :
    elementsFrom lines progress names position ('<' :: (content ++ ['>']) ++ rest) = .ok (here ++ later) := by
  have moved : position + Text.byteLength content + 2 = position + Text.byteLength ('<' :: (content ++ ['>'])) := by
    rw [byteLength_markup, Nat.add_assoc]
  have laid : '<' :: (content ++ ['>']) ++ rest = '<' :: (content ++ '>' :: rest) := by simp
  rw [laid, elementsFrom, readFrom_markup names position found, held, moved]
  dsimp only
  rw [elementsOf_of_passes passes, ← elementsFrom, behind]
  rfl

private theorem elementsFrom_opening {lines : Text.LineTable} {progress : Progress} {names : List (List Char)}
    {position : Nat} (tag : WrittenTag) {rest : List Char} {later : List Element}
    (fresh : progress.depth = 0 → progress.rooted = false)
    (behind : elementsFrom lines ⟨progress.depth + 1, true⟩ (tag.name.characters :: names)
      (position + Text.byteLength (textLayout.opening tag)) rest = .ok later) :
    elementsFrom lines progress names position (textLayout.opening tag ++ rest) =
      .ok (⟨lines.lineOf position, tag.values.map String.ofList⟩ :: later) := by
  have read : IsElementOf lines (position, tag.write) ⟨lines.lineOf position, tag.values.map String.ofList⟩ := by
    rw [IsElementOf, readElement, attributeValues_write]
  have held : openAfter names (.startTag tag.write) = .ok (tag.name.characters :: names) := by
    rw [openAfter, tagName_write]
  exact elementsFrom_markup (markup_opening tag rest) held (.startTag fresh read) behind

private theorem elementsFrom_leaf {lines : Text.LineTable} {progress : Progress} {names : List (List Char)}
    {position : Nat} (tag : WrittenTag) {rest : List Char} {later : List Element}
    (fresh : progress.depth = 0 → progress.rooted = false)
    (behind : elementsFrom lines ⟨progress.depth, true⟩ names
      (position + Text.byteLength (textLayout.leaf tag)) rest = .ok later) :
    elementsFrom lines progress names position (textLayout.leaf tag ++ rest) =
      .ok (⟨lines.lineOf position, tag.values.map String.ofList⟩ :: later) := by
  have read : IsElementOf lines (position, tag.write) ⟨lines.lineOf position, tag.values.map String.ofList⟩ := by
    rw [IsElementOf, readElement, attributeValues_write]
  have laid : textLayout.leaf tag = '<' :: ((tag.write ++ ['/']) ++ ['>']) := by
    simp [textLayout]
  have found := markup_leaf tag rest
  rw [laid] at behind ⊢
  refine elementsFrom_markup ?_ rfl (.emptyTag fresh read) behind
  rw [List.append_assoc]
  exact found

private theorem elementsFrom_closing {lines : Text.LineTable} {depth : Nat} {names : List (List Char)} {position : Nat}
    (tag : WrittenTag) (blanks : Blanks) {rest : List Char} {later : List Element}
    (behind : elementsFrom lines ⟨depth, true⟩ names
      (position + Text.byteLength (textLayout.closing tag blanks)) rest = .ok later) :
    elementsFrom lines ⟨depth + 1, true⟩ (tag.name.characters :: names) position
      (textLayout.closing tag blanks ++ rest) = .ok later := by
  have laid : textLayout.closing tag blanks = '<' :: (('/' :: (tag.name.characters ++ blanks.1)) ++ ['>']) := by
    simp [textLayout]
  have found := markup_closing tag.name blanks rest
  have held : openAfter (tag.name.characters :: names) (.endTag tag.name.characters) = .ok names := by
    simp [openAfter]
  rw [laid] at behind ⊢
  refine elementsFrom_markup ?_ held (.endTag position _) behind
  simpa using found

/-! ## Texts and other items -/

/-- A text is passed as far as it goes, outside of elements if it is blank. -/
theorem elementsFrom_text_iff {lines : Text.LineTable} {progress : Progress} {names : List (List Char)}
    {position : Nat} {text : List Char} {found : List Element} :
    elementsFrom lines progress names position text = .ok found ↔
      (progress.depth = 0 → (text.takeWhile (· ≠ '<')).all isOuterBlank = true) ∧
        elementsFrom lines progress names (position + Text.byteLength (text.takeWhile (· ≠ '<')))
          (text.dropWhile (· ≠ '<')) = .ok found := by
  cases text with
  | nil => simp
  | cons c text =>
    by_cases bracket : c = '<'
    · simp [bracket]
    · have step : elementsFrom lines progress names position (c :: text) =
          if progress.depth = 0 ∧ ¬ ((c :: text).takeWhile (· ≠ '<')).all isOuterBlank then
            .error (.misshapen (lines.lineOf position) .textOutsideRoot)
          else elementsFrom lines progress names (position + Text.byteLength ((c :: text).takeWhile (· ≠ '<')))
            ((c :: text).dropWhile (· ≠ '<')) := by
        rw [elementsFrom, readFrom_text names position bracket, elementsOf_event, Progress.pass]
        split_ifs
        · rfl
        · exact map_nil_append _
      rw [step]
      split_ifs with outside
      · simp only [false_iff, not_and]
        intro blank
        exact absurd (blank outside.1) outside.2
      · have blank : progress.depth = 0 → ((c :: text).takeWhile (· ≠ '<')).all isOuterBlank = true := by
          intro here
          by_contra visible
          exact outside ⟨here, visible⟩
        exact ⟨fun read => ⟨blank, read⟩, fun read => read.2⟩

/-- A text in front is passed together with the text that follows it. -/
theorem elementsFrom_text_append {lines : Text.LineTable} {progress : Progress} {names : List (List Char)}
    {position : Nat}
    {content : List Char} (no_bracket : '<' ∉ content)
    (blank : progress.depth = 0 → content.all isOuterBlank = true) {rest : List Char} {found : List Element}
    (behind : elementsFrom lines progress names (position + Text.byteLength content) rest = .ok found) :
    elementsFrom lines progress names position (content ++ rest) = .ok found := by
  have inside : ∀ c ∈ content, c ≠ '<' := fun c member same => no_bracket (same ▸ member)
  have taken : (content ++ rest).takeWhile (· ≠ '<') = content ++ rest.takeWhile (· ≠ '<') :=
    List.takeWhile_append_of_pos (by simpa using inside)
  have left : (content ++ rest).dropWhile (· ≠ '<') = rest.dropWhile (· ≠ '<') :=
    List.dropWhile_append_of_pos (by simpa using inside)
  obtain ⟨visible, behind⟩ := elementsFrom_text_iff.mp behind
  apply elementsFrom_text_iff.mpr
  rw [taken, left, Text.byteLength_append, ← Nat.add_assoc]
  refine ⟨?_, behind⟩
  intro outside
  rw [List.all_append, blank outside, visible outside, Bool.and_self]

/-- An item adds no element. Around the root element, what may stand there does no harm. -/
theorem elementsFrom_item {lines : Text.LineTable} {progress : Progress} {names : List (List Char)} {position : Nat}
    (item : WrittenItem) (fits : progress.depth = 0 → item.IsMisc) {rest : List Char} {found : List Element}
    (behind : elementsFrom lines progress names (position + Text.byteLength item.write) rest = .ok found) :
    elementsFrom lines progress names position (item.write ++ rest) = .ok found := by
  cases item with
  | text content no_bracket =>
    have blank : progress.depth = 0 → content.all isOuterBlank = true := by
      intro outside
      have misc : ∀ c ∈ content, isBlank c = true := fits outside
      rw [List.all_eq_true]
      intro c member
      rw [isOuterBlank, misc c member, Bool.true_or]
    exact elementsFrom_text_append no_bracket blank behind
  | characterData content open_end =>
    have laid : (WrittenItem.characterData content open_end).write =
        '<' :: ((characterDataOpening ++ (content ++ [']', ']'])) ++ ['>']) := by
      simp [WrittenItem.write]
    rw [laid] at behind ⊢
    have passes : Passes lines progress (position, .other) [] progress := .other position
    exact elementsFrom_markup (markup_characterData open_end rest) rfl passes behind
  | comment content open_end =>
    have laid : (WrittenItem.comment content open_end).write =
        '<' :: ((commentOpening ++ (content ++ ['-', '-'])) ++ ['>']) := by
      simp [WrittenItem.write]
    rw [laid] at behind ⊢
    have passes : Passes lines progress (position, .other) [] progress := .other position
    exact elementsFrom_markup (markup_comment open_end rest) rfl passes behind

/-! ## Whole trees -/

/-- The element of a tag that stands behind `front`: its line is counted by the line feeds before it. -/
def elementAfter (placed : List Char × WrittenTag) : Element :=
  ⟨1 + placed.1.count '\n', placed.2.values.map String.ofList⟩

mutual

/-- The elements of a written element are found behind `front`, and reading goes on behind it at the same depth. -/
theorem elementsFrom_element {whole : List Char} : ∀ (element : ElementTree WrittenTag Blanks WrittenItem)
    (front rest : List Char), whole = front ++ (element.layOut textLayout ++ rest) →
    ∀ (progress : Progress), (progress.depth = 0 → progress.rooted = false) →
    ∀ (names : List (List Char)) (later : List Element),
    elementsFrom (.ofText whole) ⟨progress.depth, true⟩ names (Text.byteLength (front ++ element.layOut textLayout))
      rest = .ok later →
    elementsFrom (.ofText whole) progress names (Text.byteLength front) (element.layOut textLayout ++ rest) =
      .ok ((element.tagsAfter textLayout front).map elementAfter ++ later)
  | .leaf tag, front, rest, laid, progress, fresh, names, later, behind => by
    rw [Text.byteLength_append] at behind
    have read := elementsFrom_leaf tag fresh behind
    rw [laid, Text.LineTable.lineOf_ofText_append, ← laid] at read
    exact read
  | .branch tag inside ending, front, rest, laid, progress, fresh, names, later, behind => by
    simp only [ElementTree.layOut, List.append_assoc] at laid behind ⊢
    have closed : elementsFrom (.ofText whole) ⟨progress.depth + 1, true⟩ (tag.name.characters :: names)
        (Text.byteLength ((front ++ textLayout.opening tag) ++ inside.layOut textLayout))
        (textLayout.closing tag ending ++ rest) = .ok later := by
      apply elementsFrom_closing
      rw [← Text.byteLength_append]
      simpa only [List.append_assoc] using behind
    have nested := elementsFrom_content inside (front ++ textLayout.opening tag) _
      (by rw [laid, List.append_assoc]) _ _ _ closed
    rw [Text.byteLength_append] at nested
    have read := elementsFrom_opening tag fresh nested
    rw [laid, Text.LineTable.lineOf_ofText_append, ← laid] at read
    exact read

/-- The elements of a written content are found behind `front`, and reading goes on behind it. -/
theorem elementsFrom_content {whole : List Char} : ∀ (content : ContentTree WrittenTag Blanks WrittenItem)
    (front rest : List Char), whole = front ++ (content.layOut textLayout ++ rest) →
    ∀ (depth : Nat) (names : List (List Char)) (later : List Element),
    elementsFrom (.ofText whole) ⟨depth + 1, true⟩ names (Text.byteLength (front ++ content.layOut textLayout))
      rest = .ok later →
    elementsFrom (.ofText whole) ⟨depth + 1, true⟩ names (Text.byteLength front) (content.layOut textLayout ++ rest) =
      .ok ((content.tagsAfter textLayout front).map elementAfter ++ later)
  | .nil, front, rest, laid, depth, names, later, behind => by
    rw [ContentTree.layOut, List.append_nil] at behind
    exact behind
  | .element first others, front, rest, laid, depth, names, later, behind => by
    rw [ContentTree.layOut] at laid behind ⊢
    rw [List.append_assoc] at laid ⊢
    rw [← List.append_assoc] at behind
    have second := elementsFrom_content others (front ++ first.layOut textLayout) rest
      (by rw [laid, List.append_assoc]) depth names later behind
    have read := elementsFrom_element first front _ laid ⟨depth + 1, true⟩ (fun outside => by cases outside) names _
      second
    rw [read, ContentTree.tagsAfter, List.map_append, List.append_assoc]
  | .item item others, front, rest, laid, depth, names, later, behind => by
    rw [ContentTree.layOut] at laid behind ⊢
    rw [List.append_assoc] at laid ⊢
    rw [← List.append_assoc] at behind
    have second := elementsFrom_content others (front ++ textLayout.item item) rest
      (by rw [laid, List.append_assoc]) depth names later behind
    rw [Text.byteLength_append] at second
    exact elementsFrom_item item (fun outside => by cases outside) second

end

/-! ## Whole documents -/

/-- A document together with the way in which it is written. -/
abbrev WrittenDocument := DocumentTree WrittenTag Blanks WrittenItem {item : WrittenItem // item.IsMisc}

/-- The text of a document, with or without a byte-order mark in front. -/
def DocumentTree.write (document : WrittenDocument) (marked : Bool) : String :=
  String.ofList ((if marked then [Text.byteOrderMark] else []) ++ document.layOut textLayout fun item => item.1.write)

/-- What a document says: the elements in the order of their tags, each with its values and with its line, which is
counted by the line feeds before its tag. -/
def DocumentTree.elements (document : WrittenDocument) : List Element :=
  (document.root.tagsAfter textLayout (document.before.flatMap fun item => item.1.write)).map elementAfter

private theorem elementsFrom_misc {lines : Text.LineTable} {progress : Progress} {names : List (List Char)}
    (items : List {item : WrittenItem // item.IsMisc}) {position : Nat} {rest : List Char} {found : List Element}
    (behind : elementsFrom lines progress names
      (position + Text.byteLength (items.flatMap fun item => item.1.write)) rest = .ok found) :
    elementsFrom lines progress names position ((items.flatMap fun item => item.1.write) ++ rest) = .ok found := by
  induction items generalizing position with
  | nil => exact behind
  | cons item items ih =>
    rw [List.flatMap_cons, Text.byteLength_append, ← Nat.add_assoc] at behind
    rw [List.flatMap_cons, List.append_assoc]
    exact elementsFrom_item item.1 (fun _ => item.2) (ih behind)

/-- A document begins with a bracket or a blank, so a byte-order mark in front of it is its only one. -/
theorem head?_layOut_ne (document : WrittenDocument) :
    (document.layOut textLayout fun item => item.1.write).head? ≠ some Text.byteOrderMark := by
  have root (rest : List Char) : (document.root.layOut textLayout ++ rest).head? = some '<' := by
    cases document.root <;> rfl
  rw [DocumentTree.layOut]
  induction document.before with
  | nil =>
    rw [List.flatMap_nil, List.nil_append, root]
    decide
  | cons item items ih =>
    rw [List.flatMap_cons, List.append_assoc]
    obtain ⟨item, misc⟩ := item
    cases item with
    | text content _ =>
      cases content with
      | nil => exact ih
      | cons c content =>
        intro first
        cases first
        exact absurd (misc _ List.mem_cons_self) (by decide)
    | characterData => exact misc.elim
    | comment =>
      intro first
      cases first

private theorem dropByteOrderMark_of_head?_ne {text : List Char} (other : text.head? ≠ some Text.byteOrderMark) :
    Text.dropByteOrderMark text = text := by
  cases text with
  | nil => rfl
  | cons c text =>
    rw [Text.dropByteOrderMark, if_neg]
    rintro rfl
    exact other rfl

/-- The elements of a written document are those of its tree, whatever way of writing was chosen. -/
theorem elements_write (document : WrittenDocument) (marked : Bool) :
    elements (document.write marked) = .ok document.elements := by
  have unmarked := dropByteOrderMark_of_head?_ne (head?_layOut_ne document)
  have text : Text.dropByteOrderMark (document.write marked).toList =
      document.layOut textLayout fun item => item.1.write := by
    rw [DocumentTree.write, String.toList_ofList]
    cases marked with
    | false => exact unmarked
    | true => rfl
  generalize whole_eq : (document.layOut textLayout fun item => item.1.write) = whole at text unmarked
  rw [DocumentTree.layOut] at whole_eq
  have ended : elementsFrom (.ofText whole) ⟨0, true⟩ [] (Text.byteLength whole) [] = .ok [] := by
    rw [elementsFrom, readFrom]
    rfl
  have after : elementsFrom (.ofText whole) ⟨0, true⟩ []
      (Text.byteLength ((document.before.flatMap fun item => item.1.write) ++ document.root.layOut textLayout))
      (document.after.flatMap fun item => item.1.write) = .ok [] := by
    rw [← List.append_nil (document.after.flatMap _)]
    apply elementsFrom_misc
    rw [← Text.byteLength_append, List.append_assoc, whole_eq]
    exact ended
  have root := elementsFrom_element document.root _ _ whole_eq.symm .start (fun _ => rfl) [] [] after
  have before : elementsFrom (.ofText whole) .start [] 0 whole = .ok document.elements := by
    rw [← whole_eq] at root ⊢
    apply elementsFrom_misc
    rw [Nat.zero_add, root, List.append_nil, DocumentTree.elements]
  rw [Xml.elements, text, read, unmarked]
  exact before

-- A root on the second line, with one attribute in single quotes and a blank before the slash.
example :
    let tag : WrittenTag :=
      ⟨⟨['a'], by decide, List.forall_mem_singleton.mpr rfl⟩,
        [⟨⟨[' '], List.forall_mem_singleton.mpr rfl⟩, by decide, ⟨['b'], by decide, List.forall_mem_singleton.mpr rfl⟩,
          .single, ['"', '<'], ['"', '&', 'l', 't', ';'],
          .raw (by decide) (by decide) (.reference (.entity (by decide : (['l', 't'], '<') ∈ predefined)) .nil)⟩],
        by decide, ⟨[' '], List.forall_mem_singleton.mpr rfl⟩⟩
    let document : WrittenDocument :=
      ⟨[⟨.text ['\n'] (by decide), by simp [WrittenItem.IsMisc, isBlank]⟩], .leaf tag, []⟩
    document.write false = "\n<a b='\"&lt;' />" ∧ document.elements = [⟨2, ["\"<"]⟩] := by
  decide

end TextHarvest.Xml
