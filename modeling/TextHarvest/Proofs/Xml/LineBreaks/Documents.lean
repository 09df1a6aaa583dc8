import Mathlib.Data.List.DropRight
import TextHarvest.Proofs.Text.Lines
import TextHarvest.Proofs.Xml.LineBreaks.Attributes
import TextHarvest.Proofs.Xml.Steps

/-! # Line breaks in documents

A text with its line feeds widened has the same elements on the same lines, or it is no document for the same reason.
The two texts are read side by side: `markup_widen` says that the same markup stands at corresponding places,
`pass_widen` that an event does the same in both readings, and `agreeFrom` goes through the texts by such steps. Byte
positions differ in the two texts; lines do not.
-/

namespace TextHarvest.Xml

open Text

/-! ## Markup -/

def Event.widen : Event → Event
  | .startTag content => .startTag (Text.widen content)
  | .emptyTag content => .emptyTag (Text.widen content)
  | .endTag name => .endTag (Text.widen name)
  | .text content => .text (Text.widen content)
  | .other => .other

private theorem tagContent?_widen {quote : Option Char} (quoting : ∀ c ∈ quote, c = '"' ∨ c = '\'') (text : List Char) :
    tagContent? quote (widen text) = (tagContent? quote text).map widen := by
  induction text using induction_on_feeds generalizing quote with
  | nil => cases quote <;> rfl
  | feed text ih =>
    cases quote with
    | none => simp [tagContent?, ih quoting, Function.comp_def]
    | some quote =>
      have other : '\r' ≠ quote ∧ '\n' ≠ quote := by
        rcases quoting quote rfl with rfl | rfl <;> decide
      simp [tagContent?, other, ih quoting, Function.comp_def]
  | other c text different ih =>
    cases quote with
    | none =>
      by_cases closing : c = '>'
      · simp [tagContent?, closing]
      · have inside : ∀ d ∈ (if c = '"' ∨ c = '\'' then some c else none), d = '"' ∨ d = '\'' := by
          split_ifs with opening
          · simpa using opening
          · simp
        simp [tagContent?, closing, different, ih inside, Function.comp_def]
    | some quote =>
      have inside : ∀ d ∈ (if c = quote then none else some quote), d = '"' ∨ d = '\'' := by
        split_ifs
        · simp
        · exact quoting
      simp [tagContent?, different, ih inside, Function.comp_def]

private theorem balancedContent?_widen (depth : Nat) (text : List Char) :
    balancedContent? depth (widen text) = (balancedContent? depth text).map widen := by
  induction text using induction_on_feeds generalizing depth with
  | nil => rfl
  | feed text ih => simp [balancedContent?, ih, Function.comp_def]
  | other c text different ih =>
    by_cases closing : c = '>' ∧ depth = 0
    · simp [balancedContent?, closing]
    · simp [balancedContent?, closing, different, ih, Function.comp_def]

/-- Content ends at the same place if the same is accepted as its end, whatever is read behind `read`. -/
theorem contentUntil?_widen {closes : List Char → Bool} (read : List Char)
    (same : ∀ front, read <+: front → closes (widen front).reverse = closes front.reverse) (text : List Char) :
    contentUntil? closes (widen read).reverse (widen text) = (contentUntil? closes read.reverse text).map widen := by
  induction text using induction_on_feeds generalizing read with
  | nil => rfl
  | feed text ih =>
    have later := ih _ fun front longer => same front ((List.prefix_append read ['\n']).trans longer)
    simp only [widen_append, widen_feed, widen_nil, List.reverse_append, List.reverse_cons, List.reverse_nil,
      List.nil_append, List.cons_append] at later
    simp [contentUntil?, later, Function.comp_def]
  | other c text different ih =>
    have here := same read List.prefix_rfl
    have later := ih _ fun front longer => same front ((List.prefix_append read [c]).trans longer)
    simp only [widen_append, widen_cons different, widen_nil, List.reverse_append, List.reverse_cons, List.reverse_nil,
      List.nil_append, List.cons_append] at later
    by_cases closing : c = '>' ∧ closes read.reverse = true
    · simp [contentUntil?, closing, here]
    · simp [contentUntil?, closing, different, here, later, Function.comp_def]

/-- The length counts only for the shortest comments, and they have no line breaks. -/
theorem closesComment_widen {front : List Char} (opened : ['!', '-'] <+: front) :
    closesComment (widen front).reverse = closesComment front.reverse := by
  obtain ⟨part, rfl⟩ := opened
  rw [closesComment, closesComment, isPrefixOf_reverse_widen (by decide)]
  by_cases feed : '\n' ∈ part
  · cases ends : ['-', '-'].isPrefixOf (['!', '-'] ++ part).reverse with
    | false => rfl
    | true =>
      have long : 3 ≤ part.length := by
        rcases part with _ | ⟨a, _ | ⟨b, _ | ⟨c, part⟩⟩⟩
        · exact absurd feed List.not_mem_nil
        · obtain rfl := List.mem_singleton.mp feed
          exact absurd ends (by decide)
        · simp only [List.mem_cons, List.not_mem_nil, or_false] at feed
          rcases feed with rfl | rfl <;> simp at ends
        · simp
      have wider := length_le_length_widen (['!', '-'] ++ part)
      simp only [List.length_append, List.length_cons, List.length_nil] at wider
      simp only [List.length_reverse, List.length_append, List.length_cons, List.length_nil, Bool.true_and]
      rw [decide_eq_true (by omega), decide_eq_true (by omega)]
  · rw [widen_of_not_mem (by simpa using feed)]

/-- What stands at an opening angle bracket of one text stands at that of the other. -/
def FoundWidens : List Char × Event → List Char × Event → Prop
  | (content, event), found => found = (widen content, event.widen)

private theorem otherMarkup_widen (kind : Markup) {opening : List Char → Bool} {inside : Option (List Char)}
    (same : ∀ content ∈ inside, opening (widen content) = opening content) :
    Alike AnyFault FoundWidens (otherMarkup kind opening inside) (otherMarkup kind opening (inside.map widen)) := by
  cases inside with
  | none => exact .error trivial
  | some content =>
    simp only [otherMarkup, Option.map_some, same content rfl]
    split_ifs
    · exact .ok rfl
    · exact .error trivial

private theorem documentType_widen (text : List Char) :
    Alike AnyFault FoundWidens (documentType text) (documentType (widen text)) := by
  rw [documentType, documentType, balancedContent?_widen]
  cases balancedContent? 0 text with
  | none => exact .error trivial
  | some content =>
    have same : opensDocumentType (widen content) = opensDocumentType content :=
      isPrefixOf_map_widen (by decide) content
    simp only [Option.map_some, same]
    cases opens : opensDocumentType content with
    | false => exact .error trivial
    | true =>
      have behind : (widen content).drop 8 = widen (content.drop 8) := drop_length_widen (by decide) opens
      simp only [↓reduceIte, behind, all_widen isBlank rfl]
      split_ifs
      · exact .error trivial
      · exact .ok rfl

private theorem rdropWhile_isBlank_widen (name : List Char) :
    (widen name).rdropWhile isBlank = widen (name.rdropWhile isBlank) := by
  induction name using List.reverseRecOn with
  | nil => rfl
  | append_singleton name c ih =>
    by_cases feed : c = '\n'
    · subst feed
      rw [widen_append, List.rdropWhile_concat_pos _ _ _ rfl]
      change (widen name ++ (['\r'] ++ ['\n'])).rdropWhile isBlank = _
      rw [← List.append_assoc, List.rdropWhile_concat_pos _ _ _ rfl, List.rdropWhile_concat_pos _ _ _ rfl, ih]
    · rw [widen_concat feed, List.rdropWhile_concat, List.rdropWhile_concat, ih]
      split_ifs
      · rfl
      · rw [widen_concat feed]

private theorem trimEnd_widen (name : List Char) : trimEnd (widen name) = widen (trimEnd name) := by
  rw [trimEnd, trimEnd, all_widen isBlank rfl]
  split_ifs
  · rfl
  · exact rdropWhile_isBlank_widen name

private theorem openingTag_widen (content : List Char) : openingTag (widen content) = (openingTag content).widen := by
  rw [openingTag, openingTag, getLast?_widen]
  rcases List.eq_nil_or_concat' content with rfl | ⟨front, c, rfl⟩
  · rfl
  · by_cases slash : c = '/'
    · simp [slash, Event.widen]
    · simp [slash, Event.widen]

/-- A tag tells what it is by its first character. -/
theorem tag_eq (text : List Char) :
    tag text =
      match tagContent? none text with
      | none => .error (0, .unclosed .tag)
      | some content =>
        .ok (content, if content.head? = some '/' then .endTag (trimEnd content.tail) else openingTag content) := by
  rw [tag]
  cases tagContent? none text with
  | none => rfl
  | some content =>
    dsimp only
    split
    · rfl
    · next other =>
      have opening : content.head? ≠ some '/' := by
        intro slash
        obtain ⟨name, rfl⟩ := List.head?_eq_some_iff.mp slash
        exact other name rfl
      rw [if_neg opening]

private theorem tag_widen (text : List Char) : Alike AnyFault FoundWidens (tag text) (tag (widen text)) := by
  rw [tag_eq, tag_eq, tagContent?_widen (by simp)]
  cases tagContent? none text with
  | none => exact .error trivial
  | some content =>
    have opening := head?_widen (by decide : '/' ≠ '\r' ∧ '/' ≠ '\n') content
    simp only [Option.map_some, opening]
    split_ifs with slash
    · obtain ⟨name, rfl⟩ := List.head?_eq_some_iff.mp slash
      refine .ok ?_
      simp [FoundWidens, Event.widen, trimEnd_widen]
    · refine .ok ?_
      simp [FoundWidens, openingTag_widen]

theorem markup_of_tag {text : List Char} (no_declaration : text.head? ≠ some '!')
    (no_instruction : text.head? ≠ some '?') : markup text = tag text := by
  unfold markup
  split
  · exact absurd rfl no_declaration
  · exact absurd rfl no_instruction
  · rfl

private theorem contentUntil?_cons {closes : List Char → Bool} {c : Char} (other : c ≠ '>') (before rest : List Char) :
    contentUntil? closes before (c :: rest) = (contentUntil? closes (c :: before) rest).map (c :: ·) := by
  rw [contentUntil?, if_neg (fun closing => other closing.1)]

private theorem comment_widen (rest : List Char) :
    Alike AnyFault FoundWidens (markup ('!' :: '-' :: rest)) (markup ('!' :: '-' :: widen rest)) := by
  have inside : contentUntil? closesComment [] ('!' :: '-' :: widen rest) =
      (contentUntil? closesComment [] ('!' :: '-' :: rest)).map widen := by
    have later : contentUntil? closesComment ['-', '!'] (widen rest) =
        (contentUntil? closesComment ['-', '!'] rest).map widen :=
      contentUntil?_widen ['!', '-'] (fun _ opened => closesComment_widen opened) rest
    rw [contentUntil?_cons (by decide), contentUntil?_cons (by decide), contentUntil?_cons (by decide),
      contentUntil?_cons (by decide), later]
    cases contentUntil? closesComment ['-', '!'] rest <;> rfl
  change Alike _ _ _ (otherMarkup _ _ (contentUntil? closesComment [] ('!' :: '-' :: widen rest)))
  rw [inside]
  exact otherMarkup_widen .comment fun content _ => isPrefixOf_widen (by decide) content

private theorem characterData_widen (rest : List Char) :
    Alike AnyFault FoundWidens (markup ('!' :: '[' :: rest)) (markup ('!' :: '[' :: widen rest)) := by
  have inside : contentUntil? closesCharacterData [] ('!' :: '[' :: widen rest) =
      (contentUntil? closesCharacterData [] ('!' :: '[' :: rest)).map widen :=
    contentUntil?_widen [] (fun front _ => isPrefixOf_reverse_widen (by decide) front) ('!' :: '[' :: rest)
  change Alike _ _ _ (otherMarkup _ _ (contentUntil? closesCharacterData [] ('!' :: '[' :: widen rest)))
  rw [inside]
  exact otherMarkup_widen .characterData fun content _ => isPrefixOf_widen (by decide) content

private theorem instruction_widen (rest : List Char) :
    Alike AnyFault FoundWidens (markup ('?' :: rest)) (markup ('?' :: widen rest)) := by
  have inside : contentUntil? closesInstruction [] ('?' :: widen rest) =
      (contentUntil? closesInstruction [] ('?' :: rest)).map widen :=
    contentUntil?_widen [] (fun front _ => isPrefixOf_reverse_widen (by decide) front) ('?' :: rest)
  change Alike _ _ _ (otherMarkup _ _ (contentUntil? closesInstruction [] ('?' :: widen rest)))
  rw [inside]
  apply otherMarkup_widen .instruction
  intro content found
  rw [contentUntil?_cons (by decide)] at found
  obtain ⟨more, _, rfl⟩ := Option.map_eq_some_iff.mp found
  have wider := length_le_length_widen more
  by_cases empty : more = []
  · rw [empty]
    rfl
  · have nonempty : 0 < more.length := List.length_pos_iff.mpr empty
    rw [widen_cons (by decide), List.length_cons, List.length_cons]
    rw [decide_eq_true (by omega), decide_eq_true (by omega)]

theorem markup_declaration {c : Char} (no_comment : c ≠ '-') (no_data : c ≠ '[') (rest : List Char) :
    markup ('!' :: c :: rest) =
      if c = 'D' ∨ c = 'd' then documentType ('!' :: c :: rest) else .error (0, .unknownMarkup) := by
  rw [markup]
  · exact no_comment
  · exact no_data

/-- The same markup stands at corresponding places, with its line feeds widened. -/
theorem markup_widen (text : List Char) : Alike AnyFault FoundWidens (markup text) (markup (widen text)) := by
  by_cases declaration : text.head? = some '!'
  · obtain ⟨rest, rfl⟩ := List.head?_eq_some_iff.mp declaration
    rw [widen_cons (by decide)]
    induction rest using induction_on_feeds with
    | nil => exact .error trivial
    | feed rest _ => exact .error trivial
    | other c rest different _ =>
      rw [widen_cons different]
      by_cases dash : c = '-'
      · rw [dash]
        exact comment_widen rest
      by_cases bracket : c = '['
      · rw [bracket]
        exact characterData_widen rest
      rw [markup_declaration dash bracket, markup_declaration dash bracket]
      split_ifs
      · have laid : '!' :: c :: widen rest = widen ('!' :: c :: rest) := by simp [different]
        rw [laid]
        exact documentType_widen _
      · exact .error trivial
  by_cases instruction : text.head? = some '?'
  · obtain ⟨rest, rfl⟩ := List.head?_eq_some_iff.mp instruction
    rw [widen_cons (by decide)]
    exact instruction_widen rest
  · have no_declaration := mt (head?_widen (by decide : '!' ≠ '\r' ∧ '!' ≠ '\n') text).mp declaration
    have no_instruction := mt (head?_widen (by decide : '?' ≠ '\r' ∧ '?' ≠ '\n') text).mp instruction
    rw [markup_of_tag declaration instruction, markup_of_tag no_declaration no_instruction]
    exact tag_widen text

/-! ## Open elements -/

private theorem feed_not_mem_tagName (content : List Char) : '\n' ∉ tagName content := by
  intro member
  have visible := List.mem_takeWhile_imp member
  revert visible
  decide

/-- The names of open elements come from tags and have no line feeds. -/
theorem feed_not_mem_of_openAfter {names opened : List (List Char)} (unbroken : ∀ name ∈ names, '\n' ∉ name)
    {event : Event} (held : openAfter names event = .ok opened) : ∀ name ∈ opened, '\n' ∉ name := by
  cases event with
  | startTag content =>
    cases held
    exact List.forall_mem_cons.mpr ⟨feed_not_mem_tagName content, unbroken⟩
  | endTag name =>
    simp only [openAfter] at held
    split at held
    · cases held
    · split_ifs at held
      cases held
      exact (List.forall_mem_cons.mp unbroken).2
  | emptyTag | text | other =>
    cases held
    exact unbroken

/-- An end tag closes the same element in both texts: its name has no line breaks, or it closes none. -/
theorem openAfter_widen {names : List (List Char)} (unbroken : ∀ name ∈ names, '\n' ∉ name) (event : Event) :
    Alike AnyFault Eq (openAfter names event) (openAfter names event.widen) := by
  cases event with
  | startTag content =>
    simp only [Event.widen, openAfter, tagName_widen]
    exact .ok rfl
  | endTag name =>
    cases names with
    | nil => exact .error trivial
    | cons expected outer =>
      have same : expected = widen name ↔ expected = name := by
        have plain : '\n' ∉ expected := unbroken expected List.mem_cons_self
        constructor
        · intro closes
          rwa [widen_of_not_mem (mt feed_mem_widen.mpr (closes ▸ plain))] at closes
        · intro closes
          rw [← closes, widen_of_not_mem plain]
      simp only [Event.widen, openAfter, same]
      split_ifs
      · exact .ok rfl
      · exact .error trivial
  | emptyTag | text | other => exact .ok rfl

/-! ## Elements -/

/-- The same fault, where byte positions do not matter. -/
inductive SameFault : DocumentFault → DocumentFault → Prop
  | malformed {position position' : Nat} {fault fault' : Fault} :
      SameFault (.malformed position fault) (.malformed position' fault')
  | misshapen (line : Nat) (fault : ShapeFault) : SameFault (.misshapen line fault) (.misshapen line fault)

/-- The same element, but for line breaks in its values. -/
structure ElementWidens (element element' : Element) : Prop where
  line : element'.line = element.line
  values : List.Forall₂ (fun value value' => Widens value.toList value'.toList) element.values element'.values

private theorem readElement_widen (line : Nat) (content : List Char) :
    Alike SameFault ElementWidens (readElement line content) (readElement line (widen content)) := by
  rw [readElement, readElement]
  rcases (attributeValues_widen content).split with ⟨_, _, broken, broken', _⟩ | ⟨_, _, read, read', related⟩
  · rw [broken, broken']
    exact .error .malformed
  · rw [read, read']
    refine .ok ⟨rfl, ?_⟩
    simpa using related

/-- The same elements are found with either kind of line breaks, or none for the same reason. -/
abbrev SameElements : Except DocumentFault (List Element) → Except DocumentFault (List Element) → Prop :=
  Alike SameFault (List.Forall₂ ElementWidens)

/-- A step finds the same elements and makes the same progress. -/
def StepWidens : List Element × Progress → List Element × Progress → Prop
  | (found, next), (found', next') => List.Forall₂ ElementWidens found found' ∧ next' = next

section Step

variable {lines lines' : LineTable} {position position' : Nat}

private theorem enter_widen (line : lines'.lineOf position' = lines.lineOf position) (progress : Progress)
    (content : List Char) (depth : Nat) :
    Alike SameFault StepWidens (progress.enter lines position content depth)
      (progress.enter lines' position' (widen content) depth) := by
  rw [Progress.enter, Progress.enter, line]
  split_ifs
  · exact .error (.misshapen _ _)
  · rcases (readElement_widen (lines.lineOf position) content).split with
      ⟨_, _, broken, broken', same⟩ | ⟨_, _, read, read', related⟩
    · rw [broken, broken']
      exact .error same
    · rw [read, read']
      exact .ok ⟨.cons related .nil, rfl⟩

/-- An event does the same in both texts if it is on the same line. -/
theorem pass_widen (line : lines'.lineOf position' = lines.lineOf position) (progress : Progress) (event : Event) :
    Alike SameFault StepWidens (progress.pass lines position event)
      (progress.pass lines' position' event.widen) := by
  cases event with
  | startTag content => exact enter_widen line progress content _
  | emptyTag content => exact enter_widen line progress content _
  | endTag name => exact .ok ⟨.nil, rfl⟩
  | text content =>
    simp only [Event.widen, Progress.pass, all_widen isOuterBlank rfl, line]
    split_ifs
    · exact .error (.misshapen _ _)
    · exact .ok ⟨.nil, rfl⟩
  | other => exact .ok ⟨.nil, rfl⟩

/-- Behind the same event on the same line the two lists of elements go on alike. -/
theorem elementsOf_event_widen (line : lines'.lineOf position' = lines.lineOf position) (progress : Progress)
    (event : Event) {rest rest' : Row}
    (later : ∀ next : Progress,
      SameElements (elementsOf lines next.depth next.rooted rest) (elementsOf lines' next.depth next.rooted rest')) :
    SameElements (elementsOf lines progress.depth progress.rooted (.event position event rest))
      (elementsOf lines' progress.depth progress.rooted (.event position' event.widen rest')) := by
  rw [elementsOf_event, elementsOf_event]
  rcases (pass_widen line progress event).split with
    ⟨_, _, broken, broken', same⟩ | ⟨⟨found, next⟩, ⟨found', _⟩, passed, passed', related, rfl⟩
  · rw [broken, broken']
    exact .error same
  · rw [passed, passed']
    exact (later _).map fun _ _ behind => List.rel_append related behind

end Step

/-! ## From one place to the next -/

/-- From corresponding places on, the same elements are found. What was read is kept beside the rest, since the tables
of lines are those of the whole texts. -/
def AgreeFrom (whole front text : List Char) : Prop :=
  ∀ (progress : Progress) (names : List (List Char)), (∀ name ∈ names, '\n' ∉ name) →
    SameElements (elementsFrom (.ofText whole) progress names (byteLength front) text)
      (elementsFrom (.ofText (widen whole)) progress names (byteLength (widen front)) (widen text))

private theorem lineOf_widen (front rest : List Char) :
    (LineTable.ofText (widen (front ++ rest))).lineOf (byteLength (widen front)) =
      (LineTable.ofText (front ++ rest)).lineOf (byteLength front) := by
  rw [widen_append, LineTable.lineOf_ofText_append, LineTable.lineOf_ofText_append, count_widen]

private theorem agreeFrom_nil (whole front : List Char) : AgreeFrom whole front [] := by
  intro progress names _
  rw [widen_nil, elementsFrom, elementsFrom, readFrom, readFrom]
  simp only [elementsOf, LineTable.lineCount_ofText, count_widen]
  split_ifs
  · exact .error (.misshapen _ _)
  · exact .ok .nil
  · exact .error (.misshapen _ _)

private theorem agreeFrom_fault (whole front : List Char) {rest : List Char} {place : Nat × Fault}
    (broken : markup rest = .error place) : AgreeFrom whole front ('<' :: rest) := by
  intro progress names _
  rcases (markup_widen rest).split with ⟨_, _, _, broken', _⟩ | ⟨_, _, found, _, _⟩
  · rw [widen_cons (by decide), elementsFrom, elementsFrom, readFrom_of_fault _ _ broken, readFrom_of_fault _ _ broken']
    exact .error .malformed
  · rw [broken] at found
    cases found

private theorem agreeFrom_markup {front content behind : List Char} {event : Event}
    (found : markup (content ++ '>' :: behind) = .ok (content, event))
    (later : AgreeFrom (front ++ '<' :: (content ++ '>' :: behind)) (front ++ '<' :: (content ++ ['>'])) behind) :
    AgreeFrom (front ++ '<' :: (content ++ '>' :: behind)) front ('<' :: (content ++ '>' :: behind)) := by
  intro progress names unbroken
  have laid : widen ('<' :: (content ++ '>' :: behind)) = '<' :: (widen content ++ '>' :: widen behind) := by simp
  have found' : markup (widen content ++ '>' :: widen behind) = .ok (widen content, event.widen) := by
    rcases (markup_widen (content ++ '>' :: behind)).split with ⟨_, _, broken, _, _⟩ | ⟨_, _, same, wide, rfl⟩
    · rw [found] at broken
      cases broken
    · rw [found] at same
      cases same
      simpa using wide
  have line := lineOf_widen front ('<' :: (content ++ '>' :: behind))
  rw [elementsFrom, elementsFrom, laid, readFrom_markup _ _ found, readFrom_markup _ _ found']
  rcases (openAfter_widen unbroken event).split with ⟨_, _, stray, stray', _⟩ | ⟨opened, _, held, held', rfl⟩
  · rw [stray, stray']
    exact .error .malformed
  · rw [held, held']
    apply elementsOf_event_widen line
    intro next
    have further := later next opened (feed_not_mem_of_openAfter unbroken held)
    have place : byteLength (widen (front ++ '<' :: (content ++ ['>']))) =
        byteLength (widen front) + byteLength (widen content) + 2 := by
      rw [widen_append, byteLength_append, widen_cons (by decide), widen_concat (by decide), byteLength_markup,
        Nat.add_assoc]
    rw [place, byteLength_append, byteLength_markup, ← Nat.add_assoc] at further
    exact further

private theorem agreeFrom_text {front : List Char} {c : Char} (other : c ≠ '<') {rest : List Char}
    (later : AgreeFrom (front ++ c :: rest) (front ++ (c :: rest).takeWhile (· ≠ '<'))
      ((c :: rest).dropWhile (· ≠ '<'))) :
    AgreeFrom (front ++ c :: rest) front (c :: rest) := by
  intro progress names unbroken
  obtain ⟨first, others, wide, other'⟩ : ∃ first others, widen (c :: rest) = first :: others ∧ first ≠ '<' := by
    by_cases feed : c = '\n'
    · exact ⟨'\r', '\n' :: widen rest, by rw [feed, widen_feed], by decide⟩
    · exact ⟨c, widen rest, widen_cons feed rest, other⟩
  have event : Event.text ((widen (c :: rest)).takeWhile (· ≠ '<')) =
      (Event.text ((c :: rest).takeWhile (· ≠ '<'))).widen := by
    rw [takeWhile_widen (· ≠ '<') rfl, Event.widen]
  have line := lineOf_widen front (c :: rest)
  rw [elementsFrom, elementsFrom, readFrom_text _ _ other, wide, readFrom_text _ _ other', ← wide, event]
  apply elementsOf_event_widen line
  intro next
  have further := later next names unbroken
  have place : byteLength (widen (front ++ (c :: rest).takeWhile (· ≠ '<'))) =
      byteLength (widen front) + byteLength ((widen (c :: rest)).takeWhile (· ≠ '<')) := by
    rw [widen_append, byteLength_append, takeWhile_widen (· ≠ '<') rfl]
  rw [place, byteLength_append, ← dropWhile_widen (· ≠ '<') rfl] at further
  exact further

/-- The induction is on the length of the rest, which every event shortens. -/
theorem agreeFrom (front text : List Char) : AgreeFrom (front ++ text) front text := by
  induction length : text.length using Nat.strong_induction_on generalizing front text with
  | _ n ih =>
    cases text with
    | nil => exact agreeFrom_nil _ front
    | cons c rest =>
      by_cases opening : c = '<'
      · subst opening
        cases found : markup rest with
        | error place => exact agreeFrom_fault _ front found
        | ok stands =>
          obtain ⟨content, event⟩ := stands
          obtain ⟨behind, rfl⟩ := exists_of_markup found
          apply agreeFrom_markup found
          have shorter : behind.length < n := by
            rw [← length]
            simp only [List.length_cons, List.length_append]
            omega
          have further := ih behind.length shorter (front ++ '<' :: (content ++ ['>'])) behind rfl
          rwa [List.append_assoc, List.cons_append, List.append_assoc, List.singleton_append] at further
      · apply agreeFrom_text opening
        have shorter : ((c :: rest).dropWhile (· ≠ '<')).length < n := by
          have dropped : (c :: rest).dropWhile (· ≠ '<') = rest.dropWhile (· ≠ '<') :=
            List.dropWhile_cons_of_pos (by simpa using opening)
          have bounded := (List.dropWhile_sublist (· ≠ '<') (l := rest)).length_le
          rw [dropped, ← length, List.length_cons]
          omega
        have further := ih _ shorter (front ++ (c :: rest).takeWhile (· ≠ '<')) _ rfl
        rwa [List.append_assoc, List.takeWhile_append_dropWhile] at further

/-! ## Documents -/

private theorem dropByteOrderMark_widen (text : List Char) :
    dropByteOrderMark (widen text) = widen (dropByteOrderMark text) := by
  induction text using induction_on_feeds with
  | nil => rfl
  | feed text _ => rfl
  | other c text different _ =>
    rw [widen_cons different, dropByteOrderMark, dropByteOrderMark]
    split_ifs
    · rfl
    · rw [widen_cons different]

private theorem dropByteOrderMark_twice {text : List Char} (single : ¬ [byteOrderMark, byteOrderMark] <+: text) :
    dropByteOrderMark (dropByteOrderMark text) = dropByteOrderMark text := by
  rcases text with _ | ⟨c, _ | ⟨d, rest⟩⟩
  · rfl
  · by_cases marked : c = byteOrderMark <;> simp [dropByteOrderMark, marked]
  · by_cases marked : c = byteOrderMark
    · have unmarked : d ≠ byteOrderMark := by
        rintro rfl
        exact single ⟨rest, by rw [marked]; rfl⟩
      simp [dropByteOrderMark, marked, unmarked]
    · simp [dropByteOrderMark, marked]

/-- A document has the same elements with either kind of line breaks, or it is none for the same reason. With two
byte-order marks in front the reader would count lines by other places than the table. -/
theorem elements_widen {source : String} (single : ¬ [byteOrderMark, byteOrderMark] <+: source.toList) :
    SameElements (elements source) (elements (String.ofList (widen source.toList))) := by
  have once := dropByteOrderMark_twice single
  simp only [elements, read, String.toList_ofList, dropByteOrderMark_widen, once]
  exact agreeFrom [] (dropByteOrderMark source.toList) .start [] (List.forall_mem_nil _)

end TextHarvest.Xml
