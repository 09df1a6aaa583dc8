import TextHarvest.Proofs.Text.Lines
import TextHarvest.Proofs.Xml.LineBreaks.Documents

/-! # The first fault stands whatever follows

Some faults come from the end of a text: markup that is not closed, an element that stays open, a root that is missing.
All others last: `elements_append_of_isLasting` says that a text which goes on behind such a fault is refused for it,
with the same place and the same cause.

The reader looks at a text from its front, so what it has found does not change when the text goes on (`markup_append`);
only text between tags may grow, and then what is visible in it stays visible (`lastsFrom_tail`). Lines are counted by
the line feeds before a place and do not change either (`lineOf_append`).
-/

namespace TextHarvest.Xml

open Text

/-- The faults that more text cannot mend: all but markup that is not closed, or not recognised so far. -/
def Fault.IsLasting : Fault → Bool
  | .unclosed _ => false
  | .unknownMarkup => false
  | .namelessDocumentType => true
  | .wrongEnd _ _ => true
  | .strayEnd _ => true
  | .badAttribute _ => true
  | .badValue _ => true

/-- The faults of a document that more text cannot mend: all but those that its end shows. -/
def DocumentFault.IsLasting : DocumentFault → Bool
  | .malformed _ fault => fault.IsLasting
  | .misshapen _ .textOutsideRoot => true
  | .misshapen _ .severalRoots => true
  | .misshapen _ .unclosedElement => false
  | .misshapen _ .noRoot => false

/-! ## Markup -/

private theorem tagContent?_of_append {quote : Option Char} {text content : List Char}
    (found : tagContent? quote text = some content) (more : List Char) :
    tagContent? quote (text ++ more) = some content := by
  induction text generalizing quote content with
  | nil => simp [tagContent?] at found
  | cons c text ih =>
    cases quote with
    | some quote =>
      obtain ⟨inner, read, rfl⟩ := Option.map_eq_some_iff.mp found
      rw [List.cons_append, tagContent?, ih read, Option.map_some]
    | none =>
      rw [tagContent?] at found
      rw [List.cons_append, tagContent?]
      by_cases closing : c = '>'
      · rwa [if_pos closing] at found ⊢
      · rw [if_neg closing] at found ⊢
        obtain ⟨inner, read, rfl⟩ := Option.map_eq_some_iff.mp found
        rw [ih read, Option.map_some]

private theorem contentUntil?_of_append {closes : List Char → Bool} {before text content : List Char}
    (found : contentUntil? closes before text = some content) (more : List Char) :
    contentUntil? closes before (text ++ more) = some content := by
  induction text generalizing before content with
  | nil => simp [contentUntil?] at found
  | cons c text ih =>
    rw [contentUntil?] at found
    rw [List.cons_append, contentUntil?]
    by_cases closing : c = '>' ∧ closes before = true
    · rwa [if_pos closing] at found ⊢
    · rw [if_neg closing] at found ⊢
      obtain ⟨inner, read, rfl⟩ := Option.map_eq_some_iff.mp found
      rw [ih read, Option.map_some]

private theorem balancedContent?_of_append {depth : Nat} {text content : List Char}
    (found : balancedContent? depth text = some content) (more : List Char) :
    balancedContent? depth (text ++ more) = some content := by
  induction text generalizing depth content with
  | nil => simp [balancedContent?] at found
  | cons c text ih =>
    rw [balancedContent?] at found
    rw [List.cons_append, balancedContent?]
    by_cases closing : c = '>' ∧ depth = 0
    · rwa [if_pos closing] at found ⊢
    · rw [if_neg closing] at found ⊢
      obtain ⟨inner, read, rfl⟩ := Option.map_eq_some_iff.mp found
      dsimp only
      rw [ih read, Option.map_some]

/-- What stands at a bracket is settled: it is markup, or the fault is a lasting one. -/
def Settled (found : Found) : Prop :=
  ∀ offset fault, found = .error (offset, fault) → fault.IsLasting = true

private theorem otherMarkup_of_settled {kind : Markup} {opening : List Char → Bool} {inside longer : Option (List Char)}
    (settled : Settled (otherMarkup kind opening inside))
    (kept : ∀ content, inside = some content → longer = some content) :
    otherMarkup kind opening longer = otherMarkup kind opening inside := by
  cases inside with
  | none => cases settled 0 (.unclosed kind) rfl
  | some content => rw [kept content rfl]

private theorem documentType_append {text : List Char} (settled : Settled (documentType text)) (more : List Char) :
    documentType (text ++ more) = documentType text := by
  unfold documentType at settled ⊢
  cases found : balancedContent? 0 text with
  | none =>
    rw [found] at settled
    cases settled 0 (.unclosed .documentType) rfl
  | some content => rw [balancedContent?_of_append found more]

private theorem tag_append {text : List Char} (settled : Settled (tag text)) (more : List Char) :
    tag (text ++ more) = tag text := by
  unfold tag at settled ⊢
  cases found : tagContent? none text with
  | none =>
    rw [found] at settled
    cases settled 0 (.unclosed .tag) rfl
  | some content => rw [tagContent?_of_append found more]

/-- The first two characters tell which markup it is, and its end is found before the text goes on. -/
theorem markup_append {text : List Char} (settled : Settled (markup text)) (more : List Char) :
    markup (text ++ more) = markup text := by
  by_cases declaration : text.head? = some '!'
  · obtain ⟨rest, rfl⟩ := List.head?_eq_some_iff.mp declaration
    cases rest with
    | nil => cases settled 0 .unknownMarkup rfl
    | cons c rest =>
      by_cases dash : c = '-'
      · subst dash
        exact otherMarkup_of_settled settled fun _ found => contentUntil?_of_append found more
      by_cases bracket : c = '['
      · subst bracket
        exact otherMarkup_of_settled settled fun _ found => contentUntil?_of_append found more
      rw [markup_declaration dash bracket] at settled ⊢
      rw [List.cons_append, List.cons_append, markup_declaration dash bracket]
      split_ifs at settled ⊢ with keyword
      · exact documentType_append settled more
      · rfl
  by_cases instruction : text.head? = some '?'
  · obtain ⟨rest, rfl⟩ := List.head?_eq_some_iff.mp instruction
    exact otherMarkup_of_settled settled fun _ found => contentUntil?_of_append found more
  cases text with
  | nil => cases settled 0 (.unclosed .tag) rfl
  | cons c rest =>
    rw [markup_of_tag declaration instruction] at settled ⊢
    have goes_on : markup (c :: rest ++ more) = tag (c :: rest ++ more) := markup_of_tag declaration instruction
    rw [goes_on]
    exact tag_append settled more

private theorem markup_append_of_ok {text content : List Char} {event : Event}
    (found : markup text = .ok (content, event)) (more : List Char) : markup (text ++ more) = .ok (content, event) := by
  rw [← found]
  apply markup_append
  intro offset fault broken
  rw [found] at broken
  cases broken

/-! ## Events -/

private theorem map_eq_error_iff {result : Except DocumentFault (List Element)} {grow : List Element → List Element}
    {fault : DocumentFault} : result.map grow = .error fault ↔ result = .error fault := by
  cases result <;> simp [Except.map]

/-- A row fails at its first event, or behind it. -/
theorem elementsOf_event_eq_error_iff {lines : LineTable} {progress : Progress} {position : Nat} {event : Event}
    {rest : Row} {fault : DocumentFault} :
    elementsOf lines progress.depth progress.rooted (.event position event rest) = .error fault ↔
      progress.pass lines position event = .error fault ∨
        ∃ found next, progress.pass lines position event = .ok (found, next) ∧
          elementsOf lines next.depth next.rooted rest = .error fault := by
  rw [elementsOf_event]
  cases progress.pass lines position event with
  | error own => simp
  | ok passed =>
    obtain ⟨found, next⟩ := passed
    simp [map_eq_error_iff]

variable {lines longer : LineTable}

private theorem pass_congr {position : Nat} (line : longer.lineOf position = lines.lineOf position)
    (progress : Progress) (event : Event) :
    progress.pass longer position event = progress.pass lines position event := by
  cases event with
  | startTag content => simp only [Progress.pass, Progress.enter, line]
  | emptyTag content => simp only [Progress.pass, Progress.enter, line]
  | endTag name => rfl
  | text content => simp only [Progress.pass, line]
  | other => rfl

/-- A fault that lasts behind an event lasts before it. -/
theorem elementsOf_event_lasts {position : Nat} (line : longer.lineOf position = lines.lineOf position)
    {progress : Progress} {event : Event} {rest row : Row} {fault : DocumentFault}
    (later : ∀ next : Progress, elementsOf lines next.depth next.rooted rest = .error fault →
      elementsOf longer next.depth next.rooted row = .error fault)
    (failed : elementsOf lines progress.depth progress.rooted (.event position event rest) = .error fault) :
    elementsOf longer progress.depth progress.rooted (.event position event row) = .error fault := by
  rw [elementsOf_event_eq_error_iff, pass_congr line]
  rcases elementsOf_event_eq_error_iff.mp failed with here | ⟨found, next, passed, behind⟩
  · exact .inl here
  · exact .inr ⟨found, next, passed, later next behind⟩

/-- What is missing at the end of a row is no lasting fault. -/
theorem isLasting_of_finished {depth : Nat} {rooted : Bool} {fault : DocumentFault}
    (failed : elementsOf lines depth rooted .finished = .error fault) : fault.IsLasting = false := by
  unfold elementsOf at failed
  split_ifs at failed
  · cases failed
    rfl
  · cases failed
    rfl

/-! ## Whole texts -/

/-- A lasting fault that is found from some place of a text on is also found if the text goes on with `more`. The two
tables agree up to `limit`, which is not before the end of the text. -/
def LastsFrom (lines longer : LineTable) (limit : Nat) (more text : List Char) : Prop :=
  ∀ (progress : Progress) (names : List (List Char)) (position : Nat) (fault : DocumentFault),
    position + byteLength text ≤ limit → fault.IsLasting = true →
    elementsFrom lines progress names position text = .error fault →
    elementsFrom longer progress names position (text ++ more) = .error fault

variable {limit : Nat}

private theorem lastsFrom_nil (more : List Char) : LastsFrom lines longer limit more [] := by
  intro progress names position fault _ lasting failed
  rw [elementsFrom, readFrom] at failed
  rw [isLasting_of_finished failed] at lasting
  cases lasting

private theorem lastsFrom_fault {rest : List Char} {offset : Nat} {cause : Fault}
    (broken : markup rest = .error (offset, cause)) (more : List Char) :
    LastsFrom lines longer limit more ('<' :: rest) := by
  intro progress names position fault _ lasting failed
  rw [elementsFrom, readFrom_of_fault _ _ broken] at failed
  cases failed
  have settled : Settled (markup rest) := by
    intro place own same
    rw [broken] at same
    cases same
    exact lasting
  rw [elementsFrom, List.cons_append, readFrom_of_fault _ _ ((markup_append settled more).trans broken)]
  rfl

section

variable (same : ∀ offset ≤ limit, longer.lineOf offset = lines.lineOf offset)

include same

private theorem lastsFrom_markup {content behind : List Char} {event : Event}
    (found : markup (content ++ '>' :: behind) = .ok (content, event)) {more : List Char}
    (later : LastsFrom lines longer limit more behind) :
    LastsFrom lines longer limit more ('<' :: (content ++ '>' :: behind)) := by
  intro progress names position fault within lasting failed
  have laid : '<' :: (content ++ '>' :: behind) ++ more = '<' :: (content ++ '>' :: (behind ++ more)) := by simp
  have found' : markup (content ++ '>' :: (behind ++ more)) = .ok (content, event) := by
    have goes_on := markup_append_of_ok found more
    rwa [List.append_assoc, List.cons_append] at goes_on
  have room : byteLength ('<' :: (content ++ '>' :: behind)) = byteLength content + 2 + byteLength behind := by
    have split : '<' :: (content ++ '>' :: behind) = '<' :: (content ++ ['>']) ++ behind := by simp
    rw [split, byteLength_append, byteLength_markup]
  rw [elementsFrom, readFrom_markup _ _ found] at failed
  rw [elementsFrom, laid, readFrom_markup _ _ found']
  cases held : openAfter names event with
  | error stray => rwa [held] at failed
  | ok opened =>
    rw [held] at failed
    refine elementsOf_event_lasts (same position (by omega)) ?_ failed
    intro next behindFails
    exact later next opened _ fault (by omega) lasting behindFails

/-- Text that ends at a tag is not changed by what follows the tag. -/
theorem lastsFrom_text {c : Char} (other : c ≠ '<') {rest : List Char}
    (ends : (c :: rest).dropWhile (· ≠ '<') ≠ []) {more : List Char}
    (later : LastsFrom lines longer limit more ((c :: rest).dropWhile (· ≠ '<'))) :
    LastsFrom lines longer limit more (c :: rest) := by
  intro progress names position fault within lasting failed
  have parts := congrArg byteLength (List.takeWhile_append_dropWhile (p := (· ≠ '<')) (l := c :: rest))
  rw [byteLength_append] at parts
  have short : ((c :: rest).takeWhile (· ≠ '<')).length ≠ (c :: rest).length := by
    intro whole
    have lengths := congrArg List.length (List.takeWhile_append_dropWhile (p := (· ≠ '<')) (l := c :: rest))
    rw [List.length_append, whole] at lengths
    exact ends (List.length_eq_zero_iff.mp (by omega))
  have content : (c :: rest ++ more).takeWhile (· ≠ '<') = (c :: rest).takeWhile (· ≠ '<') := by
    rw [List.takeWhile_append, if_neg short]
  have behind : (c :: rest ++ more).dropWhile (· ≠ '<') = (c :: rest).dropWhile (· ≠ '<') ++ more := by
    rw [List.dropWhile_append, if_neg (by simpa using ends)]
  have read : readFrom names position (c :: rest ++ more) = _ := readFrom_text names position other (rest ++ more)
  rw [elementsFrom, readFrom_text _ _ other] at failed
  rw [elementsFrom, read, ← List.cons_append, content, behind]
  refine elementsOf_event_lasts (same position (by omega)) ?_ failed
  intro next behindFails
  exact later next names _ fault (by omega) lasting behindFails

/-- Text that goes up to the end grows. What was visible in it is still there, and it begins on the same line. -/
theorem lastsFrom_tail {c : Char} (other : c ≠ '<') {rest : List Char}
    (ends : (c :: rest).dropWhile (· ≠ '<') = []) (more : List Char) :
    LastsFrom lines longer limit more (c :: rest) := by
  intro progress names position fault within lasting failed
  have whole : (c :: rest).takeWhile (· ≠ '<') = c :: rest := by
    have parts := List.takeWhile_append_dropWhile (p := (· ≠ '<')) (l := c :: rest)
    rwa [ends, List.append_nil] at parts
  have content : (c :: rest ++ more).takeWhile (· ≠ '<') = c :: rest ++ more.takeWhile (· ≠ '<') := by
    rw [List.takeWhile_append, if_pos (by rw [whole])]
  have read : readFrom names position (c :: rest ++ more) = _ := readFrom_text names position other (rest ++ more)
  rw [elementsFrom, readFrom_text _ _ other, whole, ends, readFrom] at failed
  rw [elementsFrom, read, ← List.cons_append, content]
  rcases elementsOf_event_eq_error_iff.mp failed with here | ⟨_, next, _, missing⟩
  · rw [elementsOf_event_eq_error_iff]
    refine .inl ?_
    rw [pass_congr (same position (by omega))]
    simp only [Progress.pass] at here ⊢
    split_ifs at here with visible
    rw [if_pos ?_, here]
    refine ⟨visible.1, ?_⟩
    rw [List.all_append, Bool.and_eq_true]
    exact fun blank => visible.2 blank.1
  · rw [isLasting_of_finished missing] at lasting
    cases lasting

/-- The induction is on the length of the rest, which every event shortens. -/
theorem lastsFrom (more text : List Char) : LastsFrom lines longer limit more text := by
  induction length : text.length using Nat.strong_induction_on generalizing text with
  | _ n ih =>
    cases text with
    | nil => exact lastsFrom_nil more
    | cons c rest =>
      by_cases opening : c = '<'
      · subst opening
        cases found : markup rest with
        | error place => exact lastsFrom_fault found more
        | ok stands =>
          obtain ⟨content, event⟩ := stands
          obtain ⟨behind, rfl⟩ := exists_of_markup found
          apply lastsFrom_markup same found
          apply ih behind.length ?_ behind rfl
          simp only [List.length_cons, List.length_append] at length
          omega
      · by_cases ends : (c :: rest).dropWhile (· ≠ '<') = []
        · exact lastsFrom_tail same opening ends more
        · apply lastsFrom_text same opening ends
          apply ih _ ?_ _ rfl
          have dropped : (c :: rest).dropWhile (· ≠ '<') = rest.dropWhile (· ≠ '<') :=
            List.dropWhile_cons_of_pos (by simpa using opening)
          have bounded := (List.dropWhile_sublist (· ≠ '<') (l := rest)).length_le
          rw [List.length_cons] at length
          rw [dropped]
          omega

end

/-! ## Documents -/

/-- What follows a text does not move the lines in it. -/
theorem lineOf_append {text : List Char} {offset : Nat} (inside : offset ≤ byteLength text) (more : List Char) :
    (LineTable.ofText (text ++ more)).lineOf offset = (LineTable.ofText text).lineOf offset := by
  rw [← length_utf8] at inside
  rw [LineTable.lineOf_ofText, LineTable.lineOf_ofText, utf8_append, List.take_append_of_le_length inside]

private theorem dropByteOrderMark_append {text : List Char} (given : text ≠ []) (more : List Char) :
    dropByteOrderMark (text ++ more) = dropByteOrderMark text ++ more := by
  obtain ⟨c, rest, rfl⟩ := List.exists_cons_of_ne_nil given
  rw [List.cons_append, dropByteOrderMark, dropByteOrderMark]
  split_ifs <;> rfl

private theorem byteLength_dropByteOrderMark_le (text : List Char) :
    byteLength (dropByteOrderMark text) ≤ byteLength text := by
  cases text with
  | nil => exact Nat.le_refl 0
  | cons c rest =>
    rw [dropByteOrderMark]
    split_ifs
    · exact Nat.le_add_left ..
    · exact Nat.le_refl _

/-- The first fault of a text is reported whatever follows it, with the same place and the same cause, unless it is one
that only the end of the text shows. -/
theorem elements_append_of_isLasting {source : String} {fault : DocumentFault} (failed : elements source = .error fault)
    (lasting : fault.IsLasting = true) (more : String) : elements (source ++ more) = .error fault := by
  let text := dropByteOrderMark source.toList
  have found : elementsFrom (.ofText text) .start [] 0 (dropByteOrderMark text) = .error fault := failed
  -- Where nothing stands behind the byte-order marks, the root is missing, and this does not last.
  have rest_given : dropByteOrderMark text ≠ [] := by
    intro empty
    rw [empty, elementsFrom, readFrom] at found
    rw [isLasting_of_finished found] at lasting
    cases lasting
  have text_given : text ≠ [] := fun empty => rest_given (by rw [empty]; rfl)
  have source_given : source.toList ≠ [] := fun empty => text_given (congrArg dropByteOrderMark empty)
  have goes_on : dropByteOrderMark (source ++ more).toList = text ++ more.toList := by
    rw [String.toList_append, dropByteOrderMark_append source_given]
  have within : 0 + byteLength (dropByteOrderMark text) ≤ byteLength text := by
    rw [Nat.zero_add]
    exact byteLength_dropByteOrderMark_le text
  have lasts := lastsFrom (fun _ inside => lineOf_append inside more.toList) more.toList (dropByteOrderMark text)
    .start [] 0 fault within lasting found
  rw [elements, read, goes_on, dropByteOrderMark_append text_given]
  exact lasts

/-- Behind two byte-order marks and a declaration with brackets in it, an element has a key twice; a text behind the
root is cut by the end. Both faults stand, also before later faults. -/
theorem elements_append_of_isLasting_twice :
    let twice := "\uFEFF\uFEFF<!DOCTYPE a [<!b '>]>\n<a>\n<!-->--><b x='>' x=''/>"
    let outside := "<a><![CDATA[</b>]]></a >\n \ny"
    elements twice = .error (.malformed 0 (.badAttribute (.duplicate 8 2))) ∧
      elements (twice ++ "</c>") = .error (.malformed 0 (.badAttribute (.duplicate 8 2))) ∧
      elements outside = .error (.misshapen 1 .textOutsideRoot) ∧
      elements (outside ++ "\n<") = .error (.misshapen 1 .textOutsideRoot) := by
  intro twice outside
  have first : elements twice = .error (.malformed 0 (.badAttribute (.duplicate 8 2))) := by decide +kernel
  have second : elements outside = .error (.misshapen 1 .textOutsideRoot) := by decide +kernel
  exact ⟨first, elements_append_of_isLasting first rfl _, second, elements_append_of_isLasting second rfl _⟩

end TextHarvest.Xml
