import TextHarvest.Proofs.Xml.Attributes
import TextHarvest.Proofs.Xml.Spelling
import TextHarvest.Proofs.Xml.Steps
import TextHarvest.Proofs.Xml.Tree

/-! # Written documents

A `WrittenDocument` is a tree of elements together with all that its author chose: the blanks in front of each attribute
and before a closing bracket, the quotes, the spelling of each character of a value, whether an element without content
has an end tag, and the texts, comments and character data between the tags. `WrittenDocument.write` is its text and
`WrittenDocument.elements` what it says.

The parts of a document carry the conditions under which they can be told apart from what stands around them. For each
part there is a lemma that says what the reader makes of it.
-/

namespace TextHarvest.Xml

/-! ## The parts of a document -/

def isNameCharacter (c : Char) : Bool :=
  !isBlank c && !(['<', '>', '/', '=', '"', '\'', '!', '?', '&'].contains c)

structure Name where
  characters : List Char
  nonempty : characters ≠ []
  plain : ∀ c ∈ characters, isNameCharacter c = true

/-- A run of blanks, line breaks included. -/
abbrev Blanks := {text : List Char // ∀ c ∈ text, isBlank c = true}

inductive Quote
  | single
  | double

def Quote.character : Quote → Char
  | .single => '\''
  | .double => '"'

/-- An attribute with the blanks in front of it, the quotes it is in and the spelling of its value. -/
structure WrittenAttribute where
  gap : Blanks
  apart : gap.1 ≠ []
  key : Name
  quote : Quote
  value : List Char
  spelling : List Char
  spells : Spells quote.character value spelling

def WrittenAttribute.write (written : WrittenAttribute) : List Char :=
  written.gap.1 ++ (written.key.characters ++ '=' :: written.quote.character ::
    (written.spelling ++ [written.quote.character]))

/-- A tag with its attributes, and with the blanks before the bracket or the slash that closes it. -/
structure WrittenTag where
  name : Name
  attributes : List WrittenAttribute
  distinct : (attributes.map (·.key.characters)).Nodup
  trailing : Blanks

/-- The text of a tag between its brackets, without the slash of an element without content. -/
def WrittenTag.write (tag : WrittenTag) : List Char :=
  tag.name.characters ++ (tag.attributes.flatMap WrittenAttribute.write ++ tag.trailing.1)

def WrittenTag.values (tag : WrittenTag) : List (List Char) :=
  tag.attributes.map (·.value)

def commentOpening : List Char := ['!', '-', '-']

def characterDataOpening : List Char := ['!', '[', 'C', 'D', 'A', 'T', 'A', '[']

/-- What stands between the tags of a document. -/
inductive WrittenItem
  | text (content : List Char) (no_bracket : '<' ∉ content)
  | characterData (content : List Char) (open_end : ¬ [']', ']', '>'] <:+: content)
  | comment (content : List Char) (open_end : ¬ ['-', '-', '>'] <:+: content)

namespace WrittenItem

def write : WrittenItem → List Char
  | text content _ => content
  | characterData content _ => '<' :: (characterDataOpening ++ (content ++ [']', ']', '>']))
  | comment content _ => '<' :: (commentOpening ++ (content ++ ['-', '-', '>']))

/-- The items that may stand around the root element: blanks and comments. -/
def IsMisc : WrittenItem → Prop
  | text content _ => ∀ c ∈ content, isBlank c = true
  | characterData _ _ => False
  | comment _ _ => True

end WrittenItem

/-- How the parts of an element are written. -/
def textLayout : Layout WrittenTag Blanks WrittenItem Char where
  leaf tag := '<' :: (tag.write ++ ['/', '>'])
  opening tag := '<' :: (tag.write ++ ['>'])
  closing tag blanks := '<' :: '/' :: (tag.name.characters ++ (blanks.1 ++ ['>']))
  item := WrittenItem.write

/-! ## Names -/

private theorem isNameCharacter_of_mem {name : Name} {c : Char} (member : c ∈ name.characters) :
    isBlank c = false ∧ c ≠ '<' ∧ c ≠ '>' ∧ c ≠ '/' ∧ c ≠ '=' ∧ c ≠ '"' ∧ c ≠ '\'' ∧ c ≠ '!' ∧ c ≠ '?' := by
  have plain := name.plain c member
  simp only [isNameCharacter, Bool.and_eq_true, Bool.not_eq_true', List.contains_eq_mem, decide_eq_false_iff_not,
    List.mem_cons, List.not_mem_nil, or_false, not_or] at plain
  tauto

private theorem quote_eq (quote : Quote) : quote.character = '"' ∨ quote.character = '\'' := by
  cases quote
  · exact .inr rfl
  · exact .inl rfl

/-! ## Attributes -/

/-- The values of written attributes are read off them in their order. -/
theorem valuesFrom_write (size : Nat) {attributes : List WrittenAttribute} {tail : List Char}
    (blank : ∀ c ∈ tail, isBlank c = true) (distinct : (attributes.map (·.key.characters)).Nodup) {limit : Nat}
    (enough : attributes.length < limit) {seen : List (List Char × Nat)}
    (fresh : ∀ written ∈ attributes, written.key.characters ∉ seen.map Prod.fst) (offset : Nat) :
    valuesFrom size limit seen offset (attributes.flatMap WrittenAttribute.write ++ tail) =
      .ok (attributes.map (·.value)) := by
  induction attributes generalizing limit seen offset with
  | nil =>
    cases limit with
    | zero => cases enough
    | succ limit =>
      rw [List.flatMap_nil, List.nil_append, valuesFrom, skipBlanks_of_blank blank]
      rfl
  | cons written attributes ih =>
    cases limit with
    | zero => cases enough
    | succ limit =>
      obtain ⟨new, later⟩ := List.forall_mem_cons.mp fresh
      obtain ⟨first, others, key⟩ := List.exists_cons_of_ne_nil written.key.nonempty
      have member {c : Char} (member : c ∈ first :: others) : c ∈ written.key.characters := key ▸ member
      have visible := (isNameCharacter_of_mem (member List.mem_cons_self)).1
      have plain : ∀ c ∈ others, c ≠ '=' ∧ isBlank c = false := by
        intro c present
        have facts := isNameCharacter_of_mem (member (List.mem_cons_of_mem first present))
        tauto
      have quoting := quote_eq written.quote
      have closed := quote_not_mem_of_spells quoting written.spells
      have laid : (written :: attributes).flatMap WrittenAttribute.write ++ tail =
          written.gap.1 ++ first :: (others ++ '=' :: written.quote.character :: (written.spelling ++
            written.quote.character :: (attributes.flatMap WrittenAttribute.write ++ tail))) := by
        simp [WrittenAttribute.write, key]
      rw [List.map_cons, key, List.nodup_cons] at distinct
      have rest (place : Nat) (offset : Nat) : valuesFrom size limit (seen ++ [(first :: others, place)]) offset
          (attributes.flatMap WrittenAttribute.write ++ tail) = .ok (attributes.map (·.value)) := by
        apply ih distinct.2 (by simpa using enough)
        intro other present
        rw [List.map_append, List.mem_append, not_or]
        refine ⟨later other present, ?_⟩
        intro same
        apply distinct.1
        rw [List.mem_map]
        exact ⟨other, present, by simpa using same⟩
      have undeclared : declared? seen (first :: others) = none := declared?_eq_none_iff.mpr (key ▸ new)
      rw [laid, valuesFrom, skipBlanks_append written.gap.2 visible]
      simp only [readKey_append plain, undeclared, readValue_append quoting closed, resolve_of_spells written.spells,
        rest, List.map_cons]

private theorem head_isBlank_of_write {attributes : List WrittenAttribute} {tail : List Char}
    (blank : ∀ c ∈ tail, isBlank c = true) {c : Char}
    (first : (attributes.flatMap WrittenAttribute.write ++ tail).head? = some c) : isBlank c = true := by
  cases attributes with
  | nil => exact blank c (List.mem_of_head? (by simpa using first))
  | cons written attributes =>
    obtain ⟨opening, others, gap⟩ := List.exists_cons_of_ne_nil written.apart
    obtain rfl : opening = c := by simpa [WrittenAttribute.write, gap] using first
    exact written.gap.2 opening (gap ▸ List.mem_cons_self)

/-- The name of a written tag ends where its attributes begin. -/
theorem tagName_write (tag : WrittenTag) : tagName tag.write = tag.name.characters := by
  rw [tagName, WrittenTag.write, List.takeWhile_append_of_pos]
  · cases behind : tag.attributes.flatMap WrittenAttribute.write ++ tag.trailing.1 with
    | nil => simp
    | cons c rest =>
      have blank := head_isBlank_of_write tag.trailing.2 (congrArg List.head? behind)
      rw [List.takeWhile_cons_of_neg (by simp [blank]), List.append_nil]
  · intro c member
    simp [(isNameCharacter_of_mem member).1]

theorem attributeValues_write (tag : WrittenTag) : attributeValues tag.write = .ok tag.values := by
  have enough : tag.attributes.length < tag.write.length := by
    have named := List.length_pos_of_ne_nil tag.name.nonempty
    have each : tag.attributes.length ≤ (tag.attributes.flatMap WrittenAttribute.write).length := by
      induction tag.attributes with
      | nil => exact le_rfl
      | cons written attributes ih =>
        simp only [List.flatMap_cons, List.length_append, List.length_cons, WrittenAttribute.write]
        omega
    simp only [WrittenTag.write, List.length_append]
    omega
  have behind : tag.write.drop tag.name.characters.length =
      tag.attributes.flatMap WrittenAttribute.write ++ tag.trailing.1 := List.drop_left
  simp only [attributeValues, tagName_write, behind]
  exact valuesFrom_write _ tag.trailing.2 tag.distinct enough (by simp) _

/-! ## Tags -/

/-- A piece of a tag outside which no quote is left open: the tag does not end in it. -/
def IsClosed (piece : List Char) : Prop :=
  ∀ rest, tagContent? none (piece ++ rest) = (tagContent? none rest).map (piece ++ ·)

theorem IsClosed.append {first second : List Char} (left : IsClosed first) (right : IsClosed second) :
    IsClosed (first ++ second) := by
  intro rest
  rw [List.append_assoc, left, right, Option.map_map]
  simp [Function.comp_def]

private theorem isClosed_plain {piece : List Char} (plain : ∀ c ∈ piece, c ≠ '>' ∧ c ≠ '"' ∧ c ≠ '\'') :
    IsClosed piece := by
  intro rest
  induction piece with
  | nil => simp
  | cons c piece ih =>
    obtain ⟨⟨bracket, double, single⟩, later⟩ := List.forall_mem_cons.mp plain
    rw [List.cons_append, tagContent?, if_neg bracket, if_neg (by simp [double, single]), ih later, Option.map_map]
    rfl

/-- Between quotes nothing but the same quote is seen. -/
theorem isClosed_quoted {quote : Char} (quoting : quote = '"' ∨ quote = '\'') {inside : List Char}
    (closed : quote ∉ inside) : IsClosed (quote :: (inside ++ [quote])) := by
  intro rest
  have bracket : quote ≠ '>' := by
    rcases quoting with rfl | rfl <;> decide
  have to_quote : tagContent? (some quote) (inside ++ quote :: rest) =
      (tagContent? none rest).map (inside ++ quote :: ·) := by
    clear bracket
    induction inside with
    | nil => simp [tagContent?]
    | cons c inside ih =>
      rw [List.mem_cons, not_or] at closed
      rw [List.cons_append, tagContent?, if_neg (Ne.symm closed.1), ih closed.2, Option.map_map]
      rfl
  rw [List.cons_append, List.append_assoc, List.singleton_append, tagContent?, if_neg bracket, if_pos quoting, to_quote,
    Option.map_map]
  simp [Function.comp_def]

private theorem isClosed_blanks (blanks : Blanks) : IsClosed blanks.1 := by
  apply isClosed_plain
  intro c member
  have blank := blanks.2 c member
  refine ⟨?_, ?_, ?_⟩ <;> rintro rfl <;> exact absurd blank (by decide)

private theorem isClosed_name (name : Name) : IsClosed name.characters := by
  apply isClosed_plain
  intro c member
  have facts := isNameCharacter_of_mem member
  tauto

private theorem isClosed_attribute (written : WrittenAttribute) : IsClosed written.write := by
  have quoting := quote_eq written.quote
  have value := isClosed_quoted quoting (quote_not_mem_of_spells quoting written.spells)
  have equals : IsClosed ['='] := isClosed_plain (by simp)
  exact (isClosed_blanks written.gap).append ((isClosed_name written.key).append (equals.append value))

private theorem isClosed_write (tag : WrittenTag) : IsClosed tag.write := by
  have attributes : IsClosed (tag.attributes.flatMap WrittenAttribute.write) := by
    induction tag.attributes with
    | nil => exact isClosed_plain (by simp)
    | cons written attributes ih => exact (isClosed_attribute written).append ih
  exact (isClosed_name tag.name).append (attributes.append (isClosed_blanks tag.trailing))

private theorem getLast?_attributes {attributes : List WrittenAttribute} {c : Char}
    (last : (attributes.flatMap WrittenAttribute.write).getLast? = some c) : c = '"' ∨ c = '\'' := by
  rcases List.eq_nil_or_concat attributes with rfl | ⟨others, written, rfl⟩
  · cases last
  · have quote : written.quote.character = c := by
      simpa [WrittenAttribute.write, List.getLast?_append, List.getLast?_cons] using last
    exact quote ▸ quote_eq written.quote

/-- A written tag ends in a blank, a quote or a character of its name, never in a slash. -/
theorem getLast?_write (tag : WrittenTag) : tag.write.getLast? ≠ some '/' := by
  intro last
  rw [WrittenTag.write, List.getLast?_append, List.getLast?_append, Option.or_eq_some_iff,
    Option.or_eq_some_iff] at last
  rcases last with (blank | ⟨_, value⟩) | ⟨_, name⟩
  · exact absurd (tag.trailing.2 _ (List.mem_of_getLast? blank)) (by decide)
  · exact absurd (getLast?_attributes value) (by decide)
  · exact (isNameCharacter_of_mem (List.mem_of_getLast? name)).2.2.2.1 rfl

/-- What begins neither with an exclamation mark nor with a question mark nor with a slash is an opening tag. -/
theorem markup_eq_openingTag {first : Char} {others : List Char} (dispatch : first ≠ '!' ∧ first ≠ '?' ∧ first ≠ '/')
    (closed : IsClosed (first :: others)) (rest : List Char) :
    markup (first :: (others ++ '>' :: rest)) = .ok (first :: others, openingTag (first :: others)) := by
  have content : tagContent? none (first :: (others ++ '>' :: rest)) = some (first :: others) := by
    rw [← List.cons_append, closed]
    simp [tagContent?]
  have is_tag : markup (first :: (others ++ '>' :: rest)) = tag (first :: (others ++ '>' :: rest)) := by
    unfold markup
    split
    · exact absurd (List.cons.inj ‹_›).1 dispatch.1
    · exact absurd (List.cons.inj ‹_›).1 dispatch.2.1
    · rfl
  rw [is_tag, tag, content]
  dsimp only
  split
  · exact absurd (List.cons.inj ‹_›).1 dispatch.2.2
  · rfl

private theorem exists_write_eq_cons (tag : WrittenTag) :
    ∃ first others, tag.write = first :: others ∧ first ≠ '!' ∧ first ≠ '?' ∧ first ≠ '/' := by
  obtain ⟨first, others, name⟩ := List.exists_cons_of_ne_nil tag.name.nonempty
  have facts := isNameCharacter_of_mem (name ▸ List.mem_cons_self : first ∈ tag.name.characters)
  refine ⟨first, others ++ (tag.attributes.flatMap WrittenAttribute.write ++ tag.trailing.1), ?_, by tauto⟩
  rw [WrittenTag.write, name, List.cons_append]

theorem markup_opening (tag : WrittenTag) (rest : List Char) :
    markup (tag.write ++ '>' :: rest) = .ok (tag.write, .startTag tag.write) := by
  have closed := isClosed_write tag
  have last := getLast?_write tag
  obtain ⟨first, others, written, dispatch⟩ := exists_write_eq_cons tag
  rw [written] at closed last ⊢
  rw [List.cons_append, markup_eq_openingTag dispatch closed, openingTag, if_neg last]

theorem markup_leaf (tag : WrittenTag) (rest : List Char) :
    markup (tag.write ++ '/' :: '>' :: rest) = .ok (tag.write ++ ['/'], .emptyTag tag.write) := by
  have slash : IsClosed ['/'] := isClosed_plain (by simp)
  have closed := (isClosed_write tag).append slash
  obtain ⟨first, others, written, dispatch⟩ := exists_write_eq_cons tag
  rw [written, List.cons_append] at closed ⊢
  have read := markup_eq_openingTag dispatch closed rest
  rw [List.append_assoc, List.singleton_append] at read
  have last : (first :: (others ++ ['/'])).getLast? = some '/' := by
    rw [← List.cons_append, List.getLast?_concat]
  have init : (first :: (others ++ ['/'])).dropLast = first :: others := by
    rw [← List.cons_append, List.dropLast_concat]
  rw [read, openingTag, if_pos last, init, List.cons_append]

private theorem trimEnd_append {name : List Char} (given : name ≠ []) (visible : ∀ c ∈ name, isBlank c = false)
    (blanks : Blanks) : trimEnd (name ++ blanks.1) = name := by
  obtain ⟨last, others, reversed⟩ := List.exists_cons_of_ne_nil (mt List.reverse_eq_nil_iff.mp given)
  have member : last ∈ name := List.mem_reverse.mp (reversed ▸ List.mem_cons_self)
  have notBlank : ¬ (name ++ blanks.1).all isBlank = true := by
    intro all
    have blank := List.all_eq_true.mp all last (List.mem_append_left _ member)
    rw [visible last member] at blank
    cases blank
  have kept : name.reverse.dropWhile isBlank = name.reverse := by
    rw [reversed]
    exact List.dropWhile_cons_of_neg (by simp [visible last member])
  rw [trimEnd, if_neg notBlank, List.reverse_append, List.dropWhile_append_of_pos (by simpa using blanks.2), kept,
    List.reverse_reverse]

/-- An end tag gives the name without the blanks behind it. -/
theorem markup_closing (name : Name) (blanks : Blanks) (rest : List Char) :
    markup ('/' :: (name.characters ++ (blanks.1 ++ '>' :: rest))) =
      .ok ('/' :: (name.characters ++ blanks.1), .endTag name.characters) := by
  have slash : IsClosed ['/'] := isClosed_plain (by simp)
  have closed := slash.append ((isClosed_name name).append (isClosed_blanks blanks))
  have content : tagContent? none ('/' :: (name.characters ++ (blanks.1 ++ '>' :: rest))) =
      some ('/' :: (name.characters ++ blanks.1)) := by
    have read := closed ('>' :: rest)
    simpa [tagContent?] using read
  have trimmed : trimEnd (name.characters ++ blanks.1) = name.characters :=
    trimEnd_append name.nonempty (fun c member => (isNameCharacter_of_mem member).1) blanks
  have is_tag : markup ('/' :: (name.characters ++ (blanks.1 ++ '>' :: rest))) =
      tag ('/' :: (name.characters ++ (blanks.1 ++ '>' :: rest))) := rfl
  rw [is_tag, tag, content]
  simp only [trimmed]

/-! ## Comments and character data -/

/-- Markup goes up to the first bracket that closes it. -/
theorem contentUntil?_append {closes : List Char → Bool} {before text : List Char}
    (closed : closes (text.reverse ++ before) = true)
    (first : ∀ front back, text = front ++ '>' :: back → closes (front.reverse ++ before) = false) (rest : List Char) :
    contentUntil? closes before (text ++ '>' :: rest) = some text := by
  induction text generalizing before with
  | nil =>
    have here : closes before = true := by simpa using closed
    simp [contentUntil?, here]
  | cons c text ih =>
    have goes_on : ¬ (c = '>' ∧ closes before = true) := by
      rintro ⟨rfl, early⟩
      have late : closes before = false := first [] text rfl
      rw [early] at late
      cases late
    rw [List.cons_append, contentUntil?, if_neg goes_on, ih, Option.map_some]
    · simpa using closed
    · intro front back split
      have late := first (c :: front) back (by rw [split]; rfl)
      simpa using late

/-- The mark that closes a piece of markup occurs behind its opening only at its end, if the content does not contain
it. -/
theorem no_early_mark {c : Char} (other : c ≠ '>') {opening content front back : List Char}
    (open_end : ¬ [c, c, '>'] <:+: content) (inside : opening.length ≤ front.length) :
    opening ++ (content ++ [c, c]) ≠ front ++ c :: c :: '>' :: back := by
  intro split
  obtain ⟨front, rfl⟩ : opening <+: front := by
    have shorter : opening <+: front ++ c :: c :: '>' :: back := split ▸ List.prefix_append _ _
    exact List.prefix_of_prefix_length_le shorter (List.prefix_append _ _) inside
  rw [List.append_assoc, List.append_cancel_left_eq] at split
  rcases List.eq_nil_or_concat back with rfl | ⟨back, last, rfl⟩
  · have ends := congrArg List.getLast? split
    simp [List.getLast?_append, other] at ends
  · rcases List.eq_nil_or_concat back with rfl | ⟨back, next, rfl⟩
    · have ends := congrArg (fun text => text.reverse.tail.head?) split
      simp [other] at ends
    · have laid : content ++ [c, c] = (front ++ c :: c :: '>' :: back) ++ [next, last] := by
        rw [split]
        simp
      have cut : content = front ++ c :: c :: '>' :: back := List.append_inj_left' laid rfl
      exact open_end ⟨front, back, by rw [cut]; simp⟩

private theorem exists_of_closing {c : Char} {front : List Char} (closing : [c, c].isPrefixOf front.reverse = true) :
    ∃ before, front = before ++ [c, c] := by
  rw [List.isPrefixOf_iff_prefix] at closing
  obtain ⟨rest, reversed⟩ := closing
  exact ⟨rest.reverse, by rw [← List.reverse_reverse front, ← reversed]; simp⟩

/-- Markup that opens so that no closing mark can begin in its opening goes up to the mark behind its content. -/
theorem contentUntil?_enclosed {c : Char} (other : c ≠ '>') {closes : List Char → Bool} {opening content : List Char}
    (open_end : ¬ [c, c, '>'] <:+: content) (closed : closes (opening ++ (content ++ [c, c])).reverse = true)
    (behind : ∀ front back, opening ++ (content ++ [c, c]) = front ++ '>' :: back → closes front.reverse = true →
      ∃ before, front = before ++ [c, c] ∧ opening.length ≤ before.length) (rest : List Char) :
    contentUntil? closes [] (opening ++ (content ++ [c, c]) ++ '>' :: rest) =
      some (opening ++ (content ++ [c, c])) := by
  apply contentUntil?_append (by rwa [List.append_nil])
  intro front back split
  by_contra early
  rw [Bool.not_eq_false, List.append_nil] at early
  obtain ⟨before, rfl, long⟩ := behind front back split early
  rw [List.append_assoc] at split
  exact no_early_mark other open_end long split

theorem markup_comment {content : List Char} (open_end : ¬ ['-', '-', '>'] <:+: content) (rest : List Char) :
    markup (commentOpening ++ (content ++ ['-', '-']) ++ '>' :: rest) =
      .ok (commentOpening ++ (content ++ ['-', '-']), .other) := by
  have closed : closesComment (commentOpening ++ (content ++ ['-', '-'])).reverse = true := by
    simp [closesComment, commentOpening]
  have read := contentUntil?_enclosed (by decide) open_end closed (by
    intro front back _ early
    rw [closesComment, Bool.and_eq_true, decide_eq_true_eq] at early
    obtain ⟨before, rfl⟩ := exists_of_closing early.1
    exact ⟨before, rfl, by simpa [commentOpening] using early.2⟩) rest
  have opening : ['!', '-', '-'].isPrefixOf (commentOpening ++ (content ++ ['-', '-'])) = true := by
    simp [commentOpening]
  calc
    markup (commentOpening ++ (content ++ ['-', '-']) ++ '>' :: rest)
      = otherMarkup .comment (['!', '-', '-'].isPrefixOf ·)
          (contentUntil? closesComment [] (commentOpening ++ (content ++ ['-', '-']) ++ '>' :: rest)) := rfl
    _ = _ := by
      rw [read, otherMarkup, opening]
      rfl

theorem markup_characterData {content : List Char} (open_end : ¬ [']', ']', '>'] <:+: content) (rest : List Char) :
    markup (characterDataOpening ++ (content ++ [']', ']']) ++ '>' :: rest) =
      .ok (characterDataOpening ++ (content ++ [']', ']']), .other) := by
  have closed : closesCharacterData (characterDataOpening ++ (content ++ [']', ']'])).reverse = true := by
    simp [closesCharacterData]
  have read := contentUntil?_enclosed (by decide) open_end closed (by
    intro front back split early
    obtain ⟨before, rfl⟩ := exists_of_closing early
    refine ⟨before, rfl, ?_⟩
    -- The opening has no bracket of this kind, so the closing ones stand behind it.
    by_contra short
    have bracket : characterDataOpening[before.length]? = some ']' := by
      have same := congrArg (·[before.length]?) split
      rw [List.getElem?_append_left (by omega)] at same
      simpa using same
    exact absurd (List.mem_of_getElem? bracket) (by decide)) rest
  have opening : characterDataOpening.isPrefixOf (characterDataOpening ++ (content ++ [']', ']'])) = true := by simp
  calc
    markup (characterDataOpening ++ (content ++ [']', ']']) ++ '>' :: rest)
      = otherMarkup .characterData (characterDataOpening.isPrefixOf ·)
          (contentUntil? closesCharacterData [] (characterDataOpening ++ (content ++ [']', ']']) ++ '>' :: rest)) := rfl
    _ = _ := by
      rw [read, otherMarkup, opening]
      rfl

end TextHarvest.Xml
