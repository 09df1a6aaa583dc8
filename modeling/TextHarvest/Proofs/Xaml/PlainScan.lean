import TextHarvest.Proofs.Text.Pattern
import TextHarvest.Proofs.Xaml.Capture
import TextHarvest.Xaml.Extract

/-! # Extraction as a plain scan

A localizing markup extension is described by the pattern `extension`, in which the marker stands as it is, whatever its
characters are. `find?_extension` says that the search of attribute values finds the match of this pattern: the lines
are split at the first mark, and no later one has to be tried. The pattern asks for the marker, so the values without it
have no match, and a plain scan of all values, `plainScan`, comes to the same records (`extract_eq_plainScan`).
-/

namespace TextHarvest.Xaml

open Text

/-! ## The pattern of an extension -/

/-- The characters that may stand in the name of an extension. -/
def isSolid (c : Char) : Bool :=
  !isBlank c

def isInLine (c : Char) : Bool :=
  c != '\n'

/-- A context and the double slash behind it. -/
def contextPattern : Pattern :=
  .sequence (.group 1 (.shortest isInLine)) (.word contextMark)

/-- An id, and the quote and the brace behind it. -/
def idPattern : Pattern :=
  .sequence (.group 2 (.shortest isInLine)) (.word closing)

/-- The argument of an extension behind its opening quote. -/
def argumentPattern : Pattern :=
  .sequence (.optional contextPattern) idPattern

/-- What follows the colon of an extension. -/
def markedPattern (marker : List Char) : Pattern :=
  .sequence (.word marker) <| .sequence (.one (· = ' ')) <| .sequence (.longest (· = ' ')) <|
    .sequence (.word ['\'']) argumentPattern

def extension (marker : List Char) : Pattern :=
  .sequence (.word ['\x7b']) <| .sequence (.one isSolid) <| .sequence (.longest isSolid) <|
    .sequence (.word [':']) (markedPattern marker)

/-- The context and the id that a match has kept. -/
def captured (found : Match) : Captured :=
  ⟨found.groups.lookup 1, (found.groups.lookup 2).getD []⟩

/-- What the preferred match of a pattern at the front of a text keeps. -/
def firstCapture? (pattern : Pattern) (text : List Char) : Option Captured :=
  (pattern.ways text).head?.map captured

/-- A match that keeps nothing changes nothing of what the match behind it keeps. -/
theorem captured_join {first : Match} (bare : first.groups = []) (second : Match) :
    captured (first.join second) = captured second := by
  rw [captured, Match.join, bare, List.nil_append, captured]

/-- A pattern without groups leaves what is kept to the pattern behind it. -/
theorem firstCapture?_sequence {first : Pattern} {text : List Char} {cuts : List (List Char × List Char)}
    (bare : first.ways text = cuts.map fun cut => ⟨cut.1, [], cut.2⟩) (second : Pattern) :
    firstCapture? (.sequence first second) text = cuts.findSome? fun cut => firstCapture? second cut.2 := by
  have step (cut : List Char × List Char) :
      ((second.ways cut.2).head?.map (Match.join ⟨cut.1, [], cut.2⟩)).map captured = firstCapture? second cut.2 := by
    rw [firstCapture?]
    cases (second.ways cut.2).head? with
    | none => rfl
    | some found => exact congrArg some (captured_join rfl found)
  rw [firstCapture?, Pattern.head?_ways_sequence, bare, List.findSome?_map, List.map_findSome?]
  exact congrArg (List.findSome? · cuts) (funext step)

private theorem firstCapture?_word (characters : List Char) (second : Pattern) (text : List Char) :
    firstCapture? (.sequence (.word characters) second) text =
      (characters.isPrefixOf? text).bind (firstCapture? second) := by
  have bare : (Pattern.word characters).ways text =
      ((characters.isPrefixOf? text).toList.map fun rest => (characters, rest)).map fun cut => ⟨cut.1, [], cut.2⟩ := by
    rw [Pattern.ways, List.map_map]
    rfl
  rw [firstCapture?_sequence bare]
  cases characters.isPrefixOf? text <;> simp

private theorem firstCapture?_one (accepts : Char → Bool) (second : Pattern) (c : Char) (text : List Char) :
    firstCapture? (.sequence (.one accepts) second) (c :: text) =
      if accepts c then firstCapture? second text else none := by
  have bare : (Pattern.one accepts).ways (c :: text) =
      (if accepts c then [([c], text)] else []).map fun cut => ⟨cut.1, [], cut.2⟩ := by
    cases accepted : accepts c <;> simp [Pattern.ways, accepted]
  rw [firstCapture?_sequence bare]
  cases accepts c <;> simp

private theorem firstCapture?_longest (accepts : Char → Bool) (second : Pattern) (text : List Char) :
    firstCapture? (.sequence (.longest accepts) second) text =
      (runs accepts text).findSome? fun cut => firstCapture? second cut.2 :=
  firstCapture?_sequence rfl second

/-! ## The argument -/

/-- The first place in a line where a mark stands is where the line is split. -/
theorem findSome?_reverse_runs {mark : List Char} (nonempty : mark ≠ []) (text : List Char) :
    ((runs isInLine text).reverse.findSome? fun cut => (mark.isPrefixOf? cut.2).map fun behind => (cut.1, behind)) =
      splitInLine? mark text := by
  induction text with
  | nil =>
    obtain ⟨c, mark, rfl⟩ := List.exists_cons_of_ne_nil nonempty
    rfl
  | cons c text ih =>
    rw [runs, List.reverse_append, List.reverse_singleton, List.singleton_append, List.findSome?_cons, splitInLine?]
    cases mark.isPrefixOf? (c :: text) with
    | some behind => rfl
    | none =>
      by_cases feed : c = '\n'
      · simp [feed, isInLine]
      · have longer : isInLine c = true := by simpa [isInLine] using feed
        rw [if_pos longer, if_neg feed, ← List.map_reverse, List.findSome?_map, ← ih, List.map_findSome?]
        simp [Function.comp_def]

private theorem head?_ways_shortest {mark : List Char} (nonempty : mark ≠ []) (number : Nat) (text : List Char) :
    ((Pattern.sequence (.group number (.shortest isInLine)) (.word mark)).ways text).head? =
      (splitInLine? mark text).map fun split => ⟨split.1 ++ mark, [(number, split.1)], split.2⟩ := by
  have ways : (Pattern.group number (.shortest isInLine)).ways text =
      (runs isInLine text).reverse.map fun cut => ⟨cut.1, [(number, cut.1)], cut.2⟩ := by
    rw [Pattern.ways, Pattern.ways, List.map_map]
    rfl
  rw [Pattern.head?_ways_sequence, ways, List.findSome?_map, ← findSome?_reverse_runs nonempty, List.map_findSome?]
  apply congrArg (List.findSome? · (runs isInLine text).reverse)
  funext cut
  cases found : mark.isPrefixOf? cut.2 <;> simp [Pattern.ways, Match.join, found]

private theorem head?_ways_id (text : List Char) :
    (idPattern.ways text).head? =
      (splitInLine? closing text).map fun split => ⟨split.1 ++ closing, [(2, split.1)], split.2⟩ :=
  head?_ways_shortest (by decide) 2 text

private theorem exists_of_mem_ways_context {text : List Char} {found : Match}
    (member : found ∈ contextPattern.ways text) :
    ∃ context, text = context ++ contextMark ++ found.rest ∧ '\n' ∉ context := by
  rw [contextPattern, Pattern.ways, List.mem_flatMap] at member
  obtain ⟨group, first, joined⟩ := member
  obtain ⟨run, present, rfl⟩ := List.mem_map.mp first
  obtain ⟨cut, cuts, rfl⟩ := List.mem_map.mp present
  obtain ⟨mark, second, rfl⟩ := List.mem_map.mp joined
  obtain ⟨rest, opened, rfl⟩ := List.mem_map.mp second
  obtain ⟨whole, line⟩ := mem_runs (List.mem_reverse.mp cuts)
  have split := List.append_eq_of_isPrefixOf?_eq_some (Option.mem_toList.mp opened)
  refine ⟨cut.1, ?_, ?_⟩
  · rw [whole, List.append_assoc]
    exact congrArg (cut.1 ++ ·) split.symm
  · intro feed
    have inside := line _ feed
    simp [isInLine] at inside

/-- Behind a context of a text that does not run on, no id ends in the line. -/
theorem ways_id_of_mem {text : List Char} (ends : ¬ RunsOn text) {found : Match}
    (member : found ∈ contextPattern.ways text) : (idPattern.ways found.rest).head? = none := by
  obtain ⟨context, whole, line⟩ := exists_of_mem_ways_context member
  rw [head?_ways_id, Option.map_eq_none_iff, Option.eq_none_iff_forall_ne_some]
  rintro ⟨id, behind⟩ split
  obtain ⟨rest, inside, _⟩ := splitInLine?_closing_iff.mp split
  rw [rest] at whole
  exact ends ⟨context, id, behind, whole, line, inside⟩

/-- The preferred match of an argument keeps what is captured of it. Where no id follows the first context, none follows
a longer one, so one context is enough to look at. -/
theorem firstCapture?_argument (text : List Char) : firstCapture? argumentPattern text = captureQuoted? text := by
  rw [firstCapture?, argumentPattern, Pattern.head?_ways_sequence, Pattern.ways, List.findSome?_append]
  by_cases runsOn : RunsOn text
  · obtain ⟨context, behind, split, id, rest, closed⟩ := runsOn_iff.mp runsOn
    have first := head?_ways_shortest (by decide : contextMark ≠ []) 1 text
    rw [split] at first
    obtain ⟨others, ways⟩ := List.head?_eq_some_iff.mp first
    rw [captureQuoted?_of_runsOn split closed, contextPattern, ways, List.findSome?_cons, head?_ways_id, closed]
    rfl
  · have noContext : ((contextPattern.ways text).findSome? fun found =>
        (idPattern.ways found.rest).head?.map found.join) = none := by
      rw [List.findSome?_eq_none_iff]
      intro found member
      rw [ways_id_of_mem runsOn member, Option.map_none]
    rw [noContext, Option.none_or, List.findSome?_singleton, head?_ways_id, captureQuoted?_of_not_runsOn runsOn]
    cases splitInLine? closing text <;> rfl

/-! ## The extension -/

private theorem firstCapture?_character (d : Char) (second : Pattern) (c : Char) (text : List Char) :
    firstCapture? (.sequence (.word [d]) second) (c :: text) = if c = d then firstCapture? second text else none := by
  rw [firstCapture?_word]
  by_cases same : c = d
  · simp [same, List.isPrefixOf?]
  · simp [same, Ne.symm same, List.isPrefixOf?]

private theorem firstCapture?_marked (marker text : List Char) :
    firstCapture? (markedPattern marker) text = captureMarked? marker text := by
  rw [markedPattern, firstCapture?_word, captureMarked?_eq]
  apply congrArg (Option.bind (marker.isPrefixOf? text))
  funext behind
  cases behind with
  | nil => rfl
  | cons c behind =>
    rw [firstCapture?_one]
    by_cases space : c = ' '
    · have stops (d : Char) (rest : List Char) (blank : decide (d = ' ') = true) :
          firstCapture? (.sequence (.word ['\'']) argumentPattern) (d :: rest) = none := by
        rw [firstCapture?_character, of_decide_eq_true blank]
        rfl
      rw [if_pos (decide_eq_true space), firstCapture?_longest, findSome?_runs stops]
      have skipped : (c :: behind).dropWhile (· = ' ') = behind.dropWhile (· = ' ') :=
        List.dropWhile_cons_of_pos (decide_eq_true space)
      rw [skipped, space, List.head?_cons]
      cases behind.dropWhile (· = ' ') with
      | nil => rfl
      | cons d rest => simp [firstCapture?_character, firstCapture?_argument]
    · simp [space]

private theorem firstCapture?_name (marker text : List Char) :
    firstCapture? (.sequence (.longest isSolid) (.sequence (.word [':']) (markedPattern marker))) text =
      captureBehindBrace? marker true text := by
  rw [firstCapture?_longest]
  induction text with
  | nil => rfl
  | cons c text ih =>
    rw [runs, List.findSome?_append, List.findSome?_singleton, firstCapture?_character, firstCapture?_marked,
      captureBehindBrace?, ← ih]
    cases blank : isBlank c <;> simp [isSolid, blank, List.findSome?_map, Function.comp_def]

private theorem firstCapture?_extension (marker : List Char) (c : Char) (text : List Char) :
    firstCapture? (extension marker) (c :: text) =
      if c = '\x7b' then captureBehindBrace? marker false text else none := by
  rw [extension, firstCapture?_character]
  cases text with
  | nil => rfl
  | cons d text =>
    rw [firstCapture?_one, firstCapture?_name, captureBehindBrace?]
    cases blank : isBlank d <;> simp [isSolid, blank]

/-- The search for an extension is the search for its pattern. -/
theorem find?_extension (marker value : List Char) :
    ((extension marker).find? value).map captured = findExtension? marker value := by
  induction value with
  | nil => rfl
  | cons c value ih =>
    have here := firstCapture?_extension marker c value
    rw [firstCapture?] at here
    rw [Pattern.find?, Option.map_or, here, ih, findExtension?, Option.orElse_eq_orElse, Option.orElse_eq_or]

/-! ## The scan -/

/-- The context and the id in the first match of a pattern, unless the id is empty. -/
def captureMatch? (pattern : Pattern) (value : List Char) : Option Captured := do
  let found ← pattern.find? value
  let id ← found.groups.lookup 2
  if id = [] then none else some { context := found.groups.lookup 1, id }

/-- One record for each attribute value with a match, elements in document order and values in source order. -/
def plainScan (marker path : String) (elements : List Xml.Element) : List TextRecord :=
  elements.flatMap fun element => element.values.filterMap fun value =>
    (captureMatch? (extension marker.toList) value.toList).map fun captured =>
      { path, line := element.line, id := String.ofList captured.id, context := captured.context.map String.ofList }

private theorem captureMatch?_extension (marker value : List Char) :
    captureMatch? (extension marker) value = capture? marker value := by
  rw [captureMatch?, capture?, ← find?_extension]
  cases (extension marker).find? value with
  | none => rfl
  | some found =>
    cases id : found.groups.lookup 2 <;> simp [captured, id]

private theorem occursIn_iff {part text : List Char} : occursIn part text = true ↔ part <:+: text := by
  induction text with
  | nil => simp [occursIn]
  | cons c text ih => rw [occursIn, Bool.or_eq_true, List.isPrefixOf_iff_prefix, ih, List.infix_cons_iff]

private theorem requires_extension (marker : List Char) : (extension marker).Requires marker :=
  .inr (.inr (.inr (.inr (.inl List.infix_rfl))))

private theorem marker_infix_of_find? {marker value : List Char} {found : Match}
    (search : (extension marker).find? value = some found) : marker <:+: found.front ∧ found.front <:+: value := by
  obtain ⟨place, _, member⟩ := Pattern.exists_of_find? search
  exact ⟨(requires_extension marker).infix_front member, Pattern.front_infix_of_find? search⟩

/-- A value with a match is searched. -/
theorem occursIn_of_find? {marker value : List Char} {found : Match}
    (search : (extension marker).find? value = some found) : occursIn marker value = true := by
  obtain ⟨inside, part⟩ := marker_infix_of_find? search
  exact occursIn_iff.mpr (inside.trans part)

/-- The values that are not searched have no match. -/
theorem record?_eq (marker path : String) (line : Nat) (value : String) :
    record? marker path line value =
      (captureMatch? (extension marker.toList) value.toList).map fun captured =>
        { path, line, id := String.ofList captured.id, context := captured.context.map String.ofList } := by
  rw [record?]
  split_ifs with present
  · rw [captureMatch?_extension]
  · cases matching : captureMatch? (extension marker.toList) value.toList with
    | none => rfl
    | some captured =>
      obtain ⟨found, search, _⟩ := Option.bind_eq_some_iff.mp matching
      exact absurd (occursIn_of_find? search) present

private theorem recordsOf_eq (marker path : String) (elements : List Xml.Element) :
    recordsOf marker path elements = plainScan marker path elements := by
  rw [recordsOf, plainScan]
  simp only [record?_eq]

/-- The records of a source are those of a plain scan of all attribute values in it, for every marker; the marker is in
every match that the scan comes to. -/
theorem extract_eq_plainScan (marker path source : String) :
    extract marker path source = (Xml.elements source).map (plainScan marker path) ∧
      ∀ value found, (extension marker.toList).find? value = some found →
        marker.toList <:+: found.front ∧ found.front <:+: value ∧ occursIn marker.toList value = true := by
  constructor
  · rw [extract]
    cases Xml.elements source with
    | error fault => rfl
    | ok elements => exact congrArg Except.ok (recordsOf_eq marker path elements)
  · intro value found search
    obtain ⟨inside, part⟩ := marker_infix_of_find? search
    exact ⟨inside, part, occursIn_of_find? search⟩

/-- A marker of braces, quotes and characters that have a meaning in other patterns. -/
theorem extract_eq_plainScan_marker :
    let value := "\x7ba:.* \x7b' 'm//x'\x7d \x7d".toList
    let found : Match := ⟨"\x7ba:.* \x7b' 'm//x'\x7d".toList, [(1, ['m']), (2, ['x'])], [' ', '\x7d']⟩
    (extension ".* \x7b'".toList).find? value = some found ∧ ".* \x7b'".toList <:+: found.front ∧
      found.front <:+: value ∧ occursIn ".* \x7b'".toList value = true ∧
      extract ".* \x7b'" "View.xaml" "<A>\n<B t=\"\x7ba:.* \x7b' 'm//x'\x7d \x7d\"/></A>" =
        .ok [{ path := "View.xaml", line := 2, id := "x", context := some "m" }] := by
  intro value found
  have search : (extension ".* \x7b'".toList).find? value = some found := rfl
  obtain ⟨scan, asked⟩ :=
    extract_eq_plainScan ".* \x7b'" "View.xaml" "<A>\n<B t=\"\x7ba:.* \x7b' 'm//x'\x7d \x7d\"/></A>"
  obtain ⟨inside, part, present⟩ := asked value found search
  refine ⟨search, inside, part, present, ?_⟩
  rw [scan]
  decide +kernel

end TextHarvest.Xaml
