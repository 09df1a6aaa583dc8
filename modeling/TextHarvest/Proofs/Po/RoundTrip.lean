import TextHarvest.Proofs.Catalog.Run
import TextHarvest.Proofs.Po.Reader
import TextHarvest.Proofs.Text.Pieces

/-! # A PO file says all that a catalog holds

Reading a rendered catalog gives back the header and, for each entry in order, the lines of its comment, its reference,
its context, its id and its plural. The argument follows the layout from the inside out: escaped characters, quoted
lines, stanzas, and the split of the whole text. Only the reference is written as it is, so a path must not contain a
line feed; all other texts are arbitrary.
-/

namespace TextHarvest.Po

/-! ## Quoted texts -/

private theorem readQuoted?_escapeChar (c : Char) (rest : List Char) :
    readQuoted? (escapeChar c ++ rest) = (readQuoted? rest).map (c :: ·) := by
  have bound : ∀ d, (readQuoted? rest).bind (fun text => some (d :: text)) = (readQuoted? rest).map (d :: ·) := by
    intro d
    cases readQuoted? rest <;> rfl
  unfold escapeChar
  split_ifs with backslash quote feed carriage tab
  · simp [readQuoted?, escaped?, backslash, bound]
  · simp [readQuoted?, escaped?, quote, bound]
  · simp [readQuoted?, escaped?, feed, bound]
  · simp [readQuoted?, escaped?, carriage, bound]
  · simp [readQuoted?, escaped?, tab, bound]
  · simp [readQuoted?, backslash, bound]

/-- Reading undoes escaping, up to the closing quote. -/
theorem readQuoted?_escapeChars (text : List Char) : readQuoted? (escapeChars text ++ ['"']) = some text := by
  induction text with
  | nil => rfl
  | cons c text ih =>
    rw [escapeChars, List.flatMap_cons, List.append_assoc, readQuoted?_escapeChar]
    exact congrArg (Option.map (c :: ·)) ih

private theorem newline_not_mem_escapeChars (text : List Char) : '\n' ∉ escapeChars text := by
  intro member
  obtain ⟨c, _, written⟩ := List.mem_flatMap.mp member
  unfold escapeChar at written
  split_ifs at written with _ _ feed
  · simp at written
  · simp at written
  · simp at written
  · simp at written
  · simp at written
  · exact feed (List.mem_singleton.mp written).symm

private theorem escapeChars_append (first second : List Char) :
    escapeChars (first ++ second) = escapeChars first ++ escapeChars second :=
  List.flatMap_append

theorem toList_quoted (text : String) : (quoted text).toList = '"' :: (escapeChars text.toList ++ ['"']) := by
  simp [quoted, escape]

/-- A line that is made of an opening and a quoted text says the text. -/
theorem readField?_quoted (opening text : String) : readField? opening (opening ++ quoted text).toList = some text := by
  have cut : (opening.toList ++ ['"']).isPrefixOf? (opening ++ quoted text).toList =
      some (escapeChars text.toList ++ ['"']) := by
    simp [toList_quoted]
  simp only [readField?, cut, readQuoted?_escapeChars, Option.bind_eq_bind, Option.bind_some, Option.pure_def,
    String.ofList_toList]

/-- A header line is a quoted text too, if its name needs no escapes. -/
theorem headerField_eq_quoted (name value : String) (plain : escapeChars name.toList = name.toList) :
    headerField name value = quoted (name ++ ": " ++ value ++ "\n") := by
  apply String.toList_inj.mp
  simp only [headerField, quoted, escape, String.toList_append, String.toList_ofList, escapeChars_append, plain,
    List.append_assoc]
  rfl

private theorem readHeaderField?_headerField (name value : String) (plain : escapeChars name.toList = name.toList) :
    readHeaderField? name (headerField name value).toList = some value := by
  have line : readField? "" (headerField name value).toList = some (name ++ ": " ++ value ++ "\n") := by
    rw [headerField_eq_quoted name value plain]
    simpa using readField?_quoted "" (name ++ ": " ++ value ++ "\n")
  have cut : (name.toList ++ [':', ' ']).isPrefixOf? (name ++ ": " ++ value ++ "\n").toList =
      some (value.toList ++ ['\n']) := by
    simp
  have ended : (['\n'] : List Char).isSuffixOf? (value.toList ++ ['\n']) = some value.toList := by
    simp
  simp only [readHeaderField?, line, cut, ended, Option.bind_eq_bind, Option.bind_some, Option.pure_def,
    String.ofList_toList]

/-! ## Stanzas -/

/-- The lines of the comment of a record, without their line breaks. -/
def recordComment (record : TextRecord) : List (List Char) :=
  match record.comment with
  | some comment => commentLines comment.toList
  | none => []

/-- What a PO file is to say about an entry. -/
def Stanza.ofEntry (entry : CatalogEntry) : Stanza where
  comment := (recordComment entry.record).map String.ofList
  reference := entry.reference
  context := entry.record.context
  id := entry.record.id
  plural := entry.record.plural

/-- The lines of a stanza from the context on. -/
def contextLines (record : TextRecord) : List String :=
  match record.context with
  | some context => ["msgctxt " ++ quoted context]
  | none => []

/-- The lines of a stanza behind the id. -/
def pluralLines (record : TextRecord) : List String :=
  match record.plural with
  | some plural => ["msgid_plural " ++ quoted plural, "msgstr[0] \"\"", "msgstr[1] \"\""]
  | none => ["msgstr \"\""]

theorem stanza_eq (entry : CatalogEntry) :
    stanza entry = (recordComment entry.record).map (fun line => "#. " ++ String.ofList line) ++
      ("#: " ++ entry.reference) :: (contextLines entry.record ++
        ("msgid " ++ quoted entry.record.id) :: pluralLines entry.record) := by
  cases comment : entry.record.comment <;> cases context : entry.record.context <;>
    cases plural : entry.record.plural <;>
    simp [stanza, recordComment, contextLines, pluralLines, comment, context, plural]

private theorem readComment_append (texts : List (List Char)) {rest : List (List Char)}
    (other : readComment rest = ([], rest)) :
    readComment (texts.map ("#. ".toList ++ ·) ++ rest) = (texts.map String.ofList, rest) := by
  induction texts with
  | nil => exact other
  | cons text texts ih =>
    have cut : "#. ".toList.isPrefixOf? ("#. ".toList ++ text) = some text := by simp
    simp only [List.map_cons, List.cons_append, readComment, cut, ih]

private theorem readComment_reference (reference : String) (rest : List (List Char)) :
    readComment (("#: " ++ reference).toList :: rest) = ([], ("#: " ++ reference).toList :: rest) := by
  simp [readComment, List.isPrefixOf?]

/-- The context is read where there is one, and the line of the id is not taken for one. -/
theorem readContext_contextLines (record : TextRecord) (rest : List (List Char)) :
    readContext ((contextLines record).map String.toList ++ ("msgid " ++ quoted record.id).toList :: rest) =
      (record.context, ("msgid " ++ quoted record.id).toList :: rest) := by
  cases context : record.context with
  | none =>
    have other : readField? "msgctxt " ("msgid " ++ quoted record.id).toList = none := by
      simp [readField?, List.isPrefixOf?]
    simp only [contextLines, context, List.map_nil, List.nil_append, readContext, other]
  | some text =>
    simp only [contextLines, context, List.map_cons, List.map_nil, List.singleton_append, readContext,
      readField?_quoted]

private theorem readPlural?_pluralLines (record : TextRecord) :
    readPlural? ((pluralLines record).map String.toList) = some record.plural := by
  cases plural : record.plural with
  | none =>
    have empty : readField? "msgstr " "msgstr \"\"".toList = some "" := readField?_quoted "msgstr " ""
    simp only [pluralLines, plural, List.map_cons, List.map_nil, readPlural?, empty, Option.bind_eq_bind,
      Option.bind_some, ↓reduceIte]
  | some text =>
    have first : readField? "msgstr[0] " "msgstr[0] \"\"".toList = some "" := readField?_quoted "msgstr[0] " ""
    have second : readField? "msgstr[1] " "msgstr[1] \"\"".toList = some "" := readField?_quoted "msgstr[1] " ""
    simp only [pluralLines, plural, List.map_cons, List.map_nil, readPlural?, readField?_quoted, first, second,
      Option.bind_eq_bind, Option.bind_some, and_self, ↓reduceIte]

/-- The lines of an entry say what the entry holds. -/
theorem readStanza?_stanza (entry : CatalogEntry) :
    readStanza? ((stanza entry).map String.toList) = some (Stanza.ofEntry entry) := by
  have comment := readComment_append (recordComment entry.record) (readComment_reference entry.reference
    ((contextLines entry.record).map String.toList ++ ("msgid " ++ quoted entry.record.id).toList ::
      (pluralLines entry.record).map String.toList))
  have reference : "#: ".toList.isPrefixOf? ("#: " ++ entry.reference).toList = some entry.reference.toList := by simp
  have context := readContext_contextLines entry.record ((pluralLines entry.record).map String.toList)
  have id := readField?_quoted "msgid " entry.record.id
  have plural := readPlural?_pluralLines entry.record
  have written : (recordComment entry.record).map (String.toList ∘ fun line => "#. " ++ String.ofList line) =
      (recordComment entry.record).map ("#. ".toList ++ ·) := by
    simp [Function.comp_def]
  rw [stanza_eq, List.map_append, List.map_map, written, List.map_cons, List.map_append, List.map_cons]
  simp only [readStanza?, comment, reference, context, id, plural, Option.bind_eq_bind, Option.bind_some,
    Option.pure_def, String.ofList_toList, Stanza.ofEntry]

private theorem readHeader?_lines (header : Header) : readHeader? (header.lines.map String.toList) = some header := by
  have id : readField? "msgid " "msgid \"\"".toList = some "" := readField?_quoted "msgid " ""
  have text : readField? "msgstr " "msgstr \"\"".toList = some "" := readField?_quoted "msgstr " ""
  have language := readHeaderField?_headerField "Language" header.language (by decide)
  have version := readHeaderField?_headerField "MIME-Version" "1.0" (by decide)
  have content := readHeaderField?_headerField "Content-Type" "text/plain; charset=UTF-8" (by decide)
  have plurals := readHeaderField?_headerField "Plural-Forms" header.pluralForms (by decide)
  simp only [Header.lines, List.map_cons, List.map_nil, readHeader?, id, text, language, version, content, plurals,
    Option.bind_eq_bind, Option.bind_some, and_self, ↓reduceIte]

/-! ## Lines -/

/-- A line of its own: it is not empty and a line feed would not cut it. -/
def IsLine (line : String) : Prop :=
  line ≠ "" ∧ '\n' ∉ line.toList

private theorem isLine_append {opening rest : String} (line : IsLine opening) (closed : '\n' ∉ rest.toList) :
    IsLine (opening ++ rest) := by
  refine ⟨?_, ?_⟩
  · simp [line.1]
  · simp [line.2, closed]

theorem newline_not_mem_quoted (text : String) : '\n' ∉ (quoted text).toList := by
  simp [toList_quoted, newline_not_mem_escapeChars]

private theorem newline_not_mem_commentLines {comment line : List Char} (member : line ∈ commentLines comment) :
    '\n' ∉ line := by
  have ended : ∀ piece ∈ (comment.splitOn '\n').dropLast,
      '\n' ∉ ((['\r'] : List Char).isSuffixOf? piece).getD piece := by
    intro piece present
    have closed := Text.not_mem_of_mem_splitOn (List.dropLast_subset _ present)
    cases cut : (['\r'] : List Char).isSuffixOf? piece with
    | none => exact closed
    | some text =>
      rw [← List.append_eq_of_isSuffixOf?_eq_some cut] at closed
      exact fun inside => closed (List.mem_append_left _ inside)
  have last : '\n' ∉ (comment.splitOn '\n').getLast?.getD [] := by
    rw [List.getLast?_eq_some_getLast (List.splitOn_ne_nil '\n' comment)]
    exact Text.not_mem_of_mem_splitOn (List.getLast_mem _)
  unfold commentLines at member
  dsimp only at member
  split_ifs at member
  · obtain ⟨piece, present, rfl⟩ := List.mem_map.mp member
    exact ended piece present
  · rcases List.mem_append.mp member with member | member
    · obtain ⟨piece, present, rfl⟩ := List.mem_map.mp member
      exact ended piece present
    · rw [List.mem_singleton.mp member]
      exact last

private theorem newline_not_mem_recordComment {record : TextRecord} {line : List Char}
    (member : line ∈ recordComment record) : '\n' ∉ line := by
  unfold recordComment at member
  split at member
  · exact newline_not_mem_commentLines member
  · exact absurd member List.not_mem_nil

theorem isLine_of_mem_comment {record : TextRecord} {line : String}
    (member : line ∈ (recordComment record).map fun text => "#. " ++ String.ofList text) : IsLine line := by
  obtain ⟨text, present, rfl⟩ := List.mem_map.mp member
  apply isLine_append (by simp [IsLine])
  simpa using newline_not_mem_recordComment present

/-- Every line of an entry behind its reference is a line of its own. -/
theorem isLine_of_mem_texts {record : TextRecord} {line : String}
    (member : line ∈ contextLines record ++ ("msgid " ++ quoted record.id) :: pluralLines record) : IsLine line := by
  rw [List.mem_append, List.mem_cons] at member
  rcases member with context | rfl | plural
  · cases given : record.context with
    | none => simp [contextLines, given] at context
    | some text =>
      obtain rfl : line = _ := by simpa [contextLines, given] using context
      exact isLine_append (by simp [IsLine]) (newline_not_mem_quoted text)
  · exact isLine_append (by simp [IsLine]) (newline_not_mem_quoted _)
  · cases given : record.plural with
    | none =>
      obtain rfl : line = _ := by simpa [pluralLines, given] using plural
      simp [IsLine]
    | some text =>
      simp only [pluralLines, given, List.mem_cons, List.not_mem_nil, or_false] at plural
      rcases plural with rfl | rfl | rfl
      · exact isLine_append (by simp [IsLine]) (newline_not_mem_quoted text)
      · simp [IsLine]
      · simp [IsLine]

/-- Every line of an entry is a line of its own, if the reference has no line feed. -/
theorem isLine_of_mem_stanza {entry : CatalogEntry} (closed : '\n' ∉ entry.reference.toList) {line : String}
    (member : line ∈ stanza entry) : IsLine line := by
  rw [stanza_eq, List.mem_append, List.mem_cons] at member
  rcases member with comment | rfl | texts
  · exact isLine_of_mem_comment comment
  · exact isLine_append (by simp [IsLine]) closed
  · exact isLine_of_mem_texts texts

theorem isLine_of_mem_header {header : Header} {line : String} (member : line ∈ header.lines) : IsLine line := by
  have field (name value : String) (plain : escapeChars name.toList = name.toList) :
      IsLine (headerField name value) := by
    rw [headerField_eq_quoted name value plain]
    exact ⟨by simp [quoted], newline_not_mem_quoted _⟩
  simp only [Header.lines, List.mem_cons, List.not_mem_nil, or_false] at member
  rcases member with rfl | rfl | rfl | rfl | rfl | rfl
  · simp [IsLine]
  · simp [IsLine]
  · exact field _ _ (by decide)
  · exact field _ _ (by decide)
  · exact field _ _ (by decide)
  · exact field _ _ (by decide)

private theorem nil_not_mem_of_isLine {lines : List String} (all : ∀ line ∈ lines, IsLine line) :
    [] ∉ lines.map String.toList := by
  intro member
  obtain ⟨line, present, empty⟩ := List.mem_map.mp member
  exact (all line present).1 (String.toList_eq_nil_iff.mp empty)

/-! ## The whole file -/

private theorem toList_render (header : Header) (catalog : Catalog) :
    (render header catalog).toList = ((lines header catalog).map String.toList).flatMap (· ++ ['\n']) := by
  simp [render, String.toList_join, List.flatMap_map]

private theorem mapM_readStanza? (entries : List CatalogEntry) :
    (entries.map fun entry => (stanza entry).map String.toList).mapM readStanza? =
      some (entries.map Stanza.ofEntry) := by
  induction entries with
  | nil => rfl
  | cons entry entries ih => simp [readStanza?_stanza, ih]

/-- Reading undoes rendering, as long as no reference contains a line feed. -/
theorem read?_render_of_closed (header : Header) (catalog : Catalog)
    (closed : ∀ entry ∈ catalog.entries, '\n' ∉ entry.reference.toList) :
    read? (render header catalog) = some ⟨header, catalog.entries.map Stanza.ofEntry⟩ := by
  have open_lines : ∀ line ∈ lines header catalog, '\n' ∉ line.toList := by
    intro line member
    rcases List.mem_append.mp member with member | member
    · exact (isLine_of_mem_header member).2
    · obtain ⟨entry, present, member⟩ := List.mem_flatMap.mp member
      rcases List.mem_cons.mp member with rfl | member
      · simp
      · exact (isLine_of_mem_stanza (closed entry present) member).2
  have split : linesOf? (render header catalog).toList = some ((lines header catalog).map String.toList) := by
    rw [toList_render, linesOf?, Text.splitOn_ended _ (by simpa using open_lines)]
    simp
  have blocks : ((lines header catalog).map String.toList).splitOn [] =
      header.lines.map String.toList :: catalog.entries.map fun entry => (stanza entry).map String.toList := by
    have laid : (lines header catalog).map String.toList = header.lines.map String.toList ++
        (catalog.entries.map fun entry => (stanza entry).map String.toList).flatMap ([] :: ·) := by
      simp [lines, List.map_flatMap, List.flatMap_map]
    rw [laid]
    apply Text.splitOn_blocks (nil_not_mem_of_isLine fun _ => isLine_of_mem_header)
    intro block member
    obtain ⟨entry, present, rfl⟩ := List.mem_map.mp member
    exact nil_not_mem_of_isLine fun _ => isLine_of_mem_stanza (closed entry present)
  simp only [read?, split, blocks, readHeader?_lines, mapM_readStanza?, Option.bind_eq_bind, Option.bind_some,
    Option.pure_def]

/-- A reference has a line feed just where the path relative to the root has one. -/
theorem newline_mem_referenceOf_iff (root : String) (record : TextRecord) :
    '\n' ∈ (Catalog.referenceOf root record).toList ↔ '\n' ∈ (Catalog.relativePath root record.path).toList := by
  have digits : '\n' ∉ Nat.toDigits 10 record.line := by
    intro member
    exact absurd (Nat.isDigit_of_mem_toDigits (by decide) (by decide) member) (by decide)
  simp [Catalog.referenceOf, digits]

/-- A reference has a line feed only if the path has one. -/
theorem newline_not_mem_referenceOf (root : String) {record : TextRecord} (closed : '\n' ∉ record.path.toList) :
    '\n' ∉ (Catalog.referenceOf root record).toList := by
  have rest : ∀ c ∈ (root.toList.isPrefixOf? record.path.toList).getD record.path.toList, c ∈ record.path.toList := by
    intro c member
    cases cut : root.toList.isPrefixOf? record.path.toList with
    | none => simpa [cut] using member
    | some rest =>
      rw [← List.append_eq_of_isPrefixOf?_eq_some cut]
      exact List.mem_append_right _ (by simpa [cut] using member)
  rw [newline_mem_referenceOf_iff, Catalog.relativePath, String.toList_ofList]
  exact fun member => closed (rest _ ((Text.trimBy_sublist _ _).subset member))

private theorem read?_render_ofCalls (header : Header) (root : String) {calls : List Catalog.Call}
    (closed : ∀ record ∈ Catalog.streamOf calls, '\n' ∉ record.path.toList) :
    read? (render header (Catalog.ofCalls root calls)) =
      some ⟨header, (Catalog.ofCalls root calls).entries.map Stanza.ofEntry⟩ := by
  apply read?_render_of_closed
  intro entry member
  rw [Catalog.ofCalls_eq] at member
  obtain ⟨record, present, rfl⟩ := List.mem_map.mp member
  exact newline_not_mem_referenceOf root (closed record ((firstRecords_sublist _).subset present))

/-- Reading a PO file gives back the header and all that the entries of its catalog hold, for every catalog that calls
lead to. So files that differ in any of this differ as texts. -/
theorem read?_render (header : Header) (root : String) (calls : List Catalog.Call)
    (closed : ∀ record ∈ Catalog.streamOf calls, '\n' ∉ record.path.toList) :
    read? (render header (Catalog.ofCalls root calls)) =
        some ⟨header, (Catalog.ofCalls root calls).entries.map Stanza.ofEntry⟩ ∧
      ∀ (otherHeader : Header) (otherRoot : String) (otherCalls : List Catalog.Call),
        (∀ record ∈ Catalog.streamOf otherCalls, '\n' ∉ record.path.toList) →
        render header (Catalog.ofCalls root calls) = render otherHeader (Catalog.ofCalls otherRoot otherCalls) →
        header = otherHeader ∧ (Catalog.ofCalls root calls).entries.map Stanza.ofEntry =
          (Catalog.ofCalls otherRoot otherCalls).entries.map Stanza.ofEntry := by
  have read := read?_render_ofCalls header root closed
  refine ⟨read, ?_⟩
  intro otherHeader otherRoot otherCalls otherClosed same
  rw [same, read?_render_ofCalls otherHeader otherRoot otherClosed] at read
  simpa only [Option.some.injEq, Document.mk.injEq, eq_comm] using read

/-- A text full of PO keywords and escapes, with an empty context and a comment of two lines, is read back. -/
theorem read?_render_keywords :
    (∀ record ∈ Catalog.streamOf [.insert ⟨"/s/a.cs", 7, "\"\nmsgid \\n", some "", none, some "x\r\n#: y"⟩],
        '\n' ∉ record.path.toList) ∧
      read? (render ⟨"e\n", "\""⟩
        (Catalog.ofCalls "/s" [.insert ⟨"/s/a.cs", 7, "\"\nmsgid \\n", some "", none, some "x\r\n#: y"⟩])) =
        some ⟨⟨"e\n", "\""⟩, [⟨["x", "#: y"], "a.cs:7", some "", "\"\nmsgid \\n", none⟩]⟩ := by
  have closed : ∀ record ∈ Catalog.streamOf
      [.insert ⟨"/s/a.cs", 7, "\"\nmsgid \\n", some "", none, some "x\r\n#: y"⟩], '\n' ∉ record.path.toList := by
    simp [Catalog.streamOf, Catalog.Call.records]
  exact ⟨closed, (read?_render ⟨"e\n", "\""⟩ "/s" _ closed).1.trans (by decide)⟩

end TextHarvest.Po
