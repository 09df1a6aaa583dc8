import TextHarvest.Proofs.Po.RoundTrip

/-! # The lines of a PO file

Contexts, ids and plurals are escaped and comments are cut into lines, so none of them begins a line that is not theirs.
A reference is written as it is. If the path in it has a line feed, what stands behind it makes lines of its own, which
may look like any other line of the file.

`linesIn_render_ofCalls` says that this is the only way: a PO file has just the lines that were laid out for it where no
path has a line feed, and otherwise it has as many ids more as references spill. `linesIn_render_forged` is a file with
an id that no entry has.
-/

namespace TextHarvest.Po

/-- The pieces of a text between its line feeds. -/
def linesIn (text : String) : List String :=
  (text.toList.splitOn '\n').map String.ofList

def givesId (line : String) : Bool :=
  "msgid \"".toList.isPrefixOf line.toList

/-- The lines that belong to an entry. -/
inductive StanzaLine (entry : CatalogEntry) : String → Prop
  | comment {line : List Char} (member : line ∈ recordComment entry.record) :
      StanzaLine entry ("#. " ++ String.ofList line)
  | reference : StanzaLine entry ("#: " ++ entry.reference)
  | context {text : String} (given : entry.record.context = some text) : StanzaLine entry ("msgctxt " ++ quoted text)
  | id : StanzaLine entry ("msgid " ++ quoted entry.record.id)
  | plural {text : String} (given : entry.record.plural = some text) : StanzaLine entry ("msgid_plural " ++ quoted text)
  | one (single : entry.record.plural = none) : StanzaLine entry "msgstr \"\""
  | first (several : entry.record.plural ≠ none) : StanzaLine entry "msgstr[0] \"\""
  | second (several : entry.record.plural ≠ none) : StanzaLine entry "msgstr[1] \"\""

/-- The lines that a reference makes besides its own. -/
def spilled (entry : CatalogEntry) : List String :=
  (linesIn entry.reference).tail

/-! ## Lines of a text -/

private theorem linesIn_append_feed (line rest : String) :
    linesIn (line ++ "\n" ++ rest) = linesIn line ++ linesIn rest := by
  have ended : (line ++ "\n" ++ rest).toList = line.toList ++ '\n' :: rest.toList := by simp
  rw [linesIn, ended, List.splitOn_append_cons_self, List.map_append]
  rfl

/-- A text in which each of some lines is ended has the lines in them, and an empty piece at its end. -/
theorem linesIn_join (lines : List String) :
    linesIn (String.join (lines.map (· ++ "\n"))) = lines.flatMap linesIn ++ [""] := by
  induction lines with
  | nil => rfl
  | cons line lines ih =>
    rw [List.map_cons, String.join_cons, linesIn_append_feed, ih, List.flatMap_cons, List.append_assoc]

private theorem linesIn_eq_singleton {line : String} (closed : '\n' ∉ line.toList) : linesIn line = [line] := by
  rw [linesIn, List.splitOn_eq_singleton closed, List.map_singleton, String.ofList_toList]

private theorem newline_not_mem_of_mem_linesIn {text line : String} (member : line ∈ linesIn text) :
    '\n' ∉ line.toList := by
  obtain ⟨piece, present, rfl⟩ := List.mem_map.mp member
  rw [String.toList_ofList]
  exact Text.not_mem_of_mem_splitOn present

private theorem flatMap_linesIn {lines : List String} (closed : ∀ line ∈ lines, '\n' ∉ line.toList) :
    lines.flatMap linesIn = lines := by
  induction lines with
  | nil => rfl
  | cons line lines ih =>
    obtain ⟨here, later⟩ := List.forall_mem_cons.mp closed
    rw [List.flatMap_cons, linesIn_eq_singleton here, ih later, List.singleton_append]

/-- What opens a line stands in the first of its pieces. -/
theorem exists_linesIn_append {opening : String} (closed : '\n' ∉ opening.toList) (rest : String) :
    ∃ first, linesIn (opening ++ rest) = (opening ++ first) :: (linesIn rest).tail := by
  obtain ⟨first, more, pieces⟩ := List.exists_cons_of_ne_nil (List.splitOn_ne_nil '\n' rest.toList)
  refine ⟨String.ofList first, ?_⟩
  rw [linesIn, linesIn, String.toList_append, Text.splitOn_append_of_not_mem closed, pieces]
  simp [String.ofList_append]

/-! ## Stanzas -/

/-- Only the reference of an entry is cut. -/
theorem exists_flatMap_stanza (entry : CatalogEntry) :
    ∃ first, (stanza entry).flatMap linesIn =
      (recordComment entry.record).map (fun line => "#. " ++ String.ofList line) ++
        ("#: " ++ first) :: (spilled entry ++
          (contextLines entry.record ++ ("msgid " ++ quoted entry.record.id) :: pluralLines entry.record)) := by
  obtain ⟨first, cut⟩ := exists_linesIn_append (by simp : '\n' ∉ "#: ".toList) entry.reference
  refine ⟨first, ?_⟩
  rw [stanza_eq, List.flatMap_append, List.flatMap_cons, cut,
    flatMap_linesIn fun _ member => (isLine_of_mem_comment member).2,
    flatMap_linesIn fun _ member => (isLine_of_mem_texts member).2]
  rfl

/-- The lines that are written for an entry are those that belong to it. -/
theorem mem_stanza_iff {entry : CatalogEntry} {line : String} : line ∈ stanza entry ↔ StanzaLine entry line := by
  constructor
  · intro member
    rw [stanza_eq, List.mem_append, List.mem_cons, List.mem_append, List.mem_cons] at member
    rcases member with comment | rfl | context | rfl | plural
    · obtain ⟨text, present, rfl⟩ := List.mem_map.mp comment
      exact .comment present
    · exact .reference
    · cases given : entry.record.context with
      | none => simp [contextLines, given] at context
      | some text =>
        obtain rfl : line = _ := by simpa [contextLines, given] using context
        exact .context given
    · exact .id
    · cases given : entry.record.plural with
      | none =>
        obtain rfl : line = _ := by simpa [pluralLines, given] using plural
        exact .one given
      | some text =>
        have several : entry.record.plural ≠ none := by simp [given]
        simp only [pluralLines, given, List.mem_cons, List.not_mem_nil, or_false] at plural
        rcases plural with rfl | rfl | rfl
        · exact .plural given
        · exact .first several
        · exact .second several
  · intro belongs
    rw [stanza_eq]
    cases belongs with
    | comment present => exact List.mem_append_left _ (List.mem_map_of_mem present)
    | reference => simp
    | context given => simp [contextLines, given]
    | id => simp
    | plural given => simp [pluralLines, given]
    | one single => simp [pluralLines, single]
    | first several =>
      obtain ⟨text, given⟩ := Option.ne_none_iff_exists'.mp several
      simp [pluralLines, given]
    | second several =>
      obtain ⟨text, given⟩ := Option.ne_none_iff_exists'.mp several
      simp [pluralLines, given]

/-! ## Ids -/

/-- The line that gives the header its id stands in no stanza but that of an entry with an empty id. -/
theorem emptyId_mem_stanza_iff (entry : CatalogEntry) : "msgid \"\"" ∈ stanza entry ↔ entry.record.id = "" := by
  have empty : "msgid \"\"" = "msgid " ++ quoted "" := rfl
  have read : readField? "msgid " ("msgid " ++ quoted "").toList = some "" := readField?_quoted _ _
  rw [mem_stanza_iff, empty]
  constructor
  · intro belongs
    generalize "msgid " ++ quoted "" = line at belongs read
    cases belongs with
    | id => exact Option.some.inj ((readField?_quoted _ _).symm.trans read)
    | comment | reference | context | plural => simp [readField?, List.isPrefixOf?] at read
    | one | first | second => cases read
  · intro same
    rw [← same]
    exact .id

private theorem countP_givesId_header (header : Header) : header.lines.countP givesId = 1 := by
  have field (name value : String) : givesId (headerField name value) = false := by
    simp [givesId, headerField, List.isPrefixOf]
  have opened : givesId "msgid \"\"" = true ∧ givesId "msgstr \"\"" = false := by decide
  simp only [Header.lines, List.countP_cons, List.countP_nil, field, opened]
  rfl

private theorem countP_givesId_texts (record : TextRecord) :
    (contextLines record ++ ("msgid " ++ quoted record.id) :: pluralLines record).countP givesId = 1 := by
  have id : givesId ("msgid " ++ quoted record.id) = true := by simp [givesId, toList_quoted]
  have context : (contextLines record).countP givesId = 0 := by
    cases given : record.context <;> simp [contextLines, given, givesId]
  have plural : (pluralLines record).countP givesId = 0 := by
    cases given : record.plural <;> simp [pluralLines, given, givesId]
  rw [List.countP_append, List.countP_cons_of_pos id, context, plural]

/-- An entry gives one id, and besides it those that its reference spills. -/
theorem countP_givesId_stanza (entry : CatalogEntry) :
    ((stanza entry).flatMap linesIn).countP givesId = 1 + (spilled entry).countP givesId := by
  obtain ⟨first, laid⟩ := exists_flatMap_stanza entry
  have reference : ¬ givesId ("#: " ++ first) = true := by simp [givesId]
  have comment :
      ((recordComment entry.record).map fun line => "#. " ++ String.ofList line).countP givesId = 0 := by
    rw [List.countP_eq_zero]
    intro line member
    obtain ⟨text, _, rfl⟩ := List.mem_map.mp member
    simp [givesId]
  rw [laid, List.countP_append, comment, List.countP_cons_of_neg reference, List.countP_append, countP_givesId_texts]
  omega

private theorem countP_givesId_stanzas (entries : List CatalogEntry) :
    (entries.flatMap fun entry => "" :: (stanza entry).flatMap linesIn).countP givesId =
      entries.length + (entries.flatMap spilled).countP givesId := by
  induction entries with
  | nil => rfl
  | cons entry entries ih =>
    have empty : ¬ givesId "" = true := by decide
    rw [List.flatMap_cons, List.countP_append, ih, List.countP_cons_of_neg empty, countP_givesId_stanza,
      List.flatMap_cons, List.countP_append, List.length_cons]
    omega

/-! ## The whole file -/

private theorem linesIn_render (header : Header) (catalog : Catalog) :
    linesIn (render header catalog) =
      header.lines ++ (catalog.entries.flatMap fun entry => "" :: (stanza entry).flatMap linesIn) ++ [""] := by
  have empty : linesIn "" = [""] := rfl
  rw [render, linesIn_join, lines, List.flatMap_append, flatMap_linesIn fun _ member => (isLine_of_mem_header member).2,
    List.flatMap_assoc]
  simp only [List.flatMap_cons, empty, List.singleton_append]

/-- A PO file has the lines that were laid out for it just where no reference has a line feed: no line of a text has
one. -/
theorem linesIn_render_eq_iff (header : Header) (catalog : Catalog) :
    linesIn (render header catalog) = lines header catalog ++ [""] ↔
      ∀ entry ∈ catalog.entries, '\n' ∉ entry.reference.toList := by
  constructor
  · intro same entry member
    have laid : "#: " ++ entry.reference ∈ lines header catalog := by
      refine List.mem_append_right _ (List.mem_flatMap.mpr ⟨entry, member, List.mem_cons_of_mem _ ?_⟩)
      simp [stanza_eq]
    have closed := newline_not_mem_of_mem_linesIn (same ▸ List.mem_append_left _ laid)
    simpa using closed
  · intro closed
    have whole : ∀ entry ∈ catalog.entries, "" :: (stanza entry).flatMap linesIn = "" :: stanza entry := by
      intro entry member
      rw [flatMap_linesIn fun _ present => (isLine_of_mem_stanza (closed entry member) present).2]
    rw [linesIn_render, lines, List.flatMap_congr whole]

/-- What references spill stands in the file, line by line. -/
theorem mem_linesIn_render_of_spilled (header : Header) {catalog : Catalog} {entry : CatalogEntry}
    (present : entry ∈ catalog.entries) {line : String} (member : line ∈ spilled entry) :
    line ∈ linesIn (render header catalog) := by
  obtain ⟨first, laid⟩ := exists_flatMap_stanza entry
  have inside : line ∈ (stanza entry).flatMap linesIn := by
    rw [laid]
    exact List.mem_append_right _ (List.mem_cons_of_mem _ (List.mem_append_left _ member))
  rw [linesIn_render]
  exact List.mem_append_left _
    (List.mem_append_right _ (List.mem_flatMap.mpr ⟨entry, present, List.mem_cons_of_mem _ inside⟩))

private theorem countP_givesId_render (header : Header) (catalog : Catalog) :
    (linesIn (render header catalog)).countP givesId =
      1 + catalog.size + (catalog.entries.flatMap spilled).countP givesId := by
  have empty : [""].countP givesId = 0 := by decide
  rw [linesIn_render, List.countP_append, List.countP_append, empty, countP_givesId_header, countP_givesId_stanzas,
    Catalog.size]
  omega

private theorem reference_eq_of_mem_ofCalls {root : String} {calls : List Catalog.Call} {entry : CatalogEntry}
    (member : entry ∈ (Catalog.ofCalls root calls).entries) :
    entry.reference = Catalog.referenceOf root entry.record := by
  rw [Catalog.ofCalls_eq] at member
  obtain ⟨record, _, rfl⟩ := List.mem_map.mp member
  rfl

/-- Where no path has a line feed behind the root, a PO file has one id for the header and one for each entry, and all
its lines are those of the header and of the entries, or empty. Just there its lines are the ones that were laid out for
it. Otherwise what references spill stands in the file too, and every id among it is one more. -/
theorem linesIn_render_ofCalls (header : Header) (root : String) (calls : List Catalog.Call) :
    let catalog := Catalog.ofCalls root calls
    let found := linesIn (render header catalog)
    let closed := ∀ entry ∈ catalog.entries, '\n' ∉ (Catalog.relativePath root entry.record.path).toList
    (closed → found.countP givesId = 1 + catalog.size ∧
      ∀ line ∈ found, line ∈ header.lines ∨ line = "" ∨ ∃ entry ∈ catalog.entries, StanzaLine entry line) ∧
    (closed ↔ found = lines header catalog ++ [""]) ∧
    (∀ entry ∈ catalog.entries, ∀ line ∈ spilled entry, line ∈ found) ∧
    found.countP givesId = 1 + catalog.size + (catalog.entries.flatMap spilled).countP givesId := by
  intro catalog found closed
  have laid : closed ↔ found = lines header catalog ++ [""] := by
    rw [linesIn_render_eq_iff]
    apply forall₂_congr
    intro entry member
    rw [reference_eq_of_mem_ofCalls member, newline_mem_referenceOf_iff]
  have count := countP_givesId_render header catalog
  refine ⟨?_, laid, fun _ present _ => mem_linesIn_render_of_spilled header present, count⟩
  intro clean
  have whole : found = lines header catalog ++ [""] := laid.mp clean
  have tight : catalog.entries.flatMap spilled = [] := by
    rw [List.flatMap_eq_nil_iff]
    intro entry member
    have one := (linesIn_render_eq_iff header catalog).mp whole entry member
    rw [spilled, linesIn_eq_singleton one, List.tail_cons]
  refine ⟨by simpa [tight] using count, ?_⟩
  intro line member
  rw [whole, lines, List.append_assoc, List.mem_append, List.mem_append] at member
  rcases member with header | entries | last
  · exact .inl header
  · obtain ⟨entry, present, member⟩ := List.mem_flatMap.mp entries
    rcases List.mem_cons.mp member with empty | member
    · exact .inr (.inl empty)
    · exact .inr (.inr ⟨entry, present, mem_stanza_iff.mp member⟩)
  · exact .inr (.inl (List.mem_singleton.mp last))

/-- Texts that look like lines of a PO file make no lines of their own, and neither does a line feed in the root. -/
theorem linesIn_render_ofCalls_lookalikes :
    let root := "/s\nmsgid \"r\""
    let catalog := Catalog.ofCalls root [.insert
      ⟨"/s\nmsgid \"r\"/a.cs", 7, "x\"\nmsgid \"y", some "\nmsgid \"z\"", none, some "c\r\nmsgid \"d\""⟩]
    (∀ entry ∈ catalog.entries, '\n' ∉ (Catalog.relativePath root entry.record.path).toList) ∧
      (linesIn (render ⟨"en\nmsgid \"l\"", "\n"⟩ catalog)).countP givesId = 2 := by
  intro root catalog
  have closed : ∀ entry ∈ catalog.entries, '\n' ∉ (Catalog.relativePath root entry.record.path).toList := by decide
  exact ⟨closed, ((linesIn_render_ofCalls ⟨"en\nmsgid \"l\"", "\n"⟩ root _).1 closed).1⟩

/-- A line of a file name stands in the PO file as an id that no entry has. -/
theorem linesIn_render_forged :
    let header : Header := ⟨"en", ""⟩
    let catalog := Catalog.ofCalls "/s" [.insert ⟨"/s/a\nmsgid \"x\"\nb.cs", 1, "y", none, none, none⟩]
    let found := linesIn (render header catalog)
    found.countP givesId = 3 ∧ catalog.size = 1 ∧ "msgid \"x\"" ∈ found ∧
      ¬ ("msgid \"x\"" ∈ header.lines ∨ "msgid \"x\"" = "" ∨
        ∃ entry ∈ catalog.entries, StanzaLine entry "msgid \"x\"") := by
  intro header catalog found
  obtain ⟨entry, entries, spills, others⟩ : ∃ entry, catalog.entries = [entry] ∧
      spilled entry = ["msgid \"x\"", "b.cs:1"] ∧ "msgid \"x\"" ∉ stanza entry :=
    ⟨_, rfl, by decide, by decide⟩
  have ids : ["msgid \"x\"", "b.cs:1"].countP givesId = 1 := by decide
  have foreign : "msgid \"x\"" ∉ header.lines := by decide
  refine ⟨?_, by rw [Catalog.size, entries, List.length_singleton], ?_, ?_⟩
  · rw [countP_givesId_render, Catalog.size, entries, List.flatMap_singleton, spills, ids, List.length_singleton]
  · exact mem_linesIn_render_of_spilled header (entries ▸ List.mem_singleton_self entry) (by simp [spills])
  · simpa [← mem_stanza_iff, entries, others] using foreign

end TextHarvest.Po
