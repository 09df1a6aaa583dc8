import TextHarvest.Proofs.CSharp.SourceOrder
import TextHarvest.Proofs.Harvest.Outcome
import TextHarvest.Proofs.Po.Lines
import TextHarvest.Proofs.Xaml.Capture
import TextHarvest.Proofs.Xml.DocumentOrder

/-! # Records are sound and in order

C# sources and XAML sources are searched in ways that have nothing in common, but what is found is of one kind:
`Orderly` says what holds of the records of either, and `extractSource_orderly` that it does. As no record has an empty
id, no entry of a catalog that a run writes can be taken for its header.
-/

namespace TextHarvest

/-- The records of a source are sound and in order: they name the file and have an id and no comment, and their lines
are lines of the source that never decrease. -/
structure Orderly (path source : String) (records : List TextRecord) : Prop where
  path_eq : ∀ record ∈ records, record.path = path
  id_ne : ∀ record ∈ records, record.id ≠ ""
  comment_eq : ∀ record ∈ records, record.comment = none
  ascend : Text.Ascend 1 (1 + source.toList.count '\n') (records.map TextRecord.line)

private theorem CSharp.orderly_extract? {markers : Markers} {path source : String} {records : List TextRecord}
    (extracted : extract? markers path source = some records) : Orderly path source records := by
  have announced : ∀ record ∈ records, ∃ tree, Announces markers path tree record := by
    obtain ⟨trees, _, rfl⟩ := Option.map_eq_some_iff.mp extracted
    intro record member
    obtain ⟨tree, _, made⟩ := List.mem_filterMap.mp member
    exact ⟨tree, Tree.record?_eq_some_iff.mp made⟩
  refine ⟨?_, ?_, ?_, ascend_extract? extracted⟩
  all_goals
    intro record member
    obtain ⟨tree, announces⟩ := announced record member
  · exact announces.path_eq
  · exact announces.id_ne
  · exact announces.comment_eq

namespace Xaml

/-- The record of an attribute value has the id of its extension, which is not empty, the path and the line. -/
theorem exists_of_record? {marker path value : String} {line : Nat} {record : TextRecord}
    (found : record? marker path line value = some record) :
    ∃ id context, id ≠ "" ∧ record = { path, line, id, context } := by
  unfold record? at found
  split_ifs at found
  obtain ⟨captured, capture, rfl⟩ := Option.map_eq_some_iff.mp found
  have given := (capture?_eq_some_iff.mp capture).2
  exact ⟨_, _, by simpa using given, rfl⟩

private theorem extract_eq_ok_iff {marker path source : String} {records : List TextRecord} :
    extract marker path source = .ok records ↔
      ∃ elements, Xml.elements source = .ok elements ∧ records = recordsOf marker path elements := by
  unfold extract
  cases Xml.elements source with
  | error fault => simp
  | ok elements => simp [eq_comm]

/-- The lines of the records of a document ascend with those of its elements. -/
theorem ascend_extract {marker path source : String} {records : List TextRecord}
    (extracted : extract marker path source = .ok records) :
    Text.Ascend 1 (1 + source.toList.count '\n') (records.map TextRecord.line) := by
  obtain ⟨elements, done, rfl⟩ := extract_eq_ok_iff.mp extracted
  have ascend := Xml.ascend_elements done
  have line_eq {element : Xml.Element} {record : TextRecord}
      (member : record ∈ element.values.filterMap (record? marker path element.line)) :
      record.line = element.line := by
    obtain ⟨value, _, found⟩ := List.mem_filterMap.mp member
    obtain ⟨id, context, _, rfl⟩ := exists_of_record? found
    rfl
  refine ascend.of_subset ?_ ?_
  · rw [List.pairwise_map, recordsOf, List.pairwise_flatMap]
    constructor
    · intro element _
      refine List.pairwise_of_forall_mem_list ?_
      intro record member other otherMember
      rw [line_eq member, line_eq otherMember]
    · refine (List.pairwise_map.mp ascend.ordered).imp ?_
      intro element other before record member next nextMember
      rw [line_eq member, line_eq nextMember]
      exact before
  · intro line member
    obtain ⟨record, recorded, rfl⟩ := List.mem_map.mp member
    obtain ⟨element, inside, found⟩ := List.mem_flatMap.mp recorded
    rw [line_eq found]
    exact List.mem_map_of_mem inside

/-- A record of a document names its file, has an id, and has neither a plural nor a comment. -/
theorem orderly_extract {marker path source : String} {records : List TextRecord}
    (extracted : extract marker path source = .ok records) :
    Orderly path source records ∧ ∀ record ∈ records, record.plural = none := by
  have made : ∀ record ∈ records, ∃ line id context, id ≠ "" ∧ record = { path, line, id, context } := by
    obtain ⟨elements, _, rfl⟩ := extract_eq_ok_iff.mp extracted
    intro record member
    obtain ⟨element, _, inside⟩ := List.mem_flatMap.mp member
    obtain ⟨value, _, found⟩ := List.mem_filterMap.mp inside
    exact ⟨element.line, exists_of_record? found⟩
  refine ⟨⟨?_, ?_, ?_, ascend_extract extracted⟩, ?_⟩
  all_goals
    intro record member
    obtain ⟨line, id, context, given, rfl⟩ := made record member
  · rfl
  · exact given
  · rfl
  · rfl

end Xaml

private theorem orderly_extractSource {settings : Settings} {kind : SourceKind} {path source : String}
    {records : List TextRecord} (extracted : extractSource settings kind path source = .ok records) :
    Orderly path source records ∧ (kind = .xaml → ∀ record ∈ records, record.plural = none) := by
  cases kind with
  | csharp =>
    cases found : CSharp.extract? settings.markers path source with
    | none => simp [extractSource, found] at extracted
    | some own =>
      obtain rfl : own = records := by simpa [extractSource, found] using extracted
      exact ⟨CSharp.orderly_extract? found, by rintro ⟨⟩⟩
  | xaml =>
    cases found : Xaml.extract settings.markupMarker path source with
    | error fault => simp [extractSource, found] at extracted
    | ok own =>
      obtain rfl : own = records := by simpa [extractSource, found] using extracted
      obtain ⟨orderly, single⟩ := Xaml.orderly_extract found
      exact ⟨orderly, fun _ => single⟩

/-- No record of a run is without an id. -/
theorem id_ne_of_mem_recordsOf {system : Files.FileSystem} {settings : Settings} {root : String} {all : List Source}
    {record : TextRecord} (member : record ∈ recordsOf system settings root all) : record.id ≠ "" := by
  obtain ⟨source, _, inside⟩ := List.mem_flatMap.mp member
  unfold Source.records at inside
  split at inside
  · next records extracted =>
    unfold Source.extract extractFile at extracted
    split at extracted
    · exact (orderly_extractSource extracted).1.id_ne record inside
    · cases extracted
  · exact absurd inside List.not_mem_nil

/-- Whatever is extracted from a source is sound and in order, and has no plural if the source is XAML. So a run that
goes through writes a catalog in which every entry has an id, and the line that opens the header stands in no other
stanza. -/
theorem extractSource_orderly (settings : Settings) :
    (∀ kind path source records, extractSource settings kind path source = .ok records →
      Orderly path source records ∧ (kind = .xaml → ∀ record ∈ records, record.plural = none)) ∧
    ∀ system request summary, (harvest system settings request).result = .ok summary →
      ∃ root csharp xaml, Ready system settings request root csharp xaml ∧
        let catalog := Catalog.ofStream root (recordsOf system settings root (sources system root csharp xaml))
        (harvest system settings request).system.readBytes request.target =
            .ok (Po.render settings.header catalog).toUTF8 ∧
          ∀ entry ∈ catalog.entries, entry.record.id ≠ "" ∧ "msgid \"\"" ∉ Po.stanza entry := by
  refine ⟨fun _ _ _ _ => orderly_extractSource, ?_⟩
  intro system request summary done
  have ends := harvest_ends system settings request
  rw [done] at ends
  generalize (harvest system settings request).system = after at ends ⊢
  cases ends with
  | @written csharp xaml root _ ready success =>
    obtain ⟨target, resolved, content, _⟩ := writeCatalog_written success
    refine ⟨root, csharp, xaml, ready, Files.FileSystem.readBytes_of_resolve resolved content, ?_⟩
    intro entry member
    obtain ⟨record, first, rfl⟩ := List.mem_map.mp member
    have given := id_ne_of_mem_recordsOf ((firstRecords_sublist _).subset first)
    exact ⟨given, mt (Po.emptyId_mem_stanza_iff _).mp given⟩

/-- A call in an argument on the next line, and two views with a text in common. -/
theorem extractSource_orderly_nested :
    let source := "\nT.GetText(\"a\",\nT.GetText(\"b\", \"c\", 2));"
    let records : List TextRecord := [⟨"a.cs", 2, "a", none, none, none⟩, ⟨"a.cs", 3, "b", none, some "c", none⟩]
    let system := twoViews "<a t=\"\x7bl:Localize 'Hi'\x7d\"/>" "<b t=\"\x7bl:Localize 'Hi'\x7d\"/>"
    extractSource {} .csharp "a.cs" source = .ok records ∧ Orderly "a.cs" source records ∧
      ∃ catalog : Catalog, (harvest system {} ⟨"/", "/t.pot"⟩).system.readBytes "/t.pot" =
          .ok (Po.render ({} : Settings).header catalog).toUTF8 ∧
        ∀ entry ∈ catalog.entries, entry.record.id ≠ "" ∧ "msgid \"\"" ∉ Po.stanza entry := by
  intro source records system
  obtain ⟨sound, named⟩ := extractSource_orderly {}
  have extracted : extractSource {} .csharp "a.cs" source = .ok records := by decide +kernel
  have first : Source.extract system {} "/" ⟨.xaml, ["a.xaml"]⟩ =
      .ok [{ path := "/a.xaml", line := 1, id := "Hi" }] := by
    rw [(extract_twoViews _ _ {}).1]
    decide +kernel
  have second : Source.extract system {} "/" ⟨.xaml, ["b.xaml"]⟩ =
      .ok [{ path := "/b.xaml", line := 1, id := "Hi" }] := by
    rw [(extract_twoViews _ _ {}).2]
    decide +kernel
  have all : ∀ source ∈ sources system "/" (endingIn ".cs") (endingIn ".xaml"),
      ∃ records, source.extract system {} "/" = .ok records := by
    rw [sources_twoViews]
    simp [first, second]
  obtain ⟨summary, done⟩ := ((harvest_ends system {} ⟨"/", "/t.pot"⟩).ok_iff check_default).mpr
    ⟨"/", ⟨check_default, absolute_twoViews _ _, ⟨_, treeAt_twoViews _ _⟩, all⟩, writeCatalog_twoViews _ _ _⟩
  obtain ⟨_, _, _, _, written, ids⟩ := named system ⟨"/", "/t.pot"⟩ summary done
  exact ⟨extracted, (sound .csharp "a.cs" source records extracted).1, _, written, ids⟩

end TextHarvest
