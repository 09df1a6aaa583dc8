import TextHarvest.Command.Run
import TextHarvest.Proofs.Files.Again
import TextHarvest.Proofs.Harvest.Run

/-! # What a run leaves behind

A run that goes through writes one file, the catalog of the first records of all sources, and touches no other
(`harvest_writes_catalog`). A run that fails changes no file, and before the catalog is written it changes nothing at
all; it fails at the first directory that may not be read, or else with the first fault in the order of the sources
(`harvest_failure`).
-/

namespace TextHarvest

open Files (FileSystem)

theorem makeParent_adds (system : FileSystem) (path : String) :
    FileSystem.AddsDirectories system (makeParent system path).1 := by
  unfold makeParent
  split
  · exact .refl system
  · rename_i parent _
    have adds := FileSystem.makeDirectories_adds system parent
    split <;> (rename_i made; rwa [made] at adds)

/-- The faults that come up while a catalog is written. -/
def HarvestFault.isWriting : HarvestFault → Bool
  | noDirectory _ _ => true
  | notWritten _ _ => true
  | _ => false

private theorem makeParent_fault {system grown : FileSystem} {path : String} {fault : HarvestFault}
    (failed : makeParent system path = (grown, .error fault)) : fault.isWriting = true := by
  unfold makeParent at failed
  split at failed
  · cases failed
  · split at failed
    · cases failed
    · cases failed
      rfl

/-- A catalog that cannot be written leaves nothing but directories. -/
theorem writeCatalog_failed {system after : FileSystem} {path content : String} {fault : HarvestFault}
    (failed : writeCatalog system path content = (after, .error fault)) :
    FileSystem.AddsDirectories system after ∧ fault.isWriting = true := by
  have adds := makeParent_adds system path
  unfold writeCatalog at failed
  split at failed
  · rename_i grown cause parent
    cases failed
    rw [parent] at adds
    exact ⟨adds, makeParent_fault parent⟩
  · rename_i grown parent
    rw [parent] at adds
    split at failed
    · cases failed
    · cases failed
      exact ⟨adds, rfl⟩

/-- A catalog that was written stands where its path leads, and every other file is as it was. -/
theorem writeCatalog_written {system after : FileSystem} {path content : String}
    (success : writeCatalog system path content = (after, .ok ())) :
    ∃ target, after.resolve path true = .ok (.node target) ∧
      after.root.get? target = some (.file content.toUTF8) ∧
      ∀ location, location ≠ target → ∀ bytes,
        after.root.get? location = some (.file bytes) ↔ system.root.get? location = some (.file bytes) := by
  have adds := makeParent_adds system path
  unfold writeCatalog at success
  split at success
  · cases success
  · rename_i grown parent
    rw [parent] at adds
    split at success
    · rename_i written write
      cases success
      obtain ⟨target, resolved, _, changed⟩ := FileSystem.writeBytes_spec write
      refine ⟨target, resolved, ?_, ?_⟩
      · rw [← Files.Node.labelAt_eq_file_iff, changed, if_pos rfl]
      · intro location other bytes
        rw [← adds.file_iff, ← Files.Node.labelAt_eq_file_iff, changed, if_neg other, Files.Node.labelAt_eq_file_iff]
    · cases success

private theorem Ready.not_firstFault {system : FileSystem} {settings : Settings} {request : Request} {root : String}
    {csharp xaml : Glob.Pattern} {fault : ExtractionFault} (ready : Ready system settings request root csharp xaml) :
    ¬ FirstFault system settings root (sources system root csharp xaml) fault := by
  rintro ⟨before, source, after, whole, _, bad⟩
  obtain ⟨records, fine⟩ := ready.extracted source (by simp [whole])
  cases bad.symm.trans fine

/-- What fails in writing is no fault from before it. -/
private theorem error_ne_of_isWriting {late early : HarvestFault} (writing : late.isWriting = true)
    (other : early.isWriting = false) : (.error late : Except HarvestFault Summary) ≠ .error early := by
  rintro ⟨⟩
  cases writing.symm.trans other

namespace Ends

variable {system after : FileSystem} {settings : Settings} {request : Request} {result : Except HarvestFault Summary}
  {csharp xaml : Glob.Pattern} {root : String}

/-- A run that fails leaves nothing but directories. -/
theorem adds {fault : HarvestFault} (ends : Ends system settings request after (.error fault)) :
    FileSystem.AddsDirectories system after := by
  cases ends with
  | badSettings => exact .refl system
  | noSource => exact .refl system
  | notSearched => exact .refl system
  | badSource => exact .refl system
  | notWritten _ failed => exact (writeCatalog_failed failed).1

private theorem unchanged {fault : HarvestFault} (ends : Ends system settings request after (.error fault))
    (early : ¬ ∃ root csharp xaml, Ready system settings request root csharp xaml) : after = system := by
  cases ends with
  | badSettings => rfl
  | noSource => rfl
  | notSearched => rfl
  | badSource => rfl
  | notWritten ready _ => exact absurd ⟨_, _, _, ready⟩ early

/-- What the search of the sources fails with, the run fails with too, and with nothing else of that kind. -/
theorem scan_iff (ends : Ends system settings request after result)
    (checked : settings.check = .ok (csharp, xaml))
    (absolute : Files.Path.absolute? system.workingPath request.source = some root) (fault : Files.ScanFault) :
    result = .error (.scan root fault) ↔ system.treeAt root = .error fault := by
  cases ends with
  | badSettings refused => cases checked.symm.trans refused
  | noSource _ nowhere => cases absolute.symm.trans nowhere
  | notSearched _ same failed =>
    cases absolute.symm.trans same
    simp [failed]
  | badSource _ same listed _ =>
    cases absolute.symm.trans same
    simp [listed]
  | notWritten ready failed =>
    cases absolute.symm.trans ready.absolute
    obtain ⟨tree, listed⟩ := ready.listed
    exact iff_of_false (error_ne_of_isWriting (writeCatalog_failed failed).2 rfl) (by simp [listed])
  | written ready _ =>
    cases absolute.symm.trans ready.absolute
    obtain ⟨tree, listed⟩ := ready.listed
    simp [listed]

/-- Where the sources can be searched, the first fault among them is what the run fails with. -/
theorem extraction_iff (ends : Ends system settings request after result)
    (checked : settings.check = .ok (csharp, xaml))
    (absolute : Files.Path.absolute? system.workingPath request.source = some root) {tree : Files.Node}
    (listed : system.treeAt root = .ok tree) (fault : ExtractionFault) :
    result = .error (.extraction fault) ↔ FirstFault system settings root (sources system root csharp xaml) fault := by
  cases ends with
  | badSettings refused => cases checked.symm.trans refused
  | noSource _ nowhere => cases absolute.symm.trans nowhere
  | notSearched _ same failed =>
    cases absolute.symm.trans same
    cases listed.symm.trans failed
  | badSource sameSettings same _ bad =>
    cases checked.symm.trans sameSettings
    cases absolute.symm.trans same
    rw [← findSome?_fault?_eq_some_iff] at bad ⊢
    simp [bad]
  | notWritten ready failed =>
    cases checked.symm.trans ready.checked
    cases absolute.symm.trans ready.absolute
    exact iff_of_false (error_ne_of_isWriting (writeCatalog_failed failed).2 rfl) ready.not_firstFault
  | written ready _ =>
    cases checked.symm.trans ready.checked
    cases absolute.symm.trans ready.absolute
    exact iff_of_false (by simp) ready.not_firstFault

/-- A run goes through just where everything is ready and the catalog can be written. -/
theorem ok_iff (ends : Ends system settings request after result) (checked : settings.check = .ok (csharp, xaml)) :
    (∃ summary, result = .ok summary) ↔
      ∃ root, Ready system settings request root csharp xaml ∧
        (writeCatalog system request.target (catalogText system settings root csharp xaml)).2 = .ok () := by
  constructor
  · rintro ⟨summary, rfl⟩
    cases ends with
    | written ready success =>
      cases checked.symm.trans ready.checked
      exact ⟨_, ready, by rw [success]⟩
  · rintro ⟨root, ready, done⟩
    cases ends with
    | badSettings refused => cases checked.symm.trans refused
    | noSource _ nowhere => cases ready.absolute.symm.trans nowhere
    | notSearched _ same failed =>
      cases ready.absolute.symm.trans same
      obtain ⟨tree, listed⟩ := ready.listed
      cases listed.symm.trans failed
    | badSource sameSettings same _ bad =>
      cases checked.symm.trans sameSettings
      cases ready.absolute.symm.trans same
      exact absurd bad ready.not_firstFault
    | notWritten sameReady failed =>
      cases checked.symm.trans sameReady.checked
      cases ready.absolute.symm.trans sameReady.absolute
      rw [failed] at done
      cases done
    | written => exact ⟨_, rfl⟩

end Ends

/-- The tool hands on what its run leaves behind, and ends with the code 1 just where the run failed. -/
theorem Command.run_localize (system : FileSystem) (color : Bool) {arguments : List String} {request : Request}
    {quiet : Bool} (parsed : Command.parse arguments = .ok (.localize request.source request.target quiet)) :
    (Command.run system color arguments).system = (harvest system {} request).system ∧
      ((Command.run system color arguments).exitCode = 1 ↔
        ∃ fault, (harvest system {} request).result = .error fault) := by
  simp only [Command.run, parsed, Command.runLocalize]
  cases (harvest system {} request).result with
  | ok summary => simp
  | error fault => simp

/-- What is extracted from a file that holds a text and may be read. -/
theorem extractFile_of_readBytes {system : FileSystem} {path text : String} (opened : system.isSealed path = false)
    (read : system.readBytes path = .ok text.toUTF8) (settings : Settings) (kind : SourceKind) :
    extractFile system settings kind path = extractSource settings kind path text := by
  have decoded : String.fromUTF8? text.toUTF8 = some text := dif_pos text.isValidUTF8
  simp only [extractFile, readText, opened, Bool.false_eq_true, ↓reduceIte, read, decoded]

/-! ## A directory with two views -/

/-- A file system with two XAML sources at its root. -/
def twoViews (first second : String) : FileSystem where
  root := .directory [("a.xaml", .file first.toUTF8), ("b.xaml", .file second.toUTF8)]
  workingDirectory := []

/-- The same, in a directory that may not be read. -/
def sealedViews (first second : String) : FileSystem :=
  { twoViews first second with sealed := [[]] }

def endingIn (ending : String) : Glob.Pattern :=
  ⟨.anyRun :: ending.toList.map .literal⟩

theorem check_default : Settings.check {} = .ok (endingIn ".cs", endingIn ".xaml") := by
  decide

section TwoViews

variable (first second : String)

theorem isPlain_twoViews : (twoViews first second).root.IsPlain := by
  apply Files.Node.isPlain_directory
  · simp [Files.Node.IsSound, FileSystem.IsName]
  · simp [Files.Node.isPlain_file]

theorem absolute_twoViews : Files.Path.absolute? (twoViews first second).workingPath "/" = some "/" := by
  have working : (twoViews first second).workingPath = "/" := rfl
  rw [working]
  decide +kernel

private theorem locate_twoViews : (twoViews first second).locate "/" = .ok ([], (twoViews first second).root) := by
  have parts : Files.Path.parts "/" = ["", ""] := by decide
  simp [FileSystem.locate, FileSystem.resolve, FileSystem.resolveFrom, Files.Path.isAbsolute, parts, twoViews]

private theorem node?_twoViews : (twoViews first second).node? "/" = .ok (twoViews first second).root :=
  FileSystem.node?_eq_ok_iff.mpr ⟨[], locate_twoViews first second⟩

private theorem isDirectory_twoViews : (twoViews first second).isDirectory "/" = true := by
  rw [FileSystem.isDirectory, node?_twoViews]
  rfl

private theorem listable_twoViews : (twoViews first second).Listable :=
  List.forall_mem_nil _

theorem treeAt_twoViews : (twoViews first second).treeAt "/" = .ok (twoViews first second).root :=
  (listable_twoViews first second).treeAt_eq (isPlain_twoViews first second).isTidy (node?_twoViews first second)

private theorem isSealed_twoViews (path : String) : (twoViews first second).isSealed path = false :=
  FileSystem.isSealed_eq_false_iff.mpr fun _ _ _ => List.not_mem_nil

private theorem firstSealed_sealedViews : (sealedViews first second).FirstSealed "/" [] := by
  refine ⟨[], _, locate_twoViews first second, rfl, List.mem_singleton_self _, ?_⟩
  intro other _ member
  exact .inl (List.mem_singleton.mp member)

private theorem selected_twoViews : (twoViews first second).selected "/" (endingIn ".cs") = [] ∧
    (twoViews first second).selected "/" (endingIn ".xaml") = [["a.xaml"], ["b.xaml"]] := by
  have ordered : "a.xaml" ≤ "b.xaml" := by decide
  have code : (endingIn ".cs").selects "a.xaml" = false ∧ (endingIn ".cs").selects "b.xaml" = false := by decide
  have views : (endingIn ".xaml").selects "a.xaml" = true ∧ (endingIn ".xaml").selects "b.xaml" = true := by decide
  simp only [FileSystem.selected_of_treeAt (treeAt_twoViews first second)]
  simp [twoViews, Files.Node.walk, Files.Node.walkEntries, Files.Node.visit, FileSystem.isSelected, code, views,
    List.mergeSort, ordered]

theorem sources_twoViews : sources (twoViews first second) "/" (endingIn ".cs") (endingIn ".xaml") =
    [⟨.xaml, ["a.xaml"]⟩, ⟨.xaml, ["b.xaml"]⟩] := by
  simp [sources, selected_twoViews]

theorem extract_twoViews (settings : Settings) :
    Source.extract (twoViews first second) settings "/" ⟨.xaml, ["a.xaml"]⟩ =
        extractSource settings .xaml "/a.xaml" first ∧
      Source.extract (twoViews first second) settings "/" ⟨.xaml, ["b.xaml"]⟩ =
        extractSource settings .xaml "/b.xaml" second := by
  have paths : Files.pathBelow "/" ["a.xaml"] = "/a.xaml" ∧ Files.pathBelow "/" ["b.xaml"] = "/b.xaml" := by decide
  have plain := isPlain_twoViews first second
  have found := node?_twoViews first second
  constructor
  · rw [← paths.1]
    exact extractFile_of_readBytes (isSealed_twoViews ..)
      (FileSystem.readBytes_pathBelow plain found rfl (by simp)) settings .xaml
  · rw [← paths.2]
    exact extractFile_of_readBytes (isSealed_twoViews ..)
      (FileSystem.readBytes_pathBelow plain found rfl (by simp)) settings .xaml

theorem writeCatalog_twoViews (text : String) : (writeCatalog (twoViews first second) "/t.pot" text).2 = .ok () := by
  have parent : Files.Path.parent? "/t.pot" = some "/" := by decide +kernel
  have made : (twoViews first second).makeDirectories "/" = (twoViews first second, .ok ()) :=
    FileSystem.makeDirectories_of_isDirectory (isDirectory_twoViews first second)
  have noSlash : Files.Path.endsInSlash "/t.pot" = false := by decide
  have parts : Files.Path.parts "/t.pot" = ["", "t.pot"] := by decide
  have free : (twoViews first second).resolve "/t.pot" true = .ok (.free [] "t.pot" false) := by
    simp [FileSystem.resolve, FileSystem.resolveFrom, Files.Path.isAbsolute, parts, twoViews, Files.Node.lookup_cons]
  simp [writeCatalog, makeParent, parent, made, FileSystem.writeBytes, noSlash, free]

end TwoViews

/-- A run that fails changes no file, and where it does not come to writing the catalog it changes nothing at all. It
fails if there is no directory with the sources, or at the first directory in it that may not be read. Otherwise it
fails with the first fault in the order of the sources, the C# sources before the XAML sources. The tool then ends with
the code 1. -/
theorem harvest_failure (system : FileSystem) (settings : Settings) (request : Request) :
    (∀ fault, (harvest system settings request).result = .error fault →
      (∀ location content, (harvest system settings request).system.root.get? location = some (.file content) ↔
        system.root.get? location = some (.file content)) ∧
      ((¬ ∃ root csharp xaml, Ready system settings request root csharp xaml) →
        (harvest system settings request).system = system)) ∧
    (∀ root csharp xaml, settings.check = .ok (csharp, xaml) →
      Files.Path.absolute? system.workingPath request.source = some root →
      ((harvest system settings request).result = .error (.scan root .notFound) ↔ system.isDirectory root = false) ∧
      (system.root.IsTidy → ∀ location,
        (harvest system settings request).result = .error (.scan root (.sealed location)) ↔
          system.FirstSealed root location) ∧
      ∀ csharpFiles xamlFiles, system.scan root csharp = .ok csharpFiles → system.scan root xaml = .ok xamlFiles →
        ∀ fault, (harvest system settings request).result = .error (.extraction fault) ↔
          ∃ before source after,
            csharpFiles.map (Source.mk .csharp) ++ xamlFiles.map (Source.mk .xaml) = before ++ source :: after ∧
            (∀ earlier ∈ before, ∃ records, earlier.extract system settings root = .ok records) ∧
            source.extract system settings root = .error fault) ∧
    (∀ color arguments quiet, settings = {} →
      Command.parse arguments = .ok (.localize request.source request.target quiet) →
      (Command.run system color arguments).system = (harvest system settings request).system ∧
      ((Command.run system color arguments).exitCode = 1 ↔
        ∃ fault, (harvest system settings request).result = .error fault)) := by
  have ends := harvest_ends system settings request
  refine ⟨?_, ?_, ?_⟩
  · intro fault failed
    rw [failed] at ends
    exact ⟨ends.adds.file_iff, ends.unchanged⟩
  · intro root csharp xaml checked absolute
    refine ⟨?_, ?_, ?_⟩
    · rw [ends.scan_iff checked absolute, FileSystem.treeAt_eq_notFound_iff]
    · intro tidy location
      rw [ends.scan_iff checked absolute, FileSystem.treeAt_eq_sealed_iff tidy]
    · intro csharpFiles xamlFiles csharpScanned xamlScanned fault
      obtain ⟨tree, listed⟩ := FileSystem.exists_treeAt_of_scan csharpScanned
      cases (FileSystem.scan_of_treeAt listed csharp).symm.trans csharpScanned
      cases (FileSystem.scan_of_treeAt listed xaml).symm.trans xamlScanned
      exact ends.extraction_iff checked absolute listed fault
  · rintro color arguments quiet rfl parsed
    exact Command.run_localize system color parsed

/-- With two bad sources the run fails with the fault of the first, and where the directory may not be read it fails
with that. Both leave the file system as it was. -/
theorem harvest_failure_twoViews :
    let request : Request := ⟨"/", "/t.pot"⟩
    let fault : HarvestFault := .extraction (.notXml "/a.xaml" (.misshapen 1 .unclosedElement))
    (harvest (twoViews "<a>" "<b") {} request).result = .error fault ∧
      (harvest (twoViews "<a>" "<b") {} request).system = twoViews "<a>" "<b" ∧
      (Command.run (twoViews "<a>" "<b") false ["localize", "/", "/t.pot"]).exitCode = 1 ∧
      (harvest (sealedViews "<a>" "<b") {} request).result = .error (.scan "/" (.sealed [])) ∧
      (harvest (sealedViews "<a>" "<b") {} request).system = sealedViews "<a>" "<b" := by
  intro request fault
  obtain ⟨frame, first, tool⟩ := harvest_failure (twoViews "<a>" "<b") {} request
  have bad : Source.extract (twoViews "<a>" "<b") {} "/" ⟨.xaml, ["a.xaml"]⟩ =
      .error (.notXml "/a.xaml" (.misshapen 1 .unclosedElement)) := by
    rw [(extract_twoViews "<a>" "<b" {}).1]
    decide +kernel
  have firstFault : FirstFault (twoViews "<a>" "<b") {} "/"
      (sources (twoViews "<a>" "<b") "/" (endingIn ".cs") (endingIn ".xaml"))
      (.notXml "/a.xaml" (.misshapen 1 .unclosedElement)) :=
    ⟨[], _, _, sources_twoViews "<a>" "<b", by simp, bad⟩
  have scanned := FileSystem.scan_of_treeAt (treeAt_twoViews "<a>" "<b")
  obtain ⟨_, _, found⟩ := first "/" _ _ check_default (absolute_twoViews _ _)
  have failed := (found _ _ (scanned _) (scanned _) _).mpr firstFault
  have notReady : ¬ ∃ root csharp xaml, Ready (twoViews "<a>" "<b") {} request root csharp xaml := by
    rintro ⟨root, csharp, xaml, ready⟩
    cases check_default.symm.trans ready.checked
    cases (absolute_twoViews _ _).symm.trans ready.absolute
    exact ready.not_firstFault firstFault
  have parsed : Command.parse ["localize", "/", "/t.pot"] = .ok (.localize "/" "/t.pot" false) := by decide +kernel
  have firstSealed := firstSealed_sealedViews "<a>" "<b"
  have tidy : (sealedViews "<a>" "<b").root.IsTidy := (isPlain_twoViews "<a>" "<b").isTidy
  obtain ⟨sealedFrame, stopped, _⟩ := harvest_failure (sealedViews "<a>" "<b") {} request
  obtain ⟨_, unsearched, _⟩ := stopped "/" _ _ check_default (absolute_twoViews "<a>" "<b")
  have notSearched := (unsearched tidy _).mpr firstSealed
  have sealedNotReady : ¬ ∃ root csharp xaml, Ready (sealedViews "<a>" "<b") {} request root csharp xaml := by
    rintro ⟨root, csharp, xaml, ready⟩
    cases (absolute_twoViews "<a>" "<b").symm.trans ready.absolute
    obtain ⟨tree, listed⟩ := ready.listed
    cases ((FileSystem.treeAt_eq_sealed_iff tidy).mpr firstSealed).symm.trans listed
  exact ⟨failed, (frame _ failed).2 notReady, (tool false _ false rfl parsed).2.mpr ⟨fault, failed⟩, notSearched,
    (sealedFrame _ notSearched).2 sealedNotReady⟩

/-- Where all directories may be read, a run goes through if the sources are in order and the catalog can be written. It
then writes the catalog of the first records of all sources, and no other file. -/
theorem harvest_writes_catalog (system : FileSystem) (settings : Settings) (request : Request)
    {csharp xaml : Glob.Pattern} (checked : settings.check = .ok (csharp, xaml)) (plain : system.root.IsPlain)
    (listable : system.Listable) :
    (∀ root, system.ListsFiles root csharp (system.selected root csharp) ∧
      system.ListsFiles root xaml (system.selected root xaml)) ∧
    ((∃ summary, (harvest system settings request).result = .ok summary) ↔
      ∃ root, Files.Path.absolute? system.workingPath request.source = some root ∧ system.isDirectory root = true ∧
        (∀ source ∈ sources system root csharp xaml,
          ∃ records, source.extract system settings root = .ok records) ∧
        (writeCatalog system request.target (catalogText system settings root csharp xaml)).2 = .ok ()) ∧
    ∀ root summary, Files.Path.absolute? system.workingPath request.source = some root →
      (harvest system settings request).result = .ok summary →
      let stream := recordsOf system settings root (sources system root csharp xaml)
      let catalog : Catalog := { root, entries := (firstRecords stream).map (Catalog.entryOf root) }
      (harvest system settings request).system.readBytes request.target =
          .ok (Po.render settings.header catalog).toUTF8 ∧
        (∃ target, (harvest system settings request).system.resolve request.target true = .ok (.node target) ∧
          ∀ location, location ≠ target → ∀ content,
            (harvest system settings request).system.root.get? location = some (.file content) ↔
              system.root.get? location = some (.file content)) ∧
        summary.csharpFiles = (system.selected root csharp).length ∧
        summary.xamlFiles = (system.selected root xaml).length ∧
        summary.textsFound = stream.length ∧
        summary.entryCount = (stream.map (·.id)).toFinset.card ∧
        summary.entryCount + summary.duplicateCount = summary.textsFound ∧
        summary.target = request.target := by
  have ends := harvest_ends system settings request
  refine ⟨?_, ?_, ?_⟩
  · intro root
    exact ⟨FileSystem.listsFiles_selected plain listable root csharp,
      FileSystem.listsFiles_selected plain listable root xaml⟩
  · rw [ends.ok_iff checked]
    constructor
    · rintro ⟨root, ready, done⟩
      obtain ⟨tree, listed⟩ := ready.listed
      obtain ⟨_, _, _, _, found⟩ := FileSystem.exists_of_treeAt listed
      exact ⟨root, ready.absolute, found, ready.extracted, done⟩
    · rintro ⟨root, absolute, found, extracted, done⟩
      exact ⟨root, ⟨checked, absolute, listable.exists_treeAt plain.isTidy found, extracted⟩, done⟩
  · intro root summary absolute done stream catalog
    rw [done] at ends
    generalize (harvest system settings request).system = after at ends ⊢
    cases ends with
    | written ready success =>
      cases checked.symm.trans ready.checked
      cases absolute.symm.trans ready.absolute
      obtain ⟨target, resolved, content, others⟩ := writeCatalog_written success
      refine ⟨FileSystem.readBytes_of_resolve resolved content, ⟨target, resolved, others⟩, rfl, rfl, rfl, ?_, ?_, rfl⟩
      · exact Catalog.size_ofStream root stream
      · exact (Catalog.inStep_ofStream root stream).size_add_duplicates

/-- Two sources with a text in common make a catalog of two entries. -/
theorem harvest_writes_catalog_twoViews :
    let system := twoViews "<a t=\"\x7bl:Localize 'Hi'\x7d\"/>"
      "<b t=\"\x7bl:Localize 'Hi'\x7d\" u=\"\x7bl:Localize 'menu//Ho'\x7d\"/>"
    Settings.check {} = .ok (endingIn ".cs", endingIn ".xaml") ∧ system.root.IsPlain ∧ system.Listable ∧
      ∃ summary, (harvest system {} ⟨"/", "/t.pot"⟩).result = .ok summary ∧ summary.xamlFiles = 2 ∧
        summary.textsFound = 3 ∧ summary.entryCount = 2 ∧ summary.duplicateCount = 1 := by
  intro system
  obtain ⟨_, success, holds⟩ := harvest_writes_catalog system {} ⟨"/", "/t.pot"⟩ check_default
    (isPlain_twoViews _ _) (listable_twoViews _ _)
  have first : Source.extract system {} "/" ⟨.xaml, ["a.xaml"]⟩ =
      .ok [{ path := "/a.xaml", line := 1, id := "Hi" }] := by
    rw [(extract_twoViews _ _ {}).1]
    decide +kernel
  have second : Source.extract system {} "/" ⟨.xaml, ["b.xaml"]⟩ =
      .ok [{ path := "/b.xaml", line := 1, id := "Hi" },
        { path := "/b.xaml", line := 1, id := "Ho", context := some "menu" }] := by
    rw [(extract_twoViews _ _ {}).2]
    decide +kernel
  have extracted : ∀ source ∈ sources system "/" (endingIn ".cs") (endingIn ".xaml"),
      ∃ records, source.extract system {} "/" = .ok records := by
    rw [sources_twoViews]
    simp [first, second]
  obtain ⟨summary, done⟩ := success.mpr
    ⟨"/", absolute_twoViews _ _, isDirectory_twoViews _ _, extracted, writeCatalog_twoViews _ _ _⟩
  obtain ⟨_, _, _, views, texts, entries, balance, _⟩ := holds "/" summary (absolute_twoViews _ _) done
  have ids : (recordsOf system {} "/" (sources system "/" (endingIn ".cs") (endingIn ".xaml"))).map (·.id) =
      ["Hi", "Hi", "Ho"] := by
    rw [sources_twoViews]
    simp [recordsOf, Source.records, first, second]
  rw [(selected_twoViews _ _).2] at views
  rw [← List.length_map (·.id), ids] at texts
  rw [ids] at entries
  have two : summary.entryCount = 2 := entries.trans (by decide)
  refine ⟨check_default, isPlain_twoViews _ _, listable_twoViews _ _, summary, done, views, texts, two, ?_⟩
  rw [texts, two] at balance
  exact Nat.add_left_cancel balance

end TextHarvest
