import TextHarvest.Proofs.Files.Again
import TextHarvest.Proofs.Harvest.Outcome

/-! # A run after a run

A run writes into the tree that the next run searches. `Rewritten` says what a catalog changes there, and `Apart` when a
search does not come upon it: the search then selects the same files (`Rewritten.selected_eq`) and reads the same in
them (`Rewritten.readBytes_eq`). So the next run gathers what the first gathered, and repeats it (`harvest_harvest`).
Where a link leads from the catalog to a source, it does not (`harvest_overwrites_source`).
-/

namespace TextHarvest

open Files (FileSystem Node)

/-- One file was written, with the directories that it stands in; every other file and every link is as it was, and what
may not be read stood there before. -/
structure Rewritten (system after : FileSystem) (catalog : List String) (content : ByteArray) : Prop where
  workingDirectory_eq : after.workingDirectory = system.workingDirectory
  grows : system.root.Grows after.root
  get?_catalog : after.root.get? catalog = some (.file content)
  get?_iff : ∀ location, location ≠ catalog → ∀ node, node.label ≠ .directory →
    (after.root.get? location = some node ↔ system.root.get? location = some node)
  of_sealed : ∀ location ∈ after.sealed, location ∈ system.sealed ∧
    (after.root.labelAt location = some .directory → system.root.labelAt location = some .directory)

private theorem isTidy_makeParent {system : FileSystem} (tidy : system.root.IsTidy) (path : String) :
    (makeParent system path).1.root.IsTidy := by
  unfold makeParent
  split
  · exact tidy
  · rename_i parent _
    have made := FileSystem.isTidy_makeChain (FileSystem.chainOf (parent.length + 1) parent) tidy
    split <;> (rename_i done; rw [FileSystem.makeDirectories] at done; rwa [done] at made)

/-- Making the directory of a file again changes nothing, also when more has been written meanwhile. -/
theorem makeParent_again {system grown after : FileSystem} {path : String}
    (made : makeParent system path = (grown, .ok ())) (sameStart : after.workingDirectory = grown.workingDirectory)
    (grows : grown.root.Grows after.root) : makeParent after path = (after, .ok ()) := by
  unfold makeParent at made ⊢
  split at made
  · rfl
  · rename_i parent above
    split at made
    · rename_i done
      cases made
      have again : after.makeDirectories parent = (after, .ok ()) := by
        by_cases empty : parent = ""
        · subst parent
          rfl
        · exact FileSystem.makeDirectories_of_isDirectory (FileSystem.isDirectory_of_grows sameStart grows
            (FileSystem.isDirectory_of_makeDirectories empty done))
      simp only [again]
    · cases made

/-- A catalog that was written can be written again, and nothing changes. -/
theorem writeCatalog_again {system after : FileSystem} {path content : String}
    (success : writeCatalog system path content = (after, .ok ())) :
    (∃ catalog, after.resolve path true = .ok (.node catalog) ∧ Rewritten system after catalog content.toUTF8) ∧
      (system.root.IsTidy → after.root.IsTidy) ∧ writeCatalog after path content = (after, .ok ()) := by
  have adds := makeParent_adds system path
  have tidied := fun tidy => @isTidy_makeParent system tidy path
  unfold writeCatalog at success
  split at success
  · cases success
  · rename_i grown parent
    rw [parent] at adds tidied
    split at success
    · rename_i written write
      cases success
      obtain ⟨catalog, resolved, sameStart, changed⟩ := FileSystem.writeBytes_spec write
      have grows := FileSystem.grows_of_writeBytes write
      refine ⟨⟨catalog, resolved, ?_⟩, fun tidy => FileSystem.isTidy_writeBytes (tidied tidy) write, ?_⟩
      · refine ⟨sameStart.trans adds.workingDirectory_eq, fun location kind found => grows _ _ (adds.grows _ _ found),
          ?_, ?_, ?_⟩
        · rw [← Node.labelAt_eq_file_iff, changed, if_pos rfl]
        · intro location other node solid
          rw [Node.get?_iff_labelAt solid, Node.get?_iff_labelAt solid, changed, if_neg other]
          rcases adds.labelAt_or location with same | ⟨absent, added⟩
          · rw [same]
          · simp [absent, added, solid.symm]
        · intro location member
          obtain ⟨already, same⟩ := adds.of_sealed location (FileSystem.sealed_of_writeBytes write location member)
          refine ⟨already, ?_⟩
          rw [changed, ← same]
          split_ifs
          · simp
          · exact id
      · simp only [writeCatalog, makeParent_again parent sameStart grows, FileSystem.writeBytes_again write]
    · cases success

/-! ## What a second search finds -/

/-- The catalog stays out of a search: its name is not selected, and every link with a selected name that leads to a
file in the end led to another file before. -/
structure Apart (system after : FileSystem) (root : String) (pattern : Glob.Pattern) (catalog : List String) :
    Prop where
  name : ∀ name, catalog.getLast? = some name → pattern.selects name = false
  link : ∀ node below target name, system.node? root = .ok node → node.get? below = some (.link target) →
    below.getLast? = some name → pattern.selects name = true → after.isFile (Files.pathBelow root below) = true →
    ∃ location, location ≠ catalog ∧ system.resolve (Files.pathBelow root below) true = .ok (.node location)

namespace Rewritten

variable {system after : FileSystem} {catalog : List String} {content : ByteArray} {root : String}
  {pattern : Glob.Pattern}

/-- The directory that is searched stands where it stood. -/
theorem exists_locate (rewritten : Rewritten system after catalog content) {base : List String}
    {entries : List (String × Node)} (located : system.locate root = .ok (base, .directory entries)) :
    ∃ others, after.locate root = .ok (base, .directory others) := by
  obtain ⟨resolved, here⟩ := FileSystem.locate_eq_ok_iff.mp located
  obtain ⟨others, there⟩ := Node.kindAt_eq_directory_iff.mp
    (rewritten.grows _ _ (Node.kindAt_eq_directory_iff.mpr ⟨entries, here⟩))
  have again := FileSystem.resolve_of_grows rewritten.workingDirectory_eq rewritten.grows resolved
  exact ⟨others, FileSystem.locate_eq_ok_iff.mpr ⟨again, there⟩⟩

/-- What could be searched can be searched again. -/
theorem exists_treeAt (rewritten : Rewritten system after catalog content) (tidy : system.root.IsTidy)
    (stillTidy : after.root.IsTidy) {tree : Node} (listed : system.treeAt root = .ok tree) :
    ∃ base other, system.locate root = .ok (base, tree) ∧ after.locate root = .ok (base, other) ∧
      after.treeAt root = .ok other := by
  obtain ⟨base, entries, rfl, located, _⟩ := FileSystem.exists_of_treeAt listed
  obtain ⟨others, again⟩ := rewritten.exists_locate located
  refine ⟨base, _, located, again, (FileSystem.treeAt_eq_ok_iff stillTidy again).mpr ?_⟩
  intro location here member
  obtain ⟨already, before⟩ := rewritten.of_sealed _ member
  refine (FileSystem.treeAt_eq_ok_iff tidy located).mp listed location ?_ already
  rw [Node.labelAt_append (FileSystem.get?_of_locate located),
    Node.labelAt_append (FileSystem.get?_of_locate again)] at before
  exact before here

/-- What a path led to before it leads to still, and if it is not the catalog it is a file just where it was one. -/
theorem isFile_iff (rewritten : Rewritten system after catalog content) {path : String} {location : List String}
    (other : location ≠ catalog) (resolved : system.resolve path true = .ok (.node location)) :
    after.isFile path = true ↔ system.isFile path = true := by
  have again := FileSystem.resolve_of_grows rewritten.workingDirectory_eq rewritten.grows resolved
  have same (bytes : ByteArray) := rewritten.get?_iff location other (.file bytes) (by simp [Node.label])
  simp only [FileSystem.isFile_iff, again, resolved]
  simp [same]

private theorem isSelected_eq (rewritten : Rewritten system after catalog content)
    (apart : Apart system after root pattern catalog) {tree : Node} {location : List String} {node : Node}
    (found : system.node? root = .ok tree) (here : tree.get? location = some node)
    (solid : node.label ≠ .directory) :
    after.isSelected root pattern location node = system.isSelected root pattern location node := by
  rw [Bool.eq_iff_iff]
  cases node with
  | directory own => exact absurd rfl solid
  | file bytes => rw [FileSystem.isSelected_file_iff, FileSystem.isSelected_file_iff]
  | link target =>
    rw [FileSystem.isSelected_link_iff, FileSystem.isSelected_link_iff]
    refine and_congr_right ?_
    rintro ⟨name, last, chosen⟩
    constructor
    · intro leads
      obtain ⟨place, other, resolved⟩ := apart.link _ _ _ _ found here last chosen leads
      exact (rewritten.isFile_iff other resolved).mp leads
    · exact FileSystem.isFile_of_grows rewritten.workingDirectory_eq rewritten.grows

/-- A second search selects the same files. -/
theorem selected_eq (rewritten : Rewritten system after catalog content) (tidy : system.root.IsTidy)
    (stillTidy : after.root.IsTidy) {tree : Node} (listed : system.treeAt root = .ok tree)
    (apart : Apart system after root pattern catalog) :
    after.selected root pattern = system.selected root pattern := by
  obtain ⟨base, other, located, again, listedAgain⟩ := rewritten.exists_treeAt tidy stillTidy listed
  have node := FileSystem.node?_eq_ok_iff.mpr ⟨base, located⟩
  apply Files.eq_of_ascending (FileSystem.pairwise_selected stillTidy root pattern)
    (FileSystem.pairwise_selected tidy root pattern)
  intro location
  rw [FileSystem.mem_selected_iff_get? stillTidy listedAgain, FileSystem.mem_selected_iff_get? tidy listed]
  have inside : tree.get? location = system.root.get? (base ++ location) := by
    rw [Node.get?_append, FileSystem.get?_of_locate located, Option.bind_some]
  have insideAgain : other.get? location = after.root.get? (base ++ location) := by
    rw [Node.get?_append, FileSystem.get?_of_locate again, Option.bind_some]
  by_cases own : base ++ location = catalog
  · -- The place of the catalog is selected neither before nor after.
    have unselected : ¬ ∃ name, location.getLast? = some name ∧ pattern.selects name = true := by
      rintro ⟨name, last, chosen⟩
      have named : catalog.getLast? = some name := by rw [← own, List.getLast?_append, last, Option.some_or]
      rw [apart.name name named] at chosen
      cases chosen
    constructor
    · rintro ⟨_, _, kept⟩
      exact absurd (FileSystem.exists_name_of_isSelected kept) unselected
    · rintro ⟨_, _, kept⟩
      exact absurd (FileSystem.exists_name_of_isSelected kept) unselected
  · constructor
    · rintro ⟨leaf, found, kept⟩
      have solid := FileSystem.solid_of_isSelected kept
      rw [insideAgain, rewritten.get?_iff _ own _ solid, ← inside] at found
      exact ⟨leaf, found, rewritten.isSelected_eq apart node found solid ▸ kept⟩
    · rintro ⟨leaf, found, kept⟩
      have solid := FileSystem.solid_of_isSelected kept
      refine ⟨leaf, ?_, (rewritten.isSelected_eq apart node found solid).trans kept⟩
      rwa [insideAgain, rewritten.get?_iff _ own _ solid, ← inside]

/-- A second search reads in the selected files what the first read. -/
theorem readBytes_eq (rewritten : Rewritten system after catalog content) (tidy : system.root.IsTidy)
    {tree : Node} (listed : system.treeAt root = .ok tree) (apart : Apart system after root pattern catalog)
    {location : List String} (member : location ∈ system.selected root pattern) {bytes : ByteArray}
    (read : system.readBytes (Files.pathBelow root location) = .ok bytes) :
    after.readBytes (Files.pathBelow root location) = .ok bytes := by
  obtain ⟨base, entries, rfl, located, _⟩ := FileSystem.exists_of_treeAt listed
  obtain ⟨resolved, here⟩ := FileSystem.locate_eq_ok_iff.mp located
  have node := FileSystem.node?_eq_ok_iff.mpr ⟨base, located⟩
  obtain ⟨place, leads, file⟩ := FileSystem.readBytes_eq_ok_iff.mp read
  obtain ⟨leaf, inside, kept⟩ :=
    (FileSystem.mem_selected_iff_get? tidy listed pattern location).mp member
  obtain ⟨name, last, chosen⟩ := FileSystem.exists_name_of_isSelected kept
  have other : place ≠ catalog := by
    cases leaf with
    | directory own => exact absurd rfl (FileSystem.solid_of_isSelected kept)
    | file own =>
      have standing : system.root.get? (base ++ location) = some (.file own) := by
        rw [Node.get?_append, here, Option.bind_some, inside]
      have down := FileSystem.resolve_pathBelow tidy resolved standing (by rintro rfl; cases last)
      cases leads.symm.trans down
      intro same
      rw [apart.name name (by rw [← same, List.getLast?_append, last, Option.some_or])] at chosen
      cases chosen
    | link target =>
      have leadsToFile := FileSystem.isFile_of_grows rewritten.workingDirectory_eq rewritten.grows
        (FileSystem.isFile_iff.mpr ⟨place, bytes, leads, file⟩)
      obtain ⟨_, apartFrom, same⟩ := apart.link _ _ _ _ node inside last chosen leadsToFile
      cases leads.symm.trans same
      exact apartFrom
  refine FileSystem.readBytes_eq_ok_iff.mpr ⟨place, ?_, ?_⟩
  · exact FileSystem.resolve_of_grows rewritten.workingDirectory_eq rewritten.grows leads
  · exact (rewritten.get?_iff place other _ (by simp [Node.label])).mpr file

/-- A file that could be read can be read again. -/
theorem isSealed_eq_false (rewritten : Rewritten system after catalog content) {path : String} {bytes : ByteArray}
    (read : system.readBytes path = .ok bytes) (opened : system.isSealed path = false) :
    after.isSealed path = false := by
  obtain ⟨place, leads, file⟩ := FileSystem.readBytes_eq_ok_iff.mp read
  have again := FileSystem.resolve_of_grows rewritten.workingDirectory_eq rewritten.grows leads
  rw [FileSystem.isSealed_eq_false_iff] at opened ⊢
  intro location node located member
  cases again.symm.trans (FileSystem.locate_eq_ok_iff.mp located).1
  exact opened _ _ (FileSystem.locate_eq_ok_iff.mpr ⟨leads, file⟩) (rewritten.of_sealed _ member).1

private theorem extractFile_eq (rewritten : Rewritten system after catalog content) (tidy : system.root.IsTidy)
    {tree : Node} (listed : system.treeAt root = .ok tree) (apart : Apart system after root pattern catalog)
    {location : List String} (member : location ∈ system.selected root pattern) {settings : Settings}
    {kind : SourceKind} {records : List TextRecord}
    (extracted : extractFile system settings kind (Files.pathBelow root location) = .ok records) :
    extractFile after settings kind (Files.pathBelow root location) =
      extractFile system settings kind (Files.pathBelow root location) := by
  cases opened : system.isSealed (Files.pathBelow root location) with
  | true =>
    simp only [extractFile, readText, opened, ↓reduceIte] at extracted
    cases extracted
  | false =>
    cases read : system.readBytes (Files.pathBelow root location) with
    | error fault =>
      simp only [extractFile, readText, opened, Bool.false_eq_true, ↓reduceIte, read] at extracted
      cases extracted
    | ok bytes =>
      simp only [extractFile, readText, opened, rewritten.isSealed_eq_false read opened, read,
        rewritten.readBytes_eq tidy listed apart member read]

end Rewritten

private theorem Gathered.addFiles_eq {system after : FileSystem} {settings : Settings} {root : String}
    {kind : SourceKind} {locations : List (List String)} (same : ∀ location ∈ locations,
      extractFile after settings kind (Files.pathBelow root location) =
        extractFile system settings kind (Files.pathBelow root location)) (gathered : Gathered) :
    gathered.addFiles after settings root kind locations = gathered.addFiles system settings root kind locations := by
  induction locations generalizing gathered with
  | nil => rfl
  | cons location rest ih =>
    rw [addFiles, addFiles, same location List.mem_cons_self]
    split
    · rfl
    · exact ih (fun other member => same other (List.mem_cons_of_mem _ member)) _

namespace Rewritten

variable {system after : FileSystem} {catalog : List String} {content : ByteArray} {root : String}
  {settings : Settings} {request : Request} {csharp xaml : Glob.Pattern}

/-- A second run gathers what the first gathered. -/
theorem gather_eq (rewritten : Rewritten system after catalog content) (tidy : system.root.IsTidy)
    (stillTidy : after.root.IsTidy) (ready : Ready system settings request root csharp xaml)
    (csharpApart : Apart system after root csharp catalog) (xamlApart : Apart system after root xaml catalog) :
    gather after settings root csharp xaml = gather system settings root csharp xaml := by
  obtain ⟨tree, listed⟩ := ready.listed
  obtain ⟨_, _, _, _, listedAgain⟩ := rewritten.exists_treeAt tidy stillTidy listed
  have sameCSharp : ∀ location ∈ system.selected root csharp,
      extractFile after settings .csharp (Files.pathBelow root location) =
        extractFile system settings .csharp (Files.pathBelow root location) := by
    intro location member
    obtain ⟨records, extracted⟩ := ready.extracted ⟨.csharp, location⟩ (by simp [sources, member])
    exact rewritten.extractFile_eq tidy listed csharpApart member extracted
  have sameXaml : ∀ location ∈ system.selected root xaml,
      extractFile after settings .xaml (Files.pathBelow root location) =
        extractFile system settings .xaml (Files.pathBelow root location) := by
    intro location member
    obtain ⟨records, extracted⟩ := ready.extracted ⟨.xaml, location⟩ (by simp [sources, member])
    exact rewritten.extractFile_eq tidy listed xamlApart member extracted
  simp only [gather, FileSystem.scan_of_treeAt listed, FileSystem.scan_of_treeAt listedAgain,
    rewritten.selected_eq tidy stillTidy listed csharpApart, rewritten.selected_eq tidy stillTidy listed xamlApart,
    Gathered.addFiles_eq sameCSharp, Gathered.addFiles_eq sameXaml]

end Rewritten

/-- Runs that gather the same and leave the same behind are the same. -/
theorem harvest_eq_of_gather_eq {system other : FileSystem} {settings : Settings} {request : Request} {root : String}
    {csharp xaml : Glob.Pattern} (ready : Ready system settings request root csharp xaml)
    (sameStart : other.workingDirectory = system.workingDirectory)
    (same : gather other settings root csharp xaml = gather system settings root csharp xaml)
    (sameWriting : writeCatalog other request.target (catalogText system settings root csharp xaml) =
      writeCatalog system request.target (catalogText system settings root csharp xaml)) :
    harvest other settings request = harvest system settings request := by
  have path : other.workingPath = system.workingPath := by simp only [FileSystem.workingPath, sameStart]
  obtain ⟨tree, listed⟩ := ready.listed
  have stopped := gather_of_listed settings csharp xaml listed
  rw [findSome?_fault?_eq_none_iff.mpr ready.extracted] at stopped
  obtain ⟨gathered, gathering, holds⟩ := stopped
  rw [catalogText, ← holds.catalog_eq] at sameWriting
  simp only [harvest, ready.checked, path, ready.absolute, same, gathering, sameWriting]

/-! ## Without links -/

theorem Rewritten.unlinked {system after : FileSystem} {catalog : List String} {content : ByteArray}
    (rewritten : Rewritten system after catalog content) (plain : system.root.IsPlain) (location : List String)
    (target : String) : after.root.kindAt location ≠ some (.link target) := by
  intro linked
  have found := Node.kindAt_eq_link_iff.mp linked
  by_cases own : location = catalog
  · rw [own, rewritten.get?_catalog] at found
    cases found
  · exact plain _ _ ((rewritten.get?_iff location own _ (by simp [Node.label])).mp found)

private theorem Rewritten.apart_of_isPlain {system after : FileSystem} {catalog : List String} {content : ByteArray}
    {path : String} {pattern : Glob.Pattern} (rewritten : Rewritten system after catalog content)
    (plain : system.root.IsPlain) (resolved : after.resolve path true = .ok (.node catalog))
    (unselected : ∀ name, (Files.Path.names path).getLast? = some name → pattern.selects name = false)
    (root : String) : Apart system after root pattern catalog := by
  refine ⟨?_, ?_⟩
  · intro name last
    have file := Node.kindAt_eq_file_iff.mpr ⟨content, rewritten.get?_catalog⟩
    have leads := (FileSystem.resolve_eq_ok_iff.mp resolved).2
    rcases leads.getLast?_names (rewritten.unlinked plain) file with ⟨nothing, _⟩ | ⟨own, names, same⟩
    · simp [Files.Path.parts] at nothing
    · cases last.symm.trans same
      exact unselected name names
  · intro node below target _ found linked
    exact (FileSystem.isPlain_of_node? plain found _ _ linked).elim

/-! ## A catalog behind a link -/

/-- A file system with one XAML source in a directory, and a link where the catalog is to be written. -/
def linked (view target : String) : FileSystem where
  root := .directory [("src", .directory [("a.xaml", .file view.toUTF8)]), ("out.pot", .link target)]
  workingDirectory := []

section Linked

variable (view target : String)

private theorem isPlain_view : (Node.directory [("a.xaml", .file view.toUTF8)]).IsPlain := by
  apply Node.isPlain_directory
  · simp [Node.IsSound, FileSystem.IsName]
  · simp [Node.isPlain_file]

private theorem isTidy_linked : (linked view target).root.IsTidy := by
  apply Node.isTidy_directory
  · simp [Node.IsSound, FileSystem.IsName]
  · simp only [List.mem_cons, List.not_mem_nil, or_false, forall_eq_or_imp, forall_eq]
    exact ⟨(isPlain_view view).isTidy, Node.isTidy_leaf (by simp [Node.label])⟩

private theorem absolute_linked : Files.Path.absolute? (linked view target).workingPath "src" = some "/src" := by
  have working : (linked view target).workingPath = "/" := rfl
  rw [working]
  decide +kernel

private theorem resolve_linked : (linked view target).resolve "/src" true = .ok (.node ["src"]) := by
  have parts : Files.Path.parts "/src" = ["", "src"] := by decide
  simp [FileSystem.resolve, FileSystem.resolveFrom, Files.Path.isAbsolute, parts, linked]

private theorem node?_linked :
    (linked view target).node? "/src" = .ok (.directory [("a.xaml", .file view.toUTF8)]) :=
  FileSystem.node?_eq_ok_iff.mpr ⟨_, FileSystem.locate_eq_ok_iff.mpr ⟨resolve_linked view target, rfl⟩⟩

private theorem treeAt_linked :
    (linked view target).treeAt "/src" = .ok (.directory [("a.xaml", .file view.toUTF8)]) := by
  have listable : (linked view target).Listable := List.forall_mem_nil _
  exact listable.treeAt_eq (isTidy_linked view target) (node?_linked view target)

private theorem sources_linked : sources (linked view target) "/src" (endingIn ".cs") (endingIn ".xaml") =
    [⟨.xaml, ["a.xaml"]⟩] := by
  have code : (endingIn ".cs").selects "a.xaml" = false := by decide
  have views : (endingIn ".xaml").selects "a.xaml" = true := by decide
  simp [sources, FileSystem.selected_of_treeAt (treeAt_linked view target), Node.walk, Node.walkEntries, Node.visit,
    FileSystem.isSelected, code, views]

private theorem extract_linked (settings : Settings) :
    Source.extract (linked view target) settings "/src" ⟨.xaml, ["a.xaml"]⟩ =
      extractSource settings .xaml "/src/a.xaml" view := by
  have path : Files.pathBelow "/src" ["a.xaml"] = "/src/a.xaml" := by decide
  have here : (linked view target).root.get? (["src"] ++ ["a.xaml"]) = some (.file view.toUTF8) := rfl
  have down := FileSystem.resolve_pathBelow (isTidy_linked view target) (resolve_linked view target) here (by simp)
  have opened : (linked view target).isSealed (Files.pathBelow "/src" ["a.xaml"]) = false :=
    FileSystem.isSealed_eq_false_iff.mpr fun _ _ _ => List.not_mem_nil
  rw [← path]
  exact extractFile_of_readBytes opened (FileSystem.readBytes_of_resolve down here) settings .xaml

private theorem makeParent_linked : makeParent (linked view target) "out.pot" = (linked view target, .ok ()) := by
  have parent : Files.Path.parent? "out.pot" = some "" := by decide +kernel
  simp only [makeParent, parent]
  rfl

/-- A catalog that is written through a link to the source overwrites the source. -/
private theorem writeCatalog_linked (text : String) :
    writeCatalog (linked view "src/a.xaml") "out.pot" text = (linked text "src/a.xaml", .ok ()) := by
  have noSlash : Files.Path.endsInSlash "out.pot" = false := by decide
  have parts : Files.Path.parts "out.pot" = ["out.pot"] := by decide
  have onward : Files.Path.parts "src/a.xaml" = ["src", "a.xaml"] := by decide
  have resolved : (linked view "src/a.xaml").resolve "out.pot" true = .ok (.node ["src", "a.xaml"]) := by
    refine FileSystem.resolve_eq_ok_iff.mpr ⟨by decide, ?_⟩
    rw [parts]
    refine .pass rfl (by simp [FileSystem.IsName]) rfl (by simp) ?_
    rw [onward]
    exact .enter rfl (by simp [FileSystem.IsName]) rfl (by simp [Node.label, Files.Label.kind])
      (.enter rfl (by simp [FileSystem.IsName]) rfl (by simp [Node.label, Files.Label.kind]) (.here _ _))
  simp only [writeCatalog, makeParent_linked, FileSystem.writeBytes, noSlash, resolved]
  rfl

/-- A catalog that is written through a link to a free name stands beside the link. -/
private theorem writeCatalog_linked_free (text : String) :
    ∃ after, writeCatalog (linked view "t.pot") "out.pot" text = (after, .ok ()) ∧
      after.resolve "out.pot" true = .ok (.node ["t.pot"]) := by
  have noSlash : Files.Path.endsInSlash "out.pot" = false := by decide
  have parts : Files.Path.parts "out.pot" = ["out.pot"] := by decide
  have onward : Files.Path.parts "t.pot" = ["t.pot"] := by decide
  have resolved : (linked view "t.pot").resolve "out.pot" true = .ok (.free [] "t.pot" false) := by
    refine FileSystem.resolve_eq_ok_iff.mpr ⟨by decide, ?_⟩
    rw [parts]
    refine .pass rfl (by simp [FileSystem.IsName]) rfl (by simp) ?_
    rw [onward]
    exact .free rfl (by simp [FileSystem.IsName]) rfl rfl
  refine ⟨{ linked view "t.pot" with root := Node.set (.file text.toUTF8) ["t.pot"] (linked view "t.pot").root },
    ?_, FileSystem.resolve_eq_ok_iff.mpr ⟨by decide, ?_⟩⟩
  · simp only [writeCatalog, makeParent_linked, FileSystem.writeBytes, noSlash, resolved]
    rfl
  · rw [parts]
    refine .pass rfl (by simp [FileSystem.IsName]) rfl (by simp) ?_
    rw [onward]
    exact .enter rfl (by simp [FileSystem.IsName]) rfl (by simp [Node.label, Files.Label.kind]) (.here _ _)

private theorem ready_linked {records : List TextRecord}
    (extracted : extractSource {} .xaml "/src/a.xaml" view = .ok records) :
    Ready (linked view target) {} ⟨"src", "out.pot"⟩ "/src" (endingIn ".cs") (endingIn ".xaml") := by
  refine ⟨check_default, absolute_linked view target, ⟨_, treeAt_linked view target⟩, ?_⟩
  rw [sources_linked, List.forall_mem_singleton, extract_linked]
  exact ⟨records, extracted⟩

/-- There is no link among the sources, so the search comes upon nothing but what stands there. -/
private theorem apart_linked (after : FileSystem) {pattern : Glob.Pattern} {name : String}
    (other : pattern.selects name = false) : Apart (linked view target) after "/src" pattern [name] := by
  refine ⟨?_, ?_⟩
  · rintro own ⟨⟩
    exact other
  · intro node below link _ found standing
    cases (node?_linked view target).symm.trans found
    exact (isPlain_view view below _ standing).elim

end Linked

/-! ## Running twice -/

private theorem harvest_of_ready {system after : FileSystem} {settings : Settings} {request : Request} {root : String}
    {csharp xaml : Glob.Pattern} (ready : Ready system settings request root csharp xaml)
    (success : writeCatalog system request.target (catalogText system settings root csharp xaml) = (after, .ok ())) :
    (harvest system settings request).system = after ∧
      (harvest system settings request).result = .ok (summaryOf system settings request root csharp xaml) := by
  have ends := harvest_ends system settings request
  obtain ⟨summary, done⟩ := (ends.ok_iff ready.checked).mpr ⟨root, ready, by rw [success]⟩
  rw [done] at ends ⊢
  generalize (harvest system settings request).system = left at ends ⊢
  cases ends with
  | written sameReady sameSuccess =>
    cases ready.checked.symm.trans sameReady.checked
    cases ready.absolute.symm.trans sameReady.absolute
    cases success.symm.trans sameSuccess
    exact ⟨rfl, rfl⟩

/-- A run after one that went through changes nothing and says the same, as long as the search does not come upon the
catalog. Without links it is enough that the name of the catalog is not selected. -/
theorem harvest_harvest (system : FileSystem) (settings : Settings) (request : Request) {csharp xaml : Glob.Pattern}
    {root : String} {summary : Summary} (checked : settings.check = .ok (csharp, xaml))
    (absolute : Files.Path.absolute? system.workingPath request.source = some root)
    (done : (harvest system settings request).result = .ok summary) :
    let after := (harvest system settings request).system
    (∀ catalog, system.root.IsTidy → after.resolve request.target true = .ok (.node catalog) →
      Apart system after root csharp catalog → Apart system after root xaml catalog →
      harvest after settings request = harvest system settings request) ∧
    (system.root.IsPlain →
      (∀ name, (Files.Path.names request.target).getLast? = some name →
        csharp.selects name = false ∧ xaml.selects name = false) →
      harvest after settings request = harvest system settings request) := by
  intro after
  have ends := harvest_ends system settings request
  rw [done] at ends
  change Ends system settings request after (.ok summary) at ends
  clear_value after
  cases ends with
  | written ready success =>
    cases checked.symm.trans ready.checked
    cases absolute.symm.trans ready.absolute
    obtain ⟨⟨catalog, resolved, rewritten⟩, tidied, again⟩ := writeCatalog_again success
    have repeated (tidy : system.root.IsTidy) (csharpApart : Apart system after root csharp catalog)
        (xamlApart : Apart system after root xaml catalog) :
        harvest after settings request = harvest system settings request :=
      harvest_eq_of_gather_eq ready rewritten.workingDirectory_eq
        (rewritten.gather_eq tidy (tidied tidy) ready csharpApart xamlApart) (again.trans success.symm)
    constructor
    · intro place tidy same csharpApart xamlApart
      cases resolved.symm.trans same
      exact repeated tidy csharpApart xamlApart
    · intro plain unselected
      exact repeated plain.isTidy
        (rewritten.apart_of_isPlain plain resolved (fun name last => (unselected name last).1) root)
        (rewritten.apart_of_isPlain plain resolved (fun name last => (unselected name last).2) root)

/-- A second run repeats the first where the catalog is written through a link to a free name, and where it is written
among the sources. -/
theorem harvest_harvest_beside :
    let beside := linked "<a/>" "t.pot"
    let within := twoViews "<a/>" "<b/>"
    harvest (harvest beside {} ⟨"src", "out.pot"⟩).system {} ⟨"src", "out.pot"⟩ =
        harvest beside {} ⟨"src", "out.pot"⟩ ∧
      harvest (harvest within {} ⟨"/", "/t.pot"⟩).system {} ⟨"/", "/t.pot"⟩ =
        harvest within {} ⟨"/", "/t.pot"⟩ := by
  intro beside within
  have unselected : (endingIn ".cs").selects "t.pot" = false ∧ (endingIn ".xaml").selects "t.pot" = false := by decide
  constructor
  · have extracted : extractSource {} .xaml "/src/a.xaml" "<a/>" = .ok [] := by decide +kernel
    obtain ⟨after, success, resolved⟩ := writeCatalog_linked_free "<a/>"
      (catalogText beside {} "/src" (endingIn ".cs") (endingIn ".xaml"))
    obtain ⟨left, done⟩ := harvest_of_ready (ready_linked "<a/>" "t.pot" extracted) success
    have again := (harvest_harvest beside {} ⟨"src", "out.pot"⟩ check_default (absolute_linked _ _) done).1 ["t.pot"]
      (isTidy_linked _ _)
    rw [left] at again ⊢
    exact again resolved (apart_linked _ _ after unselected.1) (apart_linked _ _ after unselected.2)
  · have first : Source.extract within {} "/" ⟨.xaml, ["a.xaml"]⟩ = .ok [] := by
      rw [(extract_twoViews _ _ {}).1]
      decide +kernel
    have second : Source.extract within {} "/" ⟨.xaml, ["b.xaml"]⟩ = .ok [] := by
      rw [(extract_twoViews _ _ {}).2]
      decide +kernel
    have ready : Ready within {} ⟨"/", "/t.pot"⟩ "/" (endingIn ".cs") (endingIn ".xaml") := by
      refine ⟨check_default, absolute_twoViews _ _, ⟨_, treeAt_twoViews _ _⟩, ?_⟩
      rw [sources_twoViews]
      simp [first, second]
    obtain ⟨summary, done⟩ := ((harvest_ends within {} ⟨"/", "/t.pot"⟩).ok_iff check_default).mpr
      ⟨"/", ready, writeCatalog_twoViews _ _ _⟩
    apply (harvest_harvest within {} ⟨"/", "/t.pot"⟩ check_default (absolute_twoViews _ _) done).2
      (isPlain_twoViews _ _)
    have names : Files.Path.names "/t.pot" = ["t.pot"] := by decide
    rw [names]
    rintro name ⟨⟩
    exact unselected

/-- A second run fails where the first has overwritten a source with the catalog. -/
theorem harvest_overwrites_source :
    let system := linked "<a/>" "src/a.xaml"
    let request : Request := ⟨"src", "out.pot"⟩
    Settings.check {} = .ok (endingIn ".cs", endingIn ".xaml") ∧
      (Files.Path.names request.target).getLast? = some "out.pot" ∧
      (endingIn ".cs").selects "out.pot" = false ∧ (endingIn ".xaml").selects "out.pot" = false ∧
      (∃ summary, (harvest system {} request).result = .ok summary) ∧
      (harvest (harvest system {} request).system {} request).result =
        .error (.extraction (.notXml "/src/a.xaml" (.misshapen 1 .textOutsideRoot))) := by
  intro system request
  have extracted : extractSource {} .xaml "/src/a.xaml" "<a/>" = .ok [] := by decide +kernel
  have text : catalogText system {} "/src" (endingIn ".cs") (endingIn ".xaml") =
      Po.render ({} : Settings).header (Catalog.ofStream "/src" []) := by
    simp [catalogText, system, sources_linked, recordsOf, Source.records, extract_linked, extracted]
  obtain ⟨left, done⟩ := harvest_of_ready (ready_linked "<a/>" "src/a.xaml" extracted)
    (writeCatalog_linked "<a/>" (catalogText system {} "/src" (endingIn ".cs") (endingIn ".xaml")))
  refine ⟨check_default, by decide, by decide, by decide, ⟨_, done⟩, ?_⟩
  rw [left, text]
  refine ((harvest_ends _ {} request).extraction_iff check_default (absolute_linked _ _) (treeAt_linked _ _) _).mpr
    ⟨[], _, [], sources_linked _ _, by simp, ?_⟩
  rw [extract_linked]
  decide +kernel

end TextHarvest
