import TextHarvest.Harvest
import TextHarvest.Proofs.Catalog.Run
import TextHarvest.Proofs.Files.Scan

/-! # How a run ends

`Ends` gives the six ways in which a run can end: four faults before anything is written, a catalog that cannot be
written, and success. It speaks of the sources of a run as one list, the C# sources before the XAML sources, of the
first fault among them, and of the stream of all their records. `harvest_ends` says that every run ends in one of
these ways.
-/

namespace TextHarvest

/-- A file that a run searches, by its location below the directory with the sources. -/
structure Source where
  kind : SourceKind
  location : List String
deriving DecidableEq, Repr

namespace Source

variable (system : Files.FileSystem) (settings : Settings) (root : String)

def extract (source : Source) : Except ExtractionFault (List TextRecord) :=
  extractFile system settings source.kind (Files.pathBelow root source.location)

/-- The records of a source; a source that is not in order has none. -/
def records (source : Source) : List TextRecord :=
  match source.extract system settings root with
  | .ok records => records
  | .error _ => []

def fault? (source : Source) : Option ExtractionFault :=
  match source.extract system settings root with
  | .ok _ => none
  | .error fault => some fault

variable {system settings root} {source : Source}

private theorem fault?_eq_some_iff {fault : ExtractionFault} :
    source.fault? system settings root = some fault ↔ source.extract system settings root = .error fault := by
  unfold fault?
  cases source.extract system settings root <;> simp

private theorem fault?_eq_none_iff :
    source.fault? system settings root = none ↔ ∃ records, source.extract system settings root = .ok records := by
  unfold fault?
  cases source.extract system settings root <;> simp

end Source

/-- The sources of a run in the order in which they are searched. -/
def sources (system : Files.FileSystem) (root : String) (csharp xaml : Glob.Pattern) : List Source :=
  (system.selected root csharp).map (Source.mk .csharp) ++ (system.selected root xaml).map (Source.mk .xaml)

/-- The fault is that of the first of the sources that is not in order. -/
def FirstFault (system : Files.FileSystem) (settings : Settings) (root : String) (all : List Source)
    (fault : ExtractionFault) : Prop :=
  ∃ before source after, all = before ++ source :: after ∧
    (∀ earlier ∈ before, ∃ records, earlier.extract system settings root = .ok records) ∧
    source.extract system settings root = .error fault

section Faults

variable {system : Files.FileSystem} {settings : Settings} {root : String} {all : List Source}

theorem findSome?_fault?_eq_some_iff {fault : ExtractionFault} :
    all.findSome? (Source.fault? system settings root) = some fault ↔ FirstFault system settings root all fault := by
  simp only [List.findSome?_eq_some_iff, Source.fault?_eq_some_iff, Source.fault?_eq_none_iff, FirstFault]
  constructor
  · rintro ⟨before, source, after, whole, bad, fine⟩
    exact ⟨before, source, after, whole, fine, bad⟩
  · rintro ⟨before, source, after, whole, fine, bad⟩
    exact ⟨before, source, after, whole, bad, fine⟩

theorem findSome?_fault?_eq_none_iff : all.findSome? (Source.fault? system settings root) = none ↔
    ∀ source ∈ all, ∃ records, source.extract system settings root = .ok records := by
  simp only [List.findSome?_eq_none_iff, Source.fault?_eq_none_iff]

end Faults

/-- All records of sources, in order. -/
def recordsOf (system : Files.FileSystem) (settings : Settings) (root : String) (all : List Source) : List TextRecord :=
  all.flatMap (Source.records system settings root)

namespace Gathered

/-- All that was gathered so far comes from the stream of records. -/
structure Holds (root : String) (stream : List TextRecord) (gathered : Gathered) : Prop where
  catalog_eq : gathered.catalog = Catalog.ofStream root stream
  found_eq : gathered.found = stream.length

variable {root : String} {stream : List TextRecord} {gathered : Gathered}

theorem Holds.add (holds : gathered.Holds root stream) (kind : SourceKind) (file : String)
    (records : List TextRecord) : (gathered.add kind file records).Holds root (stream ++ records) where
  catalog_eq := by
    change gathered.catalog.extend records = _
    rw [holds.catalog_eq, Catalog.extend_ofStream]
  found_eq := by
    change gathered.found + (gathered.catalog.offerAll records).1.1 = _
    rw [holds.found_eq, (Catalog.offerAll_answer gathered.catalog records).1, List.length_append]

/-- Files are searched up to the first fault; without one, all their records are gathered. -/
theorem Holds.addFiles (holds : gathered.Holds root stream) (system : Files.FileSystem) (settings : Settings)
    (kind : SourceKind) (locations : List (List String)) :
    (gathered.addFiles system settings root kind locations).2 =
        (locations.map (Source.mk kind)).findSome? (Source.fault? system settings root) ∧
      ((gathered.addFiles system settings root kind locations).2 = none →
        (gathered.addFiles system settings root kind locations).1.Holds root
          (stream ++ recordsOf system settings root (locations.map (Source.mk kind)))) := by
  induction locations generalizing gathered stream with
  | nil => simpa [Gathered.addFiles, recordsOf] using holds
  | cons location locations ih =>
    rw [Gathered.addFiles]
    cases extracted : extractFile system settings kind (Files.pathBelow root location) with
    | error fault =>
      have bad : (Source.mk kind location).fault? system settings root = some fault :=
        Source.fault?_eq_some_iff.mpr extracted
      simp [bad]
    | ok records =>
      have fine : (Source.mk kind location).fault? system settings root = none :=
        Source.fault?_eq_none_iff.mpr ⟨records, extracted⟩
      have given : (Source.mk kind location).records system settings root = records := by
        simp [Source.records, Source.extract, extracted]
      have rest := ih (holds.add kind ("/".intercalate location) records)
      simpa [fine, recordsOf, given] using rest

end Gathered

section Gather

variable {system : Files.FileSystem} {root : String} (settings : Settings) (csharp xaml : Glob.Pattern)

private theorem gather_of_failed {fault : Files.ScanFault} (failed : system.treeAt root = .error fault) :
    (gather system settings root csharp xaml).2 = .error (.scan root fault) := by
  simp only [gather, Files.FileSystem.scan_eq, failed]

/-- Gathering stops at the first source that is not in order, and without one it gathers all records. -/
theorem gather_of_listed {tree : Files.Node} (listed : system.treeAt root = .ok tree) :
    match (sources system root csharp xaml).findSome? (Source.fault? system settings root) with
    | some fault => (gather system settings root csharp xaml).2 = .error (.extraction fault)
    | none => ∃ gathered, gather system settings root csharp xaml =
          (gathered, .ok ((system.selected root csharp).length, (system.selected root xaml).length)) ∧
        gathered.Holds root (recordsOf system settings root (sources system root csharp xaml)) := by
  have start : ({ catalog := { root } } : Gathered).Holds root [] := ⟨rfl, rfl⟩
  have split : (sources system root csharp xaml).findSome? (Source.fault? system settings root) =
      (((system.selected root csharp).map (Source.mk .csharp)).findSome? (Source.fault? system settings root)).or
        (((system.selected root xaml).map (Source.mk .xaml)).findSome? (Source.fault? system settings root)) := by
    rw [sources, List.findSome?_append]
  obtain ⟨first, held⟩ := start.addFiles system settings .csharp (system.selected root csharp)
  simp only [gather, Files.FileSystem.scan_of_treeAt listed]
  rcases passed : ({ catalog := { root } } : Gathered).addFiles system settings root .csharp
    (system.selected root csharp) with ⟨gathered, _ | fault⟩
  · rw [passed] at first held
    obtain ⟨second, heldAll⟩ := (held rfl).addFiles system settings .xaml (system.selected root xaml)
    rcases finished : gathered.addFiles system settings root .xaml (system.selected root xaml) with
      ⟨last, _ | fault⟩
    · rw [finished] at second heldAll
      rw [split, ← first, ← second]
      refine ⟨last, by simp [finished], ?_⟩
      simpa [sources, recordsOf] using heldAll rfl
    · rw [finished] at second
      rw [split, ← first, ← second]
      simp [finished]
  · rw [passed] at first
    rw [split, ← first]
    rfl

end Gather

/-- The counts of a run that went through. -/
def summaryOf (system : Files.FileSystem) (settings : Settings) (request : Request) (root : String)
    (csharp xaml : Glob.Pattern) : Summary :=
  let catalog := Catalog.ofStream root (recordsOf system settings root (sources system root csharp xaml))
  { csharpFiles := (system.selected root csharp).length
    xamlFiles := (system.selected root xaml).length
    textsFound := (recordsOf system settings root (sources system root csharp xaml)).length
    entryCount := catalog.size
    duplicateCount := catalog.duplicates
    target := request.target }

def catalogText (system : Files.FileSystem) (settings : Settings) (root : String) (csharp xaml : Glob.Pattern) :
    String :=
  Po.render settings.header
    (Catalog.ofStream root (recordsOf system settings root (sources system root csharp xaml)))

/-- Nothing is left but to write the catalog: the settings make sense, the directory with the sources can be searched,
and all sources are in order. -/
structure Ready (system : Files.FileSystem) (settings : Settings) (request : Request) (root : String)
    (csharp xaml : Glob.Pattern) : Prop where
  checked : settings.check = .ok (csharp, xaml)
  absolute : Files.Path.absolute? system.workingPath request.source = some root
  listed : ∃ tree, system.treeAt root = .ok tree
  extracted : ∀ source ∈ sources system root csharp xaml, ∃ records, source.extract system settings root = .ok records

/-- The ways in which a run ends, with the file system that it leaves behind. -/
inductive Ends (system : Files.FileSystem) (settings : Settings) (request : Request) :
    Files.FileSystem → Except HarvestFault Summary → Prop
  | badSettings {fault : SettingsFault} (refused : settings.check = .error fault) :
      Ends system settings request system (.error (.settings fault))
  | noSource {csharp xaml : Glob.Pattern} (checked : settings.check = .ok (csharp, xaml))
      (nowhere : Files.Path.absolute? system.workingPath request.source = none) :
      Ends system settings request system (.error .noSource)
  | notSearched {csharp xaml : Glob.Pattern} {root : String} {fault : Files.ScanFault}
      (checked : settings.check = .ok (csharp, xaml))
      (absolute : Files.Path.absolute? system.workingPath request.source = some root)
      (failed : system.treeAt root = .error fault) :
      Ends system settings request system (.error (.scan root fault))
  | badSource {csharp xaml : Glob.Pattern} {root : String} {tree : Files.Node} {fault : ExtractionFault}
      (checked : settings.check = .ok (csharp, xaml))
      (absolute : Files.Path.absolute? system.workingPath request.source = some root)
      (listed : system.treeAt root = .ok tree)
      (bad : FirstFault system settings root (sources system root csharp xaml) fault) :
      Ends system settings request system (.error (.extraction fault))
  | notWritten {csharp xaml : Glob.Pattern} {root : String} {fault : HarvestFault} {after : Files.FileSystem}
      (ready : Ready system settings request root csharp xaml)
      (failed : writeCatalog system request.target (catalogText system settings root csharp xaml) =
        (after, .error fault)) :
      Ends system settings request after (.error fault)
  | written {csharp xaml : Glob.Pattern} {root : String} {after : Files.FileSystem}
      (ready : Ready system settings request root csharp xaml)
      (success : writeCatalog system request.target (catalogText system settings root csharp xaml) = (after, .ok ())) :
      Ends system settings request after (.ok (summaryOf system settings request root csharp xaml))

theorem harvest_ends (system : Files.FileSystem) (settings : Settings) (request : Request) :
    Ends system settings request (harvest system settings request).system (harvest system settings request).result := by
  unfold harvest
  cases checked : settings.check with
  | error fault => exact .badSettings checked
  | ok patterns =>
    obtain ⟨csharp, xaml⟩ := patterns
    cases absolute : Files.Path.absolute? system.workingPath request.source with
    | none => exact .noSource checked absolute
    | some root =>
      cases searched : system.treeAt root with
      | error fault =>
        have stopped := gather_of_failed settings csharp xaml searched
        rcases gathering : gather system settings root csharp xaml with ⟨gathered, result⟩
        rw [gathering] at stopped
        obtain rfl := stopped
        simpa only [gathering] using Ends.notSearched checked absolute searched
      | ok tree =>
        have stopped := gather_of_listed settings csharp xaml searched
        cases first : (sources system root csharp xaml).findSome? (Source.fault? system settings root) with
        | some fault =>
          rw [first] at stopped
          rcases gathering : gather system settings root csharp xaml with ⟨gathered, result⟩
          rw [gathering] at stopped
          obtain rfl : result = _ := stopped
          simpa only [gathering] using
            Ends.badSource checked absolute searched (findSome?_fault?_eq_some_iff.mp first)
        | none =>
          have ready : Ready system settings request root csharp xaml :=
            ⟨checked, absolute, ⟨tree, searched⟩, findSome?_fault?_eq_none_iff.mp first⟩
          rw [first] at stopped
          obtain ⟨gathered, gathering, holds⟩ := stopped
          simp only [gathering, holds.catalog_eq, holds.found_eq]
          rcases writing : writeCatalog system request.target (catalogText system settings root csharp xaml) with
            ⟨after, fault | done⟩
          · simp only [catalogText] at writing
            simpa only [writing] using Ends.notWritten ready writing
          · simp only [catalogText] at writing
            simp only [writing]
            exact Ends.written ready writing

end TextHarvest
