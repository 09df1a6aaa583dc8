import TextHarvest.Extraction
import TextHarvest.Files.Scan

/-! # A whole run

`harvest` extracts the localizable texts of all sources below a directory and writes them as one catalog: first the
C# sources, then the XAML sources, each in the order of the scan. The first fault ends the run, and the catalog is
written only when all sources are in order. A run tells what it did file by file.
-/

namespace TextHarvest

/-- What to search and where to write. -/
structure Request where
  /-- The path of the directory with the sources. -/
  source : String
  /-- The path of the catalog. -/
  target : String
deriving DecidableEq, Repr

/-- What a run says about a file that was searched. -/
structure Notice where
  kind : SourceKind
  /-- The path of the file below the directory with the sources. -/
  file : String
  /-- The number of records in the file. -/
  found : Nat
  /-- The number of them that made new entries. -/
  added : Nat
deriving DecidableEq, Repr

structure Summary where
  csharpFiles : Nat
  xamlFiles : Nat
  /-- The number of records before repeated ids are dropped. -/
  textsFound : Nat
  entryCount : Nat
  duplicateCount : Nat
  target : String
deriving DecidableEq, Repr

def Summary.fileCount (summary : Summary) : Nat :=
  summary.csharpFiles + summary.xamlFiles

inductive HarvestFault
  | settings (fault : SettingsFault)
  /-- The path of the sources is empty. -/
  | noSource
  /-- The directory with the sources cannot be searched. -/
  | scan (root : String) (fault : Files.ScanFault)
  | extraction (fault : ExtractionFault)
  /-- The directory of the catalog cannot be made. -/
  | noDirectory (path : String) (fault : Files.FileFault)
  /-- The catalog cannot be written. -/
  | notWritten (path : String) (fault : Files.FileFault)
deriving DecidableEq, Repr

namespace HarvestFault

/-- The wordings of a fault and of the faults nested in it, from the outside in. -/
def messages : HarvestFault → List String
  | settings fault => [fault.message]
  | noSource => ["Invalid source directory: ", "cannot make an empty path absolute"]
  | scan root fault => fault.messages root
  | extraction fault => fault.messages
  | noDirectory path fault => ["Failed to create directory: " ++ path, fault.message]
  | notWritten path fault => ["Failed to write file: " ++ path, fault.message]

/-- The wording of a fault with all that is nested in it. -/
def message (fault : HarvestFault) : String :=
  ": ".intercalate fault.messages

end HarvestFault

/-- What was gathered so far. -/
structure Gathered where
  catalog : Catalog
  /-- The number of records before repeated ids are dropped. -/
  found : Nat := 0
  notices : List Notice := []
deriving DecidableEq, Repr

namespace Gathered

def add (gathered : Gathered) (kind : SourceKind) (file : String) (records : List TextRecord) : Gathered :=
  let ((found, added), catalog) := gathered.catalog.offerAll records
  { catalog
    found := gathered.found + found
    notices := gathered.notices ++ [⟨kind, file, found, added⟩] }

/-- Gather the records of files, given by their locations below the root, up to the first fault. -/
def addFiles (system : Files.FileSystem) (settings : Settings) (root : String) (kind : SourceKind) :
    Gathered → List (List String) → Gathered × Option ExtractionFault
  | gathered, [] => (gathered, none)
  | gathered, location :: rest =>
    match extractFile system settings kind (Files.pathBelow root location) with
    | .error fault => (gathered, some fault)
    | .ok records => addFiles system settings root kind (gathered.add kind ("/".intercalate location) records) rest

end Gathered

/-- Make the directory that a file is to stand in. -/
def makeParent (system : Files.FileSystem) (path : String) : Files.FileSystem × Except HarvestFault Unit :=
  match Files.Path.parent? path with
  | none => (system, .ok ())
  | some parent =>
    match system.makeDirectories parent with
    | (grown, .ok ()) => (grown, .ok ())
    | (grown, .error fault) => (grown, .error (.noDirectory parent fault))

/-- Write a catalog, with the directory it stands in. What was made stays made if a later step fails. -/
def writeCatalog (system : Files.FileSystem) (path content : String) :
    Files.FileSystem × Except HarvestFault Unit :=
  match makeParent system path with
  | (grown, .error fault) => (grown, .error fault)
  | (grown, .ok ()) =>
    match grown.writeBytes path content.toUTF8 with
    | .ok written => (written, .ok ())
    | .error fault => (grown, .error (.notWritten path fault))

/-- How a run ends: the file system after it, what it said, and its counts or why it failed. -/
structure Outcome where
  system : Files.FileSystem
  notices : List Notice
  result : Except HarvestFault Summary

/-- Gather the records of all sources below the root, the C# sources first. -/
def gather (system : Files.FileSystem) (settings : Settings) (root : String) (csharp xaml : Glob.Pattern) :
    Gathered × Except HarvestFault (Nat × Nat) :=
  let start : Gathered := { catalog := { root } }
  match system.scan root csharp with
  | .error fault => (start, .error (.scan root fault))
  | .ok csharpFiles =>
    match start.addFiles system settings root .csharp csharpFiles with
    | (gathered, some fault) => (gathered, .error (.extraction fault))
    | (gathered, none) =>
      match system.scan root xaml with
      | .error fault => (gathered, .error (.scan root fault))
      | .ok xamlFiles =>
        match gathered.addFiles system settings root .xaml xamlFiles with
        | (gathered, some fault) => (gathered, .error (.extraction fault))
        | (gathered, none) => (gathered, .ok (csharpFiles.length, xamlFiles.length))

/-- Extract all localizable texts below a directory and write the catalog. -/
def harvest (system : Files.FileSystem) (settings : Settings) (request : Request) : Outcome :=
  match settings.check with
  | .error fault => ⟨system, [], .error (.settings fault)⟩
  | .ok (csharp, xaml) =>
    match Files.Path.absolute? system.workingPath request.source with
    | none => ⟨system, [], .error .noSource⟩
    | some root =>
      match gather system settings root csharp xaml with
      | (gathered, .error fault) => ⟨system, gathered.notices, .error fault⟩
      | (gathered, .ok (csharpFiles, xamlFiles)) =>
        match writeCatalog system request.target (Po.render settings.header gathered.catalog) with
        | (system, .error fault) => ⟨system, gathered.notices, .error fault⟩
        | (system, .ok ()) =>
          ⟨system, gathered.notices, .ok {
            csharpFiles
            xamlFiles
            textsFound := gathered.found
            entryCount := gathered.catalog.size
            duplicateCount := gathered.catalog.duplicates
            target := request.target }⟩

end TextHarvest
