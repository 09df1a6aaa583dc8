import TextHarvest.Files.System
import TextHarvest.Settings
import TextHarvest.Xaml.Extract

/-! # Extracting texts from a source file

There are two kinds of sources. `extractSource` lists the records of a source text of either kind and
`extractFile` those of a file. A file that is not in order has no records at all: an `ExtractionFault` tells why.
-/

namespace TextHarvest

inductive SourceKind
  | csharp
  | xaml
deriving DecidableEq, Repr

def SourceKind.name : SourceKind → String
  | .csharp => "C#"
  | .xaml => "XAML"

/-- Why a file cannot be read as text. -/
inductive ReadFault
  | file (fault : Files.FileFault)
  /-- The bytes are no UTF-8. -/
  | notText
deriving DecidableEq, Repr

def ReadFault.message : ReadFault → String
  | .file fault => fault.message
  | .notText => "stream did not contain valid UTF-8"

/-- Why a file has no records. -/
inductive ExtractionFault
  /-- The text is not C#. Line and column of the error are left out, since they depend on how a parser goes on behind
  it, and so the wording stops short of them. -/
  | notCSharp (path : String)
  /-- The text is no XML document. -/
  | notXml (path : String) (fault : Xml.DocumentFault)
  /-- There is no text. -/
  | unreadable (path : String) (fault : ReadFault)
deriving DecidableEq, Repr

namespace ExtractionFault

def message : ExtractionFault → String
  | notCSharp path => "the file \"" ++ path ++ "\" contains errors"
  | notXml path (.malformed position fault) =>
    "the file \"" ++ path ++ "\" is not well-formed XML at byte " ++ toString position ++ ": " ++ fault.message
  | notXml path (.misshapen line fault) =>
    "the file \"" ++ path ++ "\" is not a valid XML document (line " ++ toString line ++ "): " ++ fault.message
  | unreadable path fault => "failed to read \"" ++ path ++ "\": " ++ fault.message

/-- The wordings of a fault and of the faults nested in it, from the outside in. -/
def messages (fault : ExtractionFault) : List String :=
  fault.message ::
    match fault with
    | notXml _ (.malformed _ cause) => cause.messages
    | unreadable _ cause => [cause.message]
    | _ => []

end ExtractionFault

def extractSource (settings : Settings) (kind : SourceKind) (path source : String) :
    Except ExtractionFault (List TextRecord) :=
  match kind with
  | .csharp =>
    match CSharp.extract? settings.markers path source with
    | some records => .ok records
    | none => .error (.notCSharp path)
  | .xaml =>
    match Xaml.extract settings.markupMarker path source with
    | .ok records => .ok records
    | .error fault => .error (.notXml path fault)

def readText (system : Files.FileSystem) (path : String) : Except ReadFault String :=
  if system.isSealed path then .error (.file .denied)
  else
    match system.readBytes path with
    | .error fault => .error (.file fault)
    | .ok content =>
      match String.fromUTF8? content with
      | some text => .ok text
      | none => .error .notText

def extractFile (system : Files.FileSystem) (settings : Settings) (kind : SourceKind) (path : String) :
    Except ExtractionFault (List TextRecord) :=
  match readText system path with
  | .ok source => extractSource settings kind path source
  | .error fault => .error (.unreadable path fault)

end TextHarvest
