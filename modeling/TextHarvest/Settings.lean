import TextHarvest.CSharp.Extract
import TextHarvest.Glob
import TextHarvest.Po.Render

/-! # Settings of a run

Which files are searched, which names mark localizable texts in them, and what the header of the catalog says.
`Settings.check` tells the first setting that makes no sense.
-/

namespace TextHarvest

structure Settings where
  /-- The file name pattern of C# sources. -/
  csharpPattern : String := "*.cs"
  /-- The file name pattern of XAML sources. -/
  xamlPattern : String := "*.xaml"
  /-- The member whose calls carry texts. -/
  callName : String := "GetText"
  /-- The type whose creations carry texts. -/
  typeName : String := "LocalizedText"
  /-- The name of the markup extension that carries texts. -/
  markupMarker : String := "Localize"
  language : String := "en-US"
  pluralForms : String := "nplurals=2; plural=(n != 1);"
deriving DecidableEq, Repr

inductive SettingsFault
  | badPattern (pattern : String) (fault : Glob.Fault)
  /-- A name that is needed and has no visible character. -/
  | blankName (setting : String)
deriving DecidableEq, Repr

def SettingsFault.message : SettingsFault → String
  | .badPattern pattern fault => "Invalid file pattern: \"" ++ pattern ++ "\": " ++ fault.message
  | .blankName setting => "'" ++ setting ++ "' must not be empty"

namespace Settings

def readPattern (pattern : String) : Except SettingsFault Glob.Pattern :=
  match Glob.parse pattern with
  | .ok parsed => .ok parsed
  | .error fault => .error (.badPattern pattern fault)

/-- The names that must not be blank, with what they are called, in the order of checking. -/
def names (settings : Settings) : List (String × String) :=
  [("call_name", settings.callName), ("type_name", settings.typeName), ("markup_marker", settings.markupMarker)]

/-- The file name patterns of settings that make sense: that of C# sources and that of XAML sources. -/
def check (settings : Settings) : Except SettingsFault (Glob.Pattern × Glob.Pattern) :=
  match readPattern settings.csharpPattern with
  | .error fault => .error fault
  | .ok csharp =>
    match readPattern settings.xamlPattern with
    | .error fault => .error fault
    | .ok xaml =>
      match settings.names.find? fun (_, value) => Text.allBlank value with
      | some (setting, _) => .error (.blankName setting)
      | none => .ok (csharp, xaml)

def markers (settings : Settings) : CSharp.Markers :=
  ⟨settings.callName, settings.typeName⟩

def header (settings : Settings) : Po.Header :=
  ⟨settings.language, settings.pluralForms⟩

end Settings

end TextHarvest
