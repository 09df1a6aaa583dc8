import TextHarvest.Command.Arguments

/-! # Help texts of the command line tool -/

namespace TextHarvest.Command

def Topic.lines : Topic → List String
  | .tool =>
    ["Extract localizable text from C# and XAML sources into a gettext PO catalog",
     "",
     "Usage: " ++ Usage.tool.text,
     "",
     "Commands:",
     "  localize  Extract localized text from a source directory",
     "  help      Print this message or the help of the given subcommand(s)",
     "",
     "Options:",
     "  -h, --help     Print help",
     "  -V, --version  Print version"]
  | .localize =>
    ["Extract localized text from a source directory",
     "",
     "Usage: " ++ Usage.localize.text,
     "",
     "Arguments:",
     "  <SOURCE_DIRECTORY>  Path to the directory that contains all sources",
     "  <TARGET_FILE_PATH>  Path to the file that is generated",
     "",
     "Options:",
     "  -q, --quiet  Suppress verbose output",
     "  -h, --help   Print help"]
  | .help =>
    ["Print this message or the help of the given subcommand(s)",
     "",
     "Usage: " ++ Usage.help.text,
     "",
     "Arguments:",
     "  [COMMAND]...  Print help for the subcommand(s)"]

def versionLine : String := "haf-tools 0.4.0"

end TextHarvest.Command
