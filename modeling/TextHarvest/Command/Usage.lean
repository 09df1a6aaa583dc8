/-! # What is wrong with command line arguments

A `UsageFault` tells what is wrong with the arguments of the command line tool. `UsageFault.text` is its wording
together with a tip, the usage, and where to find help.
-/

namespace TextHarvest.Command

/-- The usage that is shown with a fault. -/
inductive Usage
  | tool
  /-- The tool, with the options that were given. -/
  | toolWith (options : List String)
  | help
  /-- The command, with any options. -/
  | localize
  /-- The command, with the options that were given. -/
  | localizeWith (options : List String)
deriving DecidableEq, Repr

def positionals : List String := ["<SOURCE_DIRECTORY>", "<TARGET_FILE_PATH>"]

def Usage.text : Usage → String
  | .tool => "haf-tools [COMMAND]"
  | .toolWith options => " ".intercalate ("haf-tools" :: options)
  | .help => "haf-tools help [COMMAND]..."
  | .localize => " ".intercalate (["haf-tools", "localize", "[OPTIONS]"] ++ positionals)
  | .localizeWith options => " ".intercalate (["haf-tools", "localize"] ++ options ++ positionals)

/-- What may help with a fault. -/
inductive Tip
  | similarCommand (name : String)
  | similarOption (option : String)
  /-- The option belongs to a command that comes later. -/
  | optionOfCommand (command option : String)
  /-- The argument may be meant as a value. -/
  | asValue (argument : String)
  /-- The command stands behind two dashes. -/
  | needlessDashes (command : String)
deriving DecidableEq, Repr

def Tip.text : Tip → String
  | .similarCommand name => "a similar subcommand exists: '" ++ name ++ "'"
  | .similarOption option => "a similar argument exists: '" ++ option ++ "'"
  | .optionOfCommand command option => "'" ++ command ++ " " ++ option ++ "' exists"
  | .asValue argument => "to pass '" ++ argument ++ "' as a value, use '-- " ++ argument ++ "'"
  | .needlessDashes command => "subcommand '" ++ command ++ "' exists; to use it, remove the '--' before it"

/-- What is wrong with the arguments. -/
inductive UsageFault
  | unknownCommand (name : String) (tip : Option Tip) (usage : Usage)
  | unknownArgument (argument : String) (tip : Option Tip) (usage : Usage)
  | missing (arguments : List String) (usage : Usage)
  | repeatedOption (option : String)
  | unexpectedValue (value option : String) (usage : Usage)
  | emptyValue (argument : String)
deriving DecidableEq, Repr

namespace UsageFault

def message : UsageFault → String
  | unknownCommand name _ _ => "unrecognized subcommand '" ++ name ++ "'"
  | unknownArgument argument _ _ => "unexpected argument '" ++ argument ++ "' found"
  | missing arguments _ =>
    "\n".intercalate ("the following required arguments were not provided:" :: arguments.map ("  " ++ ·))
  | repeatedOption option => "the argument '" ++ option ++ "' cannot be used multiple times"
  | unexpectedValue value option _ =>
    "unexpected value '" ++ value ++ "' for '" ++ option ++ "' found; no more were expected"
  | emptyValue argument => "a value is required for '" ++ argument ++ "' but none was supplied"

def tip? : UsageFault → Option Tip
  | unknownCommand _ tip _ => tip
  | unknownArgument _ tip _ => tip
  | _ => none

def usage? : UsageFault → Option Usage
  | unknownCommand _ _ usage => some usage
  | unknownArgument _ _ usage => some usage
  | missing _ usage => some usage
  | repeatedOption _ => some .localize
  | unexpectedValue _ _ usage => some usage
  | emptyValue _ => none

/-- What is printed about a fault: its parts have an empty line between them. -/
def text (fault : UsageFault) : String :=
  let tip := match fault.tip? with
    | some tip => ["  tip: " ++ tip.text]
    | none => []
  let usage := match fault.usage? with
    | some usage => ["Usage: " ++ usage.text]
    | none => []
  "\n\n".intercalate (["error: " ++ fault.message] ++ tip ++ usage ++ ["For more information, try '--help'."]) ++ "\n"

end UsageFault

end TextHarvest.Command
