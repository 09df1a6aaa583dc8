import TextHarvest.Command.Usage
import TextHarvest.Text.Similarity

/-! # Command line arguments

`parse` reads the arguments of the command line tool from left to right: which command they ask for, or the first
thing that is wrong with them. A positional argument that is empty counts as wrong only when the argument after it
is known to be in order.
-/

namespace TextHarvest.Command

/-- What help is about. -/
inductive Topic
  | tool
  | localize
  | help
deriving DecidableEq, Repr

/-- What the arguments ask for. -/
inductive Invocation
  | help (topic : Topic)
  | version
  | localize (source target : String) (quiet : Bool)
deriving DecidableEq, Repr

inductive Shape
  /-- Two dashes: what follows is no option. -/
  | dashes
  /-- A long option, without its dashes, and the value behind an equals sign. -/
  | long (name : String) (value : Option String)
  /-- Short options, one a letter. -/
  | short (letters : List Char)
  | plain
deriving DecidableEq, Repr

/-- The shape of an argument. A single dash is no option. -/
def shapeOf (argument : String) : Shape :=
  match argument.toList with
  | ['-', '-'] => .dashes
  | '-' :: '-' :: rest =>
    let name := rest.takeWhile (· ≠ '=')
    match rest.drop name.length with
    | [] => .long (String.ofList name) none
    | _ :: value => .long (String.ofList name) (some (String.ofList value))
  | ['-'] => .plain
  | '-' :: letters => .short letters
  | _ => .plain

/-- The option that may have been meant by a name. -/
def similarOption? (options : List String) (name : String) : Option String :=
  (options.find? (Text.isSimilar name)).map ("--" ++ ·)

def localizeOptions : List String := ["quiet", "help"]

def toolOptions : List String := ["help", "version"]

/-- What was read of the arguments of the command. -/
structure Progress where
  /-- The positional arguments, in order. -/
  given : List String := []
  quiet : Bool := false
  /-- Were two dashes read? -/
  plain : Bool := false
deriving DecidableEq, Repr

namespace Progress

def options (progress : Progress) : List String :=
  if progress.quiet then ["--quiet"] else []

/-- The usage that is shown with an unknown option. A positional argument counts when the next argument is known. -/
def usage (progress : Progress) : Usage :=
  if progress.quiet ∨ 1 < progress.given.length then .localizeWith progress.options else .localize

/-- The usage that is shown with an option, besides the options that were given. -/
def usageWith (progress : Progress) (option : String) : Usage :=
  .localizeWith (progress.options.filter (· ≠ option) ++ [option])

/-- A positional argument is looked at when the next argument is known: it must not be empty. -/
def settle (progress : Progress) : Except UsageFault Progress :=
  if progress.given.getLast? = some "" then
    .error (.emptyValue (positionals.getD (progress.given.length - 1) ""))
  else .ok progress

def setQuiet (progress : Progress) : Except UsageFault Progress :=
  if progress.quiet then .error (.repeatedOption "--quiet") else .ok { progress with quiet := true }

def addPositional (progress : Progress) (argument : String) : Except UsageFault Progress :=
  if progress.given.length < positionals.length then do
    let progress ← progress.settle
    return { progress with given := progress.given ++ [argument] }
  else .error (.unknownArgument argument none .localize)

/-- What the arguments of the command ask for when all of them are read. -/
def finish (progress : Progress) : Except UsageFault Invocation := do
  let progress ← progress.settle
  match progress.given with
  | [source, target] => return .localize source target progress.quiet
  | given => .error (.missing (positionals.drop given.length) (.localizeWith progress.options))

end Progress

/-- Read short options of the command; `none` stands for a call for help. -/
def readShort (progress : Progress) : List Char → Except UsageFault (Option Progress)
  | [] => .ok (some progress)
  | letter :: rest =>
    if letter = 'q' then do
      let progress ← progress.settle
      let progress ← progress.setQuiet
      readShort progress rest
    else if letter = 'h' then do
      let _ ← progress.settle
      return none
    else
      let argument := String.ofList ['-', letter]
      .error (.unknownArgument argument (some (.asValue argument)) .localize)

/-- Read a long option of the command; `none` stands for a call for help. -/
def readLong (progress : Progress) (name : String) (value : Option String) : Except UsageFault (Option Progress) :=
  let argument := "--" ++ name
  if localizeOptions.contains name then
    match value with
    | some value => .error (.unexpectedValue value argument (progress.usageWith argument))
    | none => do
      let progress ← progress.settle
      if name = "help" then return none else some <$> progress.setQuiet
  else
    match similarOption? localizeOptions name with
    | some option => .error (.unknownArgument argument (some (.similarOption option)) (progress.usageWith option))
    | none => .error (.unknownArgument argument (some (.asValue argument)) progress.usage)

/-- Read the arguments behind the name of the command. -/
def parseLocalize (progress : Progress) : List String → Except UsageFault Invocation
  | [] => progress.finish
  | argument :: rest =>
    let goOn (read : Option Progress) : Except UsageFault Invocation :=
      match read with
      | some progress => parseLocalize progress rest
      | none => .ok (.help .localize)
    if progress.plain then do
      let progress ← progress.addPositional argument
      parseLocalize progress rest
    else
      match shapeOf argument with
      | .dashes => parseLocalize { progress with plain := true } rest
      | .long name value => do goOn (← readLong progress name value)
      | .short letters => do goOn (← readShort progress letters)
      | .plain => do
        let progress ← progress.addPositional argument
        parseLocalize progress rest

/-- Read the arguments behind the word `help`. -/
def parseHelp : List String → Except UsageFault Invocation
  | [] => .ok (.help .tool)
  | name :: rest =>
    if name = "localize" then
      match rest with
      | [] => .ok (.help .localize)
      | other :: _ => .error (.unknownCommand other none .localize)
    else if name = "help" then
      match rest with
      | [] => .ok (.help .help)
      | other :: _ => .error (.unknownCommand other none .help)
    else .error (.unknownCommand name none .tool)

/-- A long option before any command, with the arguments behind it. -/
def parseToolLong (name : String) (value : Option String) (rest : List String) : Except UsageFault Invocation :=
  let argument := "--" ++ name
  if toolOptions.contains name then
    match value with
    | some value => .error (.unexpectedValue value argument (.toolWith [argument]))
    | none => .ok (if name = "help" then .help .tool else .version)
  else
    match similarOption? toolOptions name with
    | some option => .error (.unknownArgument argument (some (.similarOption option)) (.toolWith [option]))
    | none =>
      let tip :=
        if rest.contains "localize" then
          (similarOption? localizeOptions name).map (Tip.optionOfCommand "localize")
        else none
      .error (.unknownArgument argument tip .tool)

/-- Short options before any command. -/
def parseToolShort : List Char → Except UsageFault Invocation
  | [] => .ok (.help .tool)
  | letter :: _ =>
    if letter = 'h' then .ok (.help .tool)
    else if letter = 'V' then .ok .version
    else .error (.unknownArgument (String.ofList ['-', letter]) none .tool)

def commands : List String := ["localize", "help"]

def parse : List String → Except UsageFault Invocation
  | [] => .ok (.help .tool)
  | argument :: rest =>
    match shapeOf argument with
    | .dashes =>
      match rest with
      | [] => .ok (.help .tool)
      | other :: _ =>
        .error (.unknownArgument other (if commands.contains other then some (.needlessDashes other) else none) .tool)
    | .long name value => parseToolLong name value rest
    | .short letters => parseToolShort letters
    | .plain =>
      if argument = "localize" then parseLocalize {} rest
      else if argument = "help" then parseHelp rest
      else
        .error (.unknownCommand argument
          ((commands.find? (Text.isSimilar argument)).map Tip.similarCommand) .tool)

end TextHarvest.Command
