import TextHarvest.Command.Help
import TextHarvest.Report

/-! # Running the command line tool

`run` is the whole tool as a function: from the file system and the arguments to the file system after the run, what
is printed, and the exit code. The code is 0 for success, 1 for a run that failed, and 2 for arguments that make no
sense.
-/

namespace TextHarvest.Command

structure Result where
  system : Files.FileSystem
  exitCode : Nat
  stdout : String := ""
  stderr : String := ""

def runLocalize (system : Files.FileSystem) (color : Bool) (source target : String) (quiet : Bool) : Result :=
  let outcome := harvest system {} { source, target }
  let notices := if quiet then "" else unlines (outcome.notices.map (Notice.line color))
  match outcome.result with
  | .ok summary =>
    { system := outcome.system
      exitCode := 0
      stdout := if quiet then "" else unlines (summary.lines color)
      stderr := notices }
  | .error fault =>
    { system := outcome.system, exitCode := 1, stdout := fault.message ++ "\n", stderr := notices }

def run (system : Files.FileSystem) (color : Bool) (arguments : List String) : Result :=
  match parse arguments with
  | .error fault => { system, exitCode := 2, stderr := fault.text }
  | .ok (.help topic) => { system, exitCode := 0, stdout := unlines topic.lines }
  | .ok .version => { system, exitCode := 0, stdout := unlines [versionLine] }
  | .ok (.localize source target quiet) => runLocalize system color source target quiet

end TextHarvest.Command
