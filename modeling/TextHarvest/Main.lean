import TextHarvest.Command.Run

/-! # The command line tool

The tool works on a copy of the part of the file system that its arguments name: `Command.run` decides what is printed
and what is written, and the catalog is then written for real.
-/

namespace TextHarvest

open Files

/-- May there be anything to find in a file of this name? -/
def isSource (name : String) : Bool :=
  match ({} : Settings).check with
  | .ok (csharp, xaml) => csharp.selects name || xaml.selects name
  | .error _ => false

/-- What an action returns, unless it fails. -/
def attempt? {α : Type} (action : IO α) : IO (Option α) := do
  try
    return some (← action)
  catch _ => return none

/-- Where a path leads to, if it leads anywhere. -/
def realPath? (path : String) : IO (Option String) :=
  attempt? do return (← IO.FS.realPath path).toString

/-- A copy of what stands at a path that no link is part of, and the locations in it that may not be read. Links to
files count as files, links to directories are left out, and only sources have a content. -/
partial def copyNode (path name : String) : IO (Node × List (List String)) := do
  let place ← IO.FS.realPath path
  if ← place.isDir then
    let some listed ← attempt? place.readDir | return (.directory [], [[]])
    let mut entries := []
    let mut sealed := []
    for entry in listed do
      let inner := Path.join path entry.fileName
      if let some real ← realPath? inner then
        if real = inner || !(← (← IO.FS.realPath inner).isDir) then
          let (node, closed) ← copyNode real entry.fileName
          entries := (entry.fileName, node) :: entries
          sealed := closed.map (entry.fileName :: ·) ++ sealed
    return (.directory entries, sealed)
  else if isSource name then
    match ← attempt? (IO.FS.readBinFile path) with
    | some content => return (.file content, [])
    | none => return (.file ByteArray.empty, [[]])
  else return (.file ByteArray.empty, [])

/-- A copy of the source directory and of the directories above the target. -/
def copySystem (source target : String) : IO FileSystem := do
  let here := (← IO.currentDir).toString
  let mut system : FileSystem := { root := .directory [], workingDirectory := Path.names here }
  system := (system.makeDirectories here).1
  for path in (FileSystem.chainOf (target.length + 1) target).reverse do
    if let some real ← realPath? path then
      let isDirectory ← (← IO.FS.realPath real).isDir
      system := system.place path (if isDirectory then .directory [] else .file ByteArray.empty) []
  if let some real ← realPath? source then
    let (node, sealed) ← copyNode real ""
    system := system.place source node sealed
  return system

def writeTarget (system : FileSystem) (target : String) : IO Unit := do
  if let .ok content := system.readBytes target then
    if let some parent := Path.parent? target then
      if parent ≠ "" then IO.FS.createDirAll parent
    IO.FS.writeBinFile target content

end TextHarvest

open TextHarvest

def main (arguments : List String) : IO UInt32 := do
  let stdout ← IO.getStdout
  let stderr ← IO.getStderr
  let color ← stdout.isTty
  let invocation := Command.parse arguments
  let system ← match invocation with
    | .ok (.localize source target _) => copySystem source target
    | _ => pure { root := .directory [], workingDirectory := [] }
  let result := Command.run system color arguments
  if let .ok (.localize _ target _) := invocation then
    if result.exitCode = 0 then writeTarget result.system target
  stderr.putStr result.stderr
  stdout.putStr result.stdout
  return result.exitCode.toUInt32
