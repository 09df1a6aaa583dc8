import TextHarvest.Files.System
import TextHarvest.Glob

/-! # Searching a directory for files

`FileSystem.scan` lists the files below a directory whose own names a pattern selects. Directories are searched in
the order of names, whatever order they are stored in, and a link to a directory is not entered. A directory that may
not be read ends the search, and then nothing is listed.
-/

namespace TextHarvest.Files

def pathBelow (directory : String) (location : List String) : String :=
  Path.join directory ("/".intercalate location)

/-- Why a directory cannot be searched. -/
inductive ScanFault
  /-- There is no such directory. -/
  | notFound
  /-- The directory at a location below may not be read. -/
  | sealed (location : List String)
deriving DecidableEq, Repr

/-- The wordings of a fault in the search of a directory, from the outside in. -/
def ScanFault.messages (directory : String) : ScanFault → List String
  | .notFound => ["Source directory not found: " ++ directory]
  | .sealed location =>
    let path := if location = [] then directory else pathBelow directory location
    let cause := FileFault.denied.message
    ["Cannot access path under " ++ directory, "IO error for operation on " ++ path ++ ": " ++ cause, cause]

namespace FileSystem

/-- May the node, at a location below `base`, not be searched? -/
def closed (system : FileSystem) (base location : List String) (node : Node) : Bool :=
  node.isDirectory && system.sealed.contains (base ++ location)

/-- The tree below the directory at a path. Every directory in it can be read: the fault names the first that cannot, in
the order of the search. -/
def treeAt (system : FileSystem) (directory : String) : Except ScanFault Node :=
  match system.locate directory with
  | .ok (base, .directory entries) =>
    match ((Node.directory entries).walk (system.closed base) []).head? with
    | some location => .error (.sealed location)
    | none => .ok (.directory entries)
  | _ => .error .notFound

/-- Is the node at a location below a directory a file, links followed, whose name the pattern selects? -/
def isSelected (system : FileSystem) (directory : String) (pattern : Glob.Pattern) (location : List String)
    (node : Node) : Bool :=
  match location.getLast? with
  | none => false
  | some name =>
    pattern.selects name &&
      match node with
      | .file _ => true
      | .directory _ => false
      | .link _ => system.isFile (pathBelow directory location)

/-- The locations, below the directory at a path, of the files whose names the pattern selects. -/
def scan (system : FileSystem) (directory : String) (pattern : Glob.Pattern) :
    Except ScanFault (List (List String)) :=
  match system.treeAt directory with
  | .ok tree => .ok (tree.walk (system.isSelected directory pattern) [])
  | .error fault => .error fault

end FileSystem

end TextHarvest.Files
