import TextHarvest.Files.Path
import TextHarvest.Files.Tree

/-! # A file system as a value

A `FileSystem` is a file tree and a working directory. Paths lead through it as an operating system would have it:
links are followed, two points lead back, and each way to fail has its own cause. Operations that write return the
changed system.

What may not be read is part of the state. It is the reading that is refused, of the bytes of a file or of the names in
a directory: paths still lead there and through it.
-/

namespace TextHarvest.Files

/-- Why an operation on files fails. -/
inductive FileFault
  | notFound
  | denied
  | exists
  | notDirectory
  | isDirectory
  | tooManyLinks
deriving DecidableEq, Repr

/-- The wording of a cause, with the number the operating system gives it. -/
def FileFault.message : FileFault → String
  | .notFound => "No such file or directory (os error 2)"
  | .denied => "Permission denied (os error 13)"
  | .exists => "File exists (os error 17)"
  | .notDirectory => "Not a directory (os error 20)"
  | .isDirectory => "Is a directory (os error 21)"
  | .tooManyLinks => "Too many levels of symbolic links (os error 40)"

/-- Where a path leads. -/
inductive Place
  /-- To a node. -/
  | node (location : List String)
  /-- To a name that is free in a directory; a slash may stand behind the name. -/
  | free (directory : List String) (name : String) (slash : Bool)
deriving DecidableEq, Repr

structure FileSystem where
  root : Node
  /-- The location from which relative paths start. -/
  workingDirectory : List String
  /-- The locations of the files and directories that may not be read. -/
  sealed : List (List String) := []

namespace FileSystem

def linkLimit : Nat := 40

/-- Follow the parts of a path from a location; `follow` tells whether a link at the end is followed too. -/
def resolveFrom (root : Node) (follow : Bool) (links : Nat) (location parts : List String) :
    Except FileFault Place :=
  match parts with
  | [] => .ok (.node location)
  | part :: rest =>
    match root.get? location with
    | some (.directory entries) =>
      if part = "" ∨ part = "." then resolveFrom root follow links location rest
      else if part = ".." then resolveFrom root follow links location.dropLast rest
      else
        match entries.lookup part with
        | none => if rest.all (· = "") then .ok (.free location part (rest ≠ [])) else .error .notFound
        | some (.link target) =>
          if rest = [] ∧ ¬ follow then .ok (.node (location ++ [part]))
          else
            match links with
            | 0 => .error .tooManyLinks
            | links + 1 =>
              resolveFrom root follow links (if Path.isAbsolute target then [] else location)
                (Path.parts target ++ rest)
        | some _ => resolveFrom root follow links (location ++ [part]) rest
    | some _ => .error .notDirectory
    | none => .error .notFound
termination_by (links, parts.length)

def resolve (system : FileSystem) (path : String) (follow : Bool) : Except FileFault Place :=
  if path = "" then .error .notFound
  else
    resolveFrom system.root follow linkLimit (if Path.isAbsolute path then [] else system.workingDirectory)
      (Path.parts path)

/-- The location that a path leads to, links followed, and the node that stands there. -/
def locate (system : FileSystem) (path : String) : Except FileFault (List String × Node) :=
  match system.resolve path true with
  | .error fault => .error fault
  | .ok (.free _ _ _) => .error .notFound
  | .ok (.node location) =>
    match system.root.get? location with
    | some node => .ok (location, node)
    | none => .error .notFound

def node? (system : FileSystem) (path : String) : Except FileFault Node :=
  match system.locate path with
  | .error fault => .error fault
  | .ok (_, node) => .ok node

def isDirectory (system : FileSystem) (path : String) : Bool :=
  match system.node? path with
  | .ok (.directory _) => true
  | _ => false

def isFile (system : FileSystem) (path : String) : Bool :=
  match system.node? path with
  | .ok (.file _) => true
  | _ => false

/-- May what the path leads to not be read? -/
def isSealed (system : FileSystem) (path : String) : Bool :=
  match system.locate path with
  | .ok (location, _) => system.sealed.contains location
  | .error _ => false

/-- The bytes of the file that a path leads to, whether they may be read or not. -/
def readBytes (system : FileSystem) (path : String) : Except FileFault ByteArray :=
  match system.node? path with
  | .ok (.file content) => .ok content
  | .ok (.directory _) => .error .isDirectory
  | .ok (.link _) => .error .notFound
  | .error fault => .error fault

/-- A new node at a location; it may be read. -/
def put (system : FileSystem) (location : List String) (node : Node) : FileSystem :=
  { system with
    root := Node.set node location system.root
    sealed := system.sealed.filter (· ≠ location) }

/-- Make a directory in a directory that exists. -/
def makeDirectory (system : FileSystem) (path : String) : Except FileFault FileSystem :=
  match system.resolve (Path.dropSlashes path) false with
  | .error fault => .error fault
  | .ok (.node _) => .error .exists
  | .ok (.free location name _) => .ok (system.put (location ++ [name]) (.directory []))

/-- Write a file, which may exist, into a directory that exists. A path that ends in a slash stands for a directory
and cannot be written. -/
def writeBytes (system : FileSystem) (path : String) (content : ByteArray) : Except FileFault FileSystem :=
  if Path.endsInSlash path then
    match system.resolve (Path.dropSlashes path) false with
    | .error fault => .error fault
    | .ok _ => .error .isDirectory
  else
    match system.resolve path true with
    | .error fault => .error fault
    | .ok (.free location name slash) =>
      if slash then .error .isDirectory else .ok (system.put (location ++ [name]) (.file content))
    | .ok (.node location) =>
      match system.root.get? location with
      | some (.file _) => .ok { system with root := Node.set (.file content) location system.root }
      | _ => .error .isDirectory

/-- Make the first of the directories, where each of the others is the parent of the one before it. What was made
stays made if a later step fails. -/
def makeChain : List String → FileSystem → FileSystem × Except FileFault Unit
  | [], system => (system, .ok ())
  | path :: parents, system =>
    match system.makeDirectory path with
    | .ok made => (made, .ok ())
    | .error .notFound =>
      match makeChain parents system with
      | (grown, .error fault) => (grown, .error fault)
      | (grown, .ok ()) =>
        match grown.makeDirectory path with
        | .ok made => (made, .ok ())
        | .error fault => (grown, if grown.isDirectory path then .ok () else .error fault)
    | .error fault => (system, if system.isDirectory path then .ok () else .error fault)

/-- A path and the paths of the directories above it, as far as the text of the path tells; `limit` bounds their
number. -/
def chainOf : Nat → String → List String
  | 0, _ => []
  | limit + 1, path =>
    if path = "" then []
    else
      path :: match Path.parent? path with
        | some parent => chainOf limit parent
        | none => []

/-- Make a directory and all directories above it that do not exist. -/
def makeDirectories (system : FileSystem) (path : String) : FileSystem × Except FileFault Unit :=
  makeChain (chainOf (path.length + 1) path) system

/-- Take away what a path leads to; a link at the end is taken away itself. -/
def remove (system : FileSystem) (path : String) : Except FileFault FileSystem :=
  match system.resolve path false with
  | .error fault => .error fault
  | .ok (.free _ _ _) => .error .notFound
  | .ok (.node location) => .ok { system with root := system.root.erase location }

def makeLink (system : FileSystem) (path target : String) : Except FileFault FileSystem :=
  match system.resolve path false with
  | .error fault => .error fault
  | .ok (.node _) => .error .exists
  | .ok (.free location name slash) =>
    if slash then .error .notFound else .ok (system.put (location ++ [name]) (.link target))

/-- Put a node at a path, with all directories above it. In the node, the locations in `sealed` may not be read. -/
def place (system : FileSystem) (path : String) (node : Node) (sealed : List (List String)) : FileSystem :=
  let (grown, _) := system.makeDirectories ((Path.parent? path).getD "")
  let putAt (location : List String) : FileSystem :=
    let placed := grown.put location node
    { placed with sealed := placed.sealed ++ sealed.map (location ++ ·) }
  match grown.resolve (Path.dropSlashes path) true with
  | .ok (.node location) => putAt location
  | .ok (.free location name _) => putAt (location ++ [name])
  | .error _ => grown

def workingPath (system : FileSystem) : String :=
  "/" ++ "/".intercalate system.workingDirectory

end FileSystem

end TextHarvest.Files
