/-! # Paths as text

A path is a text of names with slashes between them. It is absolute if a slash opens it. The functions here look at
the text only; which file a path leads to is the business of a file system.
-/

namespace TextHarvest.Files.Path

/-- The parts between the slashes, empty ones included. -/
def parts (path : String) : List String :=
  (path.toList.splitOn '/').map String.ofList

def isAbsolute (path : String) : Bool :=
  path.toList.head? == some '/'

def endsInSlash (path : String) : Bool :=
  path.toList.getLast? == some '/'

/-- The path without the slashes at its end; a path of slashes only keeps one. -/
def dropSlashes (path : String) : String :=
  match path.toList.reverse.dropWhile (· = '/') with
  | [] => if isAbsolute path then "/" else path
  | rest => String.ofList rest.reverse

/-- A name in the directory at a path. -/
def join (directory name : String) : String :=
  if directory = "" ∨ endsInSlash directory then directory ++ name else directory ++ "/" ++ name

/-- The names of a path: parts that are empty or a single point name nothing. -/
def names (path : String) : List String :=
  (parts path).filter fun part => part ≠ "" ∧ part ≠ "."

/-- A path made absolute, from the working directory if it is not absolute itself. Empty parts and single points are
dropped; a slash at the end and double points stay. Exactly two slashes at the front stay two. -/
def absolute? (workingDirectory path : String) : Option String :=
  if path = "" then none
  else
    let slashes := (path.toList.takeWhile (· = '/')).length
    let start := if slashes = 0 then workingDirectory else if slashes = 2 then "//" else "/"
    let joined := (names path).foldl join start
    some (if endsInSlash path then join joined "" else joined)

/-- Drop slashes and single points at the end of a path whose characters are given last first. The slash of the root
directory stays, and so does a point that opens the path. -/
def trimBackwards : List Char → List Char
  | ['/'] => ['/']
  | '/' :: rest => trimBackwards rest
  | '.' :: '/' :: rest => trimBackwards ('/' :: rest)
  | other => other

/-- The path of the directory that a path names something in. The root directory and the empty path have none. -/
def parent? (path : String) : Option String :=
  match trimBackwards path.toList.reverse with
  | [] => none
  | ['/'] => none
  | trimmed => some (String.ofList (trimBackwards (trimmed.dropWhile (· ≠ '/'))).reverse)

end TextHarvest.Files.Path
