/-! # Trees of files

A `Node` is a directory with named nodes in it, a file with its bytes, or a link that stands for another path. A
location is the row of names that leads to a node from the root, where links are not followed.
-/

namespace TextHarvest.Files

inductive Node
  | directory (entries : List (String × Node))
  | file (content : ByteArray)
  | link (target : String)

namespace Node

def isDirectory : Node → Bool
  | directory _ => true
  | _ => false

def get? : List String → Node → Option Node
  | [], node => some node
  | name :: rest, directory entries =>
    match entries.lookup name with
    | some child => child.get? rest
    | none => none
  | _ :: _, _ => none

def setEntry (name : String) (node : Node) : List (String × Node) → List (String × Node)
  | [] => [(name, node)]
  | (other, child) :: rest =>
    if other = name then (name, node) :: rest else (other, child) :: setEntry name node rest

/-- Set the node at a location; the directories on the way there must exist. -/
def set (new : Node) : List String → Node → Node
  | [], _ => new
  | [name], directory entries => directory (setEntry name new entries)
  | name :: rest, directory entries =>
    match entries.lookup name with
    | some child => directory (setEntry name (set new rest child) entries)
    | none => directory entries
  | _ :: _, node => node

def erase : List String → Node → Node
  | [], node => node
  | [name], directory entries => directory (entries.filter fun (other, _) => other ≠ name)
  | name :: rest, directory entries =>
    match entries.lookup name with
    | some child => directory (setEntry name (child.erase rest) entries)
    | none => directory entries
  | _ :: _, node => node

/-- The location of a node, if `keep` accepts it there. -/
def visit (keep : List String → Node → Bool) (location : List String) (node : Node) : List (List String) :=
  if keep location node then [location] else []

mutual

/-- The locations of a node and of all that stands below it, as far as `keep` accepts them. A directory comes before
its contents, which are ordered by their names. -/
def walk (keep : List String → Node → Bool) (location : List String) : Node → List (List String)
  | directory entries =>
    let rows := walkEntries keep location entries
    visit keep location (directory entries) ++
      (rows.mergeSort fun first second => decide (first.1 ≤ second.1)).flatMap Prod.snd
  | file content => visit keep location (file content)
  | link target => visit keep location (link target)

/-- For each entry of a directory its name and the locations below it. -/
def walkEntries (keep : List String → Node → Bool) (location : List String) :
    List (String × Node) → List (String × List (List String))
  | [] => []
  | (name, node) :: rest => (name, walk keep (location ++ [name]) node) :: walkEntries keep location rest

end

end Node

end TextHarvest.Files
