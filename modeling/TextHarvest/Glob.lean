/-! # File name patterns

A pattern selects file names: `?` stands for any character, `*` for any run of characters, `[abc]` and `[a-z]` for
one character of a class and `[!abc]` for one that is not in it; every other character stands for itself. `**` stands
for whole directories and must be a path component of its own.

`Glob.parse` reads a pattern and `Glob.Pattern.selects` matches a name against it.
-/

namespace TextHarvest.Glob

/-- What a class of characters is made of. -/
inductive ClassItem
  | single (c : Char)
  /-- All characters from the first to the last, both included. -/
  | range (first last : Char)
deriving DecidableEq, Repr

def ClassItem.holds (item : ClassItem) (c : Char) : Bool :=
  match item with
  | single own => c == own
  | range first last => first ≤ c && c ≤ last

inductive Part
  | literal (c : Char)
  /-- Any one character. -/
  | anyChar
  /-- Any run of characters. -/
  | anyRun
  /-- Any number of whole directories, or all that is left. -/
  | anyDirectories
  /-- One character of the class. -/
  | within (items : List ClassItem)
  /-- One character that is not in the class. -/
  | except (items : List ClassItem)
deriving DecidableEq, Repr

structure Pattern where
  parts : List Part
deriving DecidableEq, Repr

inductive Reason
  /-- Three or more stars in a row. -/
  | starRun
  /-- Two stars that are no path component. -/
  | notComponent
  /-- A square bracket that is not closed. -/
  | openClass
deriving DecidableEq, Repr

/-- A fault in a pattern, with its place in characters. -/
structure Fault where
  position : Nat
  reason : Reason
deriving DecidableEq, Repr

def Reason.message : Reason → String
  | .starRun => "wildcards are either regular `*` or recursive `**`"
  | .notComponent => "recursive wildcards must form a single path component"
  | .openClass => "invalid range pattern"

def Fault.message (fault : Fault) : String :=
  s!"Pattern syntax error near position {fault.position}: " ++ fault.reason.message

/-- The items of a class: a dash between two characters makes a range. -/
def classItems : List Char → List ClassItem
  | first :: '-' :: last :: rest => .range first last :: classItems rest
  | c :: rest => .single c :: classItems rest
  | [] => []

/-- The class behind an opening square bracket, and its length with the closing bracket. A class has at least one
character, so a closing bracket at its front belongs to it. -/
def readClass? : List Char → Option (Part × Nat)
  | '!' :: first :: rest =>
    let inner := first :: rest.takeWhile (· ≠ ']')
    if inner.length ≤ rest.length then some (.except (classItems inner), inner.length + 2) else none
  | '!' :: [] => none
  | first :: rest =>
    let inner := first :: rest.takeWhile (· ≠ ']')
    if inner.length ≤ rest.length then some (.within (classItems inner), inner.length + 1) else none
  | [] => none

/-- Read a run of `stars` stars that starts at `position` behind the character `previous`, with `rest` behind it: the
part it makes and its length. A slash behind two stars belongs to them. -/
def readStars (position stars : Nat) (previous : Option Char) (rest : List Char) : Except Fault (Part × Nat) :=
  if 2 < stars then .error ⟨position + 2, .starRun⟩
  else if stars = 2 then
    if position = 0 ∨ previous = some '/' then
      match rest with
      | [] => .ok (.anyDirectories, 2)
      | c :: _ => if c = '/' then .ok (.anyDirectories, 3) else .error ⟨position + 2, .notComponent⟩
    else .error ⟨position - 1, .notComponent⟩
  else .ok (.anyRun, 1)

/-- The part at the front of a pattern and its length. -/
def readPart (position : Nat) (previous : Option Char) (c : Char) (rest : List Char) : Except Fault (Part × Nat) :=
  if c = '?' then .ok (.anyChar, 1)
  else if c = '*' then
    let more := (rest.takeWhile (· = '*')).length
    readStars position (more + 1) previous (rest.drop more)
  else if c = '[' then
    match readClass? rest with
    | some (part, length) => .ok (part, length + 1)
    | none => .error ⟨position, .openClass⟩
  else .ok (.literal c, 1)

/-- Read the rest of a pattern, of which `pending` characters belong to the last part; `position` counts the
characters before it and `previous` is the last of them. -/
def partsFrom : Nat → Nat → Option Char → List Char → Except Fault (List Part)
  | _, _, _, [] => .ok []
  | pending + 1, position, _, c :: rest => partsFrom pending (position + 1) (some c) rest
  | 0, position, previous, c :: rest =>
    match readPart position previous c rest with
    | .error fault => .error fault
    | .ok (part, length) =>
      match partsFrom (length - 1) (position + 1) (some c) rest with
      | .error fault => .error fault
      | .ok parts => .ok (part :: parts)

def parse (pattern : String) : Except Fault Pattern :=
  match partsFrom 0 0 none pattern.toList with
  | .ok parts => .ok ⟨parts⟩
  | .error fault => .error fault

/-- Does the test hold for some end of the text? -/
def someEnd (test : List Char → Bool) : List Char → Bool
  | [] => test []
  | c :: rest => test (c :: rest) || someEnd test rest

/-- Does the test hold for some end of the text that stands right behind a slash? -/
def someEndAfterSlash (test : List Char → Bool) : List Char → Bool
  | [] => false
  | c :: rest => (c == '/' && test rest) || someEndAfterSlash test rest

/-- Do the parts match the whole text? -/
def matchParts : List Part → List Char → Bool
  | [], text => text.isEmpty
  | .anyRun :: parts, text => someEnd (matchParts parts) text
  | .anyDirectories :: parts, text =>
    matchParts parts text || someEndAfterSlash (matchParts parts) text || matchParts parts []
  | _ :: _, [] => false
  | .literal own :: parts, c :: rest => c == own && matchParts parts rest
  | .anyChar :: parts, _ :: rest => matchParts parts rest
  | .within items :: parts, c :: rest => items.any (·.holds c) && matchParts parts rest
  | .except items :: parts, c :: rest => !items.any (·.holds c) && matchParts parts rest

def Pattern.selects (pattern : Pattern) (name : String) : Bool :=
  matchParts pattern.parts name.toList

end TextHarvest.Glob
