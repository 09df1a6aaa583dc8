import TextHarvest.Files.System
import TextHarvest.Proofs.Files.Tree

/-! # Where paths lead

Following a path looks at nothing but the kinds of nodes: which are directories, which are files, and where links point
(`resolveFrom_cons`). `Leads` gives the ways in which a path can be followed to its end, and `resolveFrom` follows just
these. So a path that leads to a node still leads there after the tree has grown, and one that led to a free name leads
to what was put there (`Leads.of_grows`).
-/

namespace TextHarvest.Files

/-- What following a path sees of a node. -/
inductive Kind
  | directory
  | file
  | link (target : String)
deriving DecidableEq

def Label.kind : Label → Kind
  | directory => .directory
  | file _ => .file
  | link target => .link target

namespace Node

def kindAt (root : Node) (location : List String) : Option Kind :=
  (root.labelAt location).map Label.kind

/-- Every node of a tree has one of the same kind in the other tree, at the same location. -/
def Grows (root grown : Node) : Prop :=
  ∀ location kind, root.kindAt location = some kind → grown.kindAt location = some kind

theorem kindAt_eq_directory_iff {root : Node} {location : List String} :
    root.kindAt location = some .directory ↔ ∃ entries, root.get? location = some (directory entries) := by
  rw [← labelAt_eq_directory_iff, kindAt, Option.map_eq_some_iff]
  constructor
  · rintro ⟨label, found, same⟩
    cases label with
    | directory => exact found
    | file content => cases same
    | link target => cases same
  · intro found
    exact ⟨_, found, rfl⟩

private theorem kindAt_append_singleton {root : Node} {location : List String} {entries : List (String × Node)}
    (here : root.get? location = some (directory entries)) (name : String) :
    root.kindAt (location ++ [name]) = (entries.lookup name).map (·.label.kind) := by
  rw [kindAt, labelAt_append_singleton here, Option.map_map]
  rfl

end Node

namespace FileSystem

/-- One part of a path is followed by the kinds of two nodes: the one it starts from and the one it names. -/
theorem resolveFrom_cons (root : Node) (follow : Bool) (links : Nat) (location : List String) (part : String)
    (rest : List String) :
    resolveFrom root follow links location (part :: rest) =
      match root.kindAt location with
      | some .directory =>
        if part = "" ∨ part = "." then resolveFrom root follow links location rest
        else if part = ".." then resolveFrom root follow links location.dropLast rest
        else
          match root.kindAt (location ++ [part]) with
          | none => if rest.all (· = "") then .ok (.free location part (rest ≠ [])) else .error .notFound
          | some (.link target) =>
            if rest = [] ∧ ¬ follow then .ok (.node (location ++ [part]))
            else
              match links with
              | 0 => .error .tooManyLinks
              | links + 1 =>
                resolveFrom root follow links (if Path.isAbsolute target then [] else location)
                  (Path.parts target ++ rest)
          | some _ => resolveFrom root follow links (location ++ [part]) rest
      | some _ => .error .notDirectory
      | none => .error .notFound := by
  rw [resolveFrom]
  cases found : root.get? location with
  | none => simp [Node.kindAt, Node.labelAt, found]
  | some node =>
    cases node with
    | file content => simp [Node.kindAt, Node.labelAt, found, Node.label, Label.kind]
    | link target => simp [Node.kindAt, Node.labelAt, found, Node.label, Label.kind]
    | directory entries =>
      rw [Node.kindAt_eq_directory_iff.mpr ⟨entries, found⟩, Node.kindAt_append_singleton found]
      dsimp only
      cases entries.lookup part with
      | none => rfl
      | some child => cases child <;> rfl

/-- The parts of a path that lead on to a node of their name. -/
def IsName (part : String) : Prop :=
  part ≠ "" ∧ part ≠ "." ∧ part ≠ ".."

private theorem isName_of {part : String} (solid : ¬ (part = "" ∨ part = ".")) (notBack : part ≠ "..") : IsName part :=
  ⟨fun same => solid (.inl same), fun same => solid (.inr same), notBack⟩

/-- Where the parts of a path lead from a location, with at most so many links on the way. -/
inductive Leads (root : Node) (follow : Bool) : Nat → List String → List String → Place → Prop
  | here (links : Nat) (location : List String) : Leads root follow links location [] (.node location)
  | stay {links : Nat} {location rest : List String} {part : String} {place : Place}
      (inside : root.kindAt location = some .directory) (blank : part = "" ∨ part = ".") :
      Leads root follow links location rest place → Leads root follow links location (part :: rest) place
  | back {links : Nat} {location rest : List String} {place : Place}
      (inside : root.kindAt location = some .directory) :
      Leads root follow links location.dropLast rest place → Leads root follow links location (".." :: rest) place
  | free {links : Nat} {location rest : List String} {part : String}
      (inside : root.kindAt location = some .directory) (named : IsName part)
      (absent : root.kindAt (location ++ [part]) = none) (ended : rest.all (· = "") = true) :
      Leads root follow links location (part :: rest) (.free location part (rest ≠ []))
  | stop {links : Nat} {location : List String} {part target : String}
      (inside : root.kindAt location = some .directory) (named : IsName part)
      (found : root.kindAt (location ++ [part]) = some (.link target)) (stops : ¬ follow) :
      Leads root follow links location [part] (.node (location ++ [part]))
  | pass {links : Nat} {location rest : List String} {part target : String} {place : Place}
      (inside : root.kindAt location = some .directory) (named : IsName part)
      (found : root.kindAt (location ++ [part]) = some (.link target)) (onward : ¬ (rest = [] ∧ ¬ follow)) :
      Leads root follow links (if Path.isAbsolute target then [] else location) (Path.parts target ++ rest) place →
      Leads root follow (links + 1) location (part :: rest) place
  | enter {links : Nat} {location rest : List String} {part : String} {kind : Kind} {place : Place}
      (inside : root.kindAt location = some .directory) (named : IsName part)
      (found : root.kindAt (location ++ [part]) = some kind) (solid : ∀ target, kind ≠ .link target) :
      Leads root follow links (location ++ [part]) rest place → Leads root follow links location (part :: rest) place

private theorem leads_of_resolveFrom {root : Node} {follow : Bool} {links : Nat} {location parts : List String}
    {place : Place} (success : resolveFrom root follow links location parts = .ok place) :
    Leads root follow links location parts place := by
  fun_induction resolveFrom root follow links location parts with
  | case1 links location =>
    cases success
    exact .here links location
  | case2 links location part rest entries found blank ih =>
    exact .stay (Node.kindAt_eq_directory_iff.mpr ⟨entries, found⟩) blank (ih success)
  | case3 links location rest entries found named ih =>
    exact .back (Node.kindAt_eq_directory_iff.mpr ⟨entries, found⟩) (ih success)
  | case4 links location part rest entries found solid notBack absent ended =>
    cases success
    have free : root.kindAt (location ++ [part]) = none := by
      rw [Node.kindAt_append_singleton found, absent]
      rfl
    exact .free (Node.kindAt_eq_directory_iff.mpr ⟨entries, found⟩) (isName_of solid notBack) free ended
  | case5 => cases success
  | case6 links location part rest entries found solid notBack target linked stops =>
    cases success
    obtain ⟨rfl, stops⟩ := stops
    have link : root.kindAt (location ++ [part]) = some (.link target) := by
      rw [Node.kindAt_append_singleton found, linked]
      rfl
    exact .stop (Node.kindAt_eq_directory_iff.mpr ⟨entries, found⟩) (isName_of solid notBack) link stops
  | case7 => cases success
  | case8 location part rest entries found solid notBack target linked onward links ih =>
    have link : root.kindAt (location ++ [part]) = some (.link target) := by
      rw [Node.kindAt_append_singleton found, linked]
      rfl
    exact .pass (Node.kindAt_eq_directory_iff.mpr ⟨entries, found⟩) (isName_of solid notBack) link onward (ih success)
  | case9 links location part rest entries found solid notBack child noLink present ih =>
    have kind : root.kindAt (location ++ [part]) = some child.label.kind := by
      rw [Node.kindAt_append_singleton found, present]
      rfl
    refine .enter (Node.kindAt_eq_directory_iff.mpr ⟨entries, found⟩) (isName_of solid notBack) kind ?_ (ih success)
    intro target same
    cases child with
    | link own => exact noLink own rfl
    | file content => cases same
    | directory others => cases same
  | case10 => cases success
  | case11 => cases success

theorem Leads.resolveFrom {root : Node} {follow : Bool} {links : Nat} {location parts : List String} {place : Place}
    (leads : Leads root follow links location parts place) :
    resolveFrom root follow links location parts = .ok place := by
  induction leads with
  | here links location => rw [FileSystem.resolveFrom]
  | stay inside blank _ ih =>
    rw [resolveFrom_cons, inside]
    simp only [if_pos blank, ih]
  | back inside _ ih =>
    rw [resolveFrom_cons, inside]
    simp [ih]
  | free inside named absent ended =>
    rw [resolveFrom_cons, inside]
    simp only [named.1, named.2.1, named.2.2, or_self, absent, ended, ↓reduceIte]
  | stop inside named found stops =>
    rw [resolveFrom_cons, inside]
    simp [named.1, named.2.1, named.2.2, found, stops]
  | pass inside named found onward _ ih =>
    rw [resolveFrom_cons, inside]
    simp only [named.1, named.2.1, named.2.2, or_self, found, onward, ↓reduceIte, ih]
  | @enter links location rest part kind place inside named found solid _ ih =>
    rw [resolveFrom_cons, inside]
    simp only [named.1, named.2.1, named.2.2, or_self, found, ↓reduceIte]
    cases kind with
    | link target => exact absurd rfl (solid target)
    | directory => exact ih
    | file => exact ih

/-- A path leads to a free name only in a directory. -/
theorem Leads.free_name {root : Node} {follow : Bool} {links : Nat} {location parts directory : List String}
    {name : String} {slash : Bool} (leads : Leads root follow links location parts (.free directory name slash)) :
    root.kindAt directory = some .directory ∧ root.kindAt (directory ++ [name]) = none := by
  generalize place : Place.free directory name slash = target at leads
  induction leads with
  | here => cases place
  | stay _ _ _ ih => exact ih place
  | back _ _ ih => exact ih place
  | free inside named absent ended =>
    cases place
    exact ⟨inside, absent⟩
  | stop => cases place
  | pass _ _ _ _ _ ih => exact ih place
  | enter _ _ _ _ _ ih => exact ih place

/-- What a place becomes in a grown tree: a node stays, and at a free name stands a new node. A file is not reached by
a path with a slash behind its name. -/
def Settles (grown : Node) (target : List String) : Place → Prop
  | .node location => location = target
  | .free directory name slash => directory ++ [name] = target ∧
      (grown.kindAt target = some .directory ∨ grown.kindAt target = some .file ∧ slash = false)

theorem leads_blank {root : Node} {follow : Bool} {location : List String}
    (inside : root.kindAt location = some .directory) (links : Nat) {rest : List String}
    (blank : rest.all (· = "") = true) : Leads root follow links location rest (.node location) := by
  induction rest with
  | nil => exact .here links location
  | cons part rest ih =>
    simp only [List.all_cons, Bool.and_eq_true, decide_eq_true_eq] at blank
    exact .stay inside (.inl blank.1) (ih blank.2)

/-- Growth does not lead a path astray. -/
theorem Leads.of_grows {root grown : Node} (grows : root.Grows grown) {follow : Bool} {links : Nat}
    {location parts : List String} {place : Place} (leads : Leads root follow links location parts place)
    {target : List String} (settles : Settles grown target place) :
    Leads grown follow links location parts (.node target) := by
  induction leads with
  | here links location =>
    obtain rfl : location = target := settles
    exact .here links location
  | stay inside blank _ ih => exact .stay (grows _ _ inside) blank (ih settles)
  | back inside _ ih => exact .back (grows _ _ inside) (ih settles)
  | @free links location rest part inside named absent ended =>
    obtain ⟨rfl, directory | ⟨file, noSlash⟩⟩ := settles
    · exact .enter (grows _ _ inside) named directory (by simp) (leads_blank directory links ended)
    · have last : rest = [] := by simpa using noSlash
      subst last
      exact .enter (grows _ _ inside) named file (by simp) (.here links _)
  | stop inside named found stops =>
    obtain rfl := settles
    exact .stop (grows _ _ inside) named (grows _ _ found) stops
  | pass inside named found onward _ ih =>
    exact .pass (grows _ _ inside) named (grows _ _ found) onward (ih settles)
  | enter inside named found solid _ ih =>
    exact .enter (grows _ _ inside) named (grows _ _ found) solid (ih settles)

def start (system : FileSystem) (path : String) : List String :=
  if Path.isAbsolute path then [] else system.workingDirectory

theorem resolve_eq_ok_iff {system : FileSystem} {path : String} {follow : Bool} {place : Place} :
    system.resolve path follow = .ok place ↔
      path ≠ "" ∧ Leads system.root follow linkLimit (system.start path) (Path.parts path) place := by
  rw [resolve, ← start]
  by_cases empty : path = ""
  · simp [empty]
  · rw [if_neg empty]
    constructor
    · intro success
      exact ⟨empty, leads_of_resolveFrom success⟩
    · rintro ⟨_, leads⟩
      exact leads.resolveFrom

end FileSystem

end TextHarvest.Files
