import Mathlib.Data.List.Basic
import TextHarvest.Files.Tree

/-! # What stands where in a file tree

The label of a node is what the node is, apart from what stands below it. A tree is known from the labels at all
locations, and setting a node with nothing below it, where nothing stood below the old one, changes one label and no
other (`labelAt_set`). All that is proved of writing to files rests on this.
-/

namespace TextHarvest.Files

/-- What a node is, apart from what stands below it. -/
inductive Label
  | directory
  | file (content : ByteArray)
  | link (target : String)

namespace Node

def label : Node → Label
  | directory _ => .directory
  | file content => .file content
  | link target => .link target

def labelAt (root : Node) (location : List String) : Option Label :=
  (root.get? location).map label

/-- Nothing stands below the node. -/
def Bare (node : Node) : Prop :=
  ∀ name rest, node.get? (name :: rest) = none

theorem bare_file (content : ByteArray) : (file content).Bare :=
  fun _ _ => rfl

theorem bare_emptyDirectory : (directory []).Bare :=
  fun _ _ => rfl

@[simp] theorem get?_nil (node : Node) : node.get? [] = some node := by
  cases node <;> rfl

theorem get?_directory_cons (entries : List (String × Node)) (name : String) (rest : List String) :
    (directory entries).get? (name :: rest) = (entries.lookup name).bind (get? rest) := by
  rw [get?]
  cases entries.lookup name <;> rfl

theorem labelAt_directory_cons (entries : List (String × Node)) (name : String) (rest : List String) :
    (directory entries).labelAt (name :: rest) = (entries.lookup name).bind (labelAt · rest) := by
  rw [labelAt, get?_directory_cons]
  cases entries.lookup name <;> rfl

/-- A location leads through the nodes on its way. -/
theorem get?_append (root : Node) (first second : List String) :
    root.get? (first ++ second) = (root.get? first).bind (get? second) := by
  induction first generalizing root with
  | nil => simp
  | cons name first ih =>
    cases root with
    | directory entries =>
      simp only [List.cons_append, get?_directory_cons, Option.bind_assoc]
      congr 1
      funext child
      exact ih child
    | file content => rfl
    | link target => rfl

theorem labelAt_append {root node : Node} {location : List String} (here : root.get? location = some node)
    (below : List String) : root.labelAt (location ++ below) = node.labelAt below := by
  rw [labelAt, get?_append, here, Option.bind_some, labelAt]

theorem labelAt_append_singleton {root : Node} {location : List String} {entries : List (String × Node)}
    (here : root.get? location = some (directory entries)) (name : String) :
    root.labelAt (location ++ [name]) = (entries.lookup name).map label := by
  rw [labelAt_append here, labelAt_directory_cons]
  cases entries.lookup name <;> simp [labelAt]

theorem labelAt_eq_directory_iff {root : Node} {location : List String} :
    root.labelAt location = some .directory ↔ ∃ entries, root.get? location = some (directory entries) := by
  rw [labelAt, Option.map_eq_some_iff]
  constructor
  · rintro ⟨node, found, same⟩
    cases node with
    | directory entries => exact ⟨entries, found⟩
    | file content => cases same
    | link target => cases same
  · rintro ⟨entries, found⟩
    exact ⟨_, found, rfl⟩

theorem labelAt_eq_file_iff {root : Node} {location : List String} {content : ByteArray} :
    root.labelAt location = some (.file content) ↔ root.get? location = some (file content) := by
  rw [labelAt, Option.map_eq_some_iff]
  constructor
  · rintro ⟨node, found, same⟩
    cases node with
    | directory entries => cases same
    | file own =>
      cases same
      exact found
    | link target => cases same
  · intro found
    exact ⟨_, found, rfl⟩

theorem lookup_cons (name own : String) (child : Node) (entries : List (String × Node)) :
    ((own, child) :: entries).lookup name = if name = own then some child else entries.lookup name := by
  by_cases same : name = own
  · simp [same]
  · simp [List.lookup_cons, same, beq_false_of_ne same]

private theorem lookup_setEntry (name other : String) (node : Node) (entries : List (String × Node)) :
    (setEntry name node entries).lookup other = if other = name then some node else entries.lookup other := by
  induction entries with
  | nil => rw [setEntry, lookup_cons]
  | cons entry entries ih =>
    obtain ⟨own, child⟩ := entry
    by_cases here : own = name
    · subst own
      by_cases same : other = name <;> simp [setEntry, lookup_cons, same]
    · by_cases there : other = own
      · simp [setEntry, here, there]
      · simp [setEntry, here, lookup_cons, there, ih]

theorem set_directory_singleton (new : Node) (name : String) (entries : List (String × Node)) :
    set new [name] (directory entries) = directory (setEntry name new entries) := rfl

theorem set_directory_cons (new : Node) (name : String) {rest : List String} (more : rest ≠ [])
    (entries : List (String × Node)) :
    set new (name :: rest) (directory entries) =
      match entries.lookup name with
      | some child => directory (setEntry name (set new rest child) entries)
      | none => directory entries := by
  cases rest with
  | nil => exact absurd rfl more
  | cons next rest => rfl

/-- A node that was set in a directory stands there. -/
theorem get?_set_self {root : Node} {parent : List String} (inside : root.labelAt parent = some .directory)
    (new : Node) (name : String) : (set new (parent ++ [name]) root).get? (parent ++ [name]) = some new := by
  obtain ⟨entries, found⟩ := labelAt_eq_directory_iff.mp inside
  clear inside
  induction parent generalizing root with
  | nil =>
    obtain rfl : root = directory entries := by simpa using found
    rw [List.nil_append, set_directory_singleton, get?_directory_cons, lookup_setEntry]
    simp
  | cons own parent ih =>
    cases root with
    | directory others =>
      rw [get?_directory_cons] at found
      obtain ⟨child, here, below⟩ := Option.bind_eq_some_iff.mp found
      rw [List.cons_append, set_directory_cons new own (by simp), here, get?_directory_cons, lookup_setEntry]
      simpa using ih below
    | file content => cases found
    | link target => cases found

/-- Setting a node changes no label outside of its location and what stands below. -/
theorem labelAt_set_of_outside (new : Node) {location other : List String} (outside : ¬ location <+: other)
    (root : Node) : (set new location root).labelAt other = root.labelAt other := by
  induction location generalizing root other with
  | nil => exact absurd List.nil_prefix outside
  | cons name rest ih =>
    cases root with
    | directory entries =>
      cases rest with
      | nil =>
        cases other with
        | nil => rfl
        | cons own below =>
          have differ : own ≠ name := by
            rintro rfl
            exact outside (by simp)
          rw [set_directory_singleton, labelAt_directory_cons, lookup_setEntry, if_neg differ, labelAt_directory_cons]
      | cons next rest =>
        rw [set_directory_cons new name (List.cons_ne_nil next rest)]
        cases found : entries.lookup name with
        | none => rfl
        | some child =>
          cases other with
          | nil => rfl
          | cons own below =>
            rw [labelAt_directory_cons, lookup_setEntry, labelAt_directory_cons]
            split_ifs with same
            · subst own
              rw [found, Option.bind_some, Option.bind_some]
              exact ih (fun further => outside (List.cons_prefix_cons.mpr ⟨rfl, further⟩)) child
            · rfl
    | file content => simp [set]
    | link target => simp [set]

/-- Where nothing stands below, setting a node with nothing below it changes the label at its location only. -/
theorem labelAt_set {root new : Node} {parent : List String} {name : String}
    (inside : root.labelAt parent = some .directory) (bare : new.Bare)
    (nothing : ∀ old, root.get? (parent ++ [name]) = some old → old.Bare) (other : List String) :
    (set new (parent ++ [name]) root).labelAt other =
      if other = parent ++ [name] then some new.label else root.labelAt other := by
  split_ifs with same
  · rw [same, labelAt, get?_set_self inside]
    rfl
  · by_cases below : parent ++ [name] <+: other
    · obtain ⟨rest, rfl⟩ := below
      cases rest with
      | nil => exact absurd (List.append_nil _) same
      | cons next rest =>
        rw [labelAt, get?_append, get?_set_self inside, Option.bind_some, bare, labelAt, get?_append]
        cases found : root.get? (parent ++ [name]) with
        | none => rfl
        | some old => rw [Option.bind_some, nothing old found]
    · exact labelAt_set_of_outside new below root

end Node

end TextHarvest.Files
