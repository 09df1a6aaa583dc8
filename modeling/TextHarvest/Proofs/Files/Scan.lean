import Mathlib.Data.List.Nodup
import TextHarvest.Files.Scan
import TextHarvest.Proofs.Files.Write

/-! # What a scan finds

In a tree of directories and files a scan lists the locations of all files whose names the pattern selects, and nothing
else (`mem_selected_iff`), as long as every directory in it may be read (`treeAt_eq_ok_iff`). The path of such a
location leads to the file that stands there (`readBytes_pathBelow`), also where there are links elsewhere in the tree
(`resolve_pathBelow`).
-/

namespace TextHarvest.Files

namespace Node

/-- A directory whose entries have different names that can stand in a path, or a file. -/
def IsSound : Node → Prop
  | directory entries => (entries.map Prod.fst).Nodup ∧
      ∀ name ∈ entries.map Prod.fst, FileSystem.IsName name ∧ '/' ∉ name.toList
  | file _ => True
  | link _ => False

/-- A tree of directories and files, without links. -/
def IsPlain (root : Node) : Prop :=
  ∀ location node, root.get? location = some node → node.IsSound

/-- What stands in a plain tree is plain. -/
theorem IsPlain.of_get? {root node : Node} {location : List String} (plain : root.IsPlain)
    (found : root.get? location = some node) : node.IsPlain := by
  intro below leaf same
  apply plain (location ++ below) leaf
  rw [get?_append, found, Option.bind_some, same]

theorem IsPlain.child {entries : List (String × Node)} {name : String} {child : Node}
    (plain : (directory entries).IsPlain) (looked : entries.lookup name = some child) : child.IsPlain := by
  have found : (directory entries).get? [name] = some child := by simp [get?_directory_cons, looked]
  exact plain.of_get? found

theorem lookup_eq_some_iff {entries : List (String × Node)} (distinct : (entries.map Prod.fst).Nodup) {name : String}
    {child : Node} : entries.lookup name = some child ↔ (name, child) ∈ entries := by
  induction entries with
  | nil => simp
  | cons entry entries ih =>
    obtain ⟨own, node⟩ := entry
    obtain ⟨fresh, distinct⟩ := List.nodup_cons.mp distinct
    rw [lookup_cons, List.mem_cons, Prod.mk.injEq]
    by_cases same : name = own
    · subst name
      have other : (own, child) ∉ entries := fun member => fresh (List.mem_map.mpr ⟨_, member, rfl⟩)
      simp [other, eq_comm]
    · simp [same, ih distinct]

/-- The entries of every directory have different names that can stand in a path. -/
def IsTidy (root : Node) : Prop :=
  ∀ location entries, root.get? location = some (directory entries) → (directory entries).IsSound

theorem IsPlain.isTidy {root : Node} (plain : root.IsPlain) : root.IsTidy :=
  fun location _ found => plain location _ found

theorem IsTidy.of_get? {root node : Node} {location : List String} (tidy : root.IsTidy)
    (found : root.get? location = some node) : node.IsTidy := by
  intro below entries same
  apply tidy (location ++ below) entries
  rw [get?_append, found, Option.bind_some, same]

theorem IsTidy.child {entries : List (String × Node)} (tidy : (directory entries).IsTidy) {entry : String × Node}
    (member : entry ∈ entries) : entry.2.IsTidy := by
  have looked := (lookup_eq_some_iff (tidy [] _ rfl).1).mpr member
  have found : (directory entries).get? [entry.1] = some entry.2 := by simp [get?_directory_cons, looked]
  exact tidy.of_get? found

theorem IsTidy.proper {root node : Node} (tidy : root.IsTidy) {parent : List String} {name : String}
    (found : root.get? (parent ++ [name]) = some node) : FileSystem.IsName name ∧ '/' ∉ name.toList := by
  obtain ⟨entries, here⟩ := labelAt_eq_directory_iff.mp (labelAt_parent found)
  have looked : entries.lookup name = some node := by
    simpa [get?_append, here, get?_directory_cons, Option.bind_eq_some_iff] using found
  obtain ⟨distinct, named⟩ := tidy parent _ here
  exact named name (List.mem_map.mpr ⟨_, (lookup_eq_some_iff distinct).mp looked, rfl⟩)

theorem isPlain_file (content : ByteArray) : (file content).IsPlain := by
  intro location node found
  cases location with
  | nil =>
    cases found
    trivial
  | cons name rest => cases found

/-- A directory is plain if it is sound and its entries are plain. -/
theorem isPlain_directory {entries : List (String × Node)} (sound : (directory entries).IsSound)
    (plain : ∀ entry ∈ entries, entry.2.IsPlain) : (directory entries).IsPlain := by
  intro location node found
  cases location with
  | nil =>
    cases found
    exact sound
  | cons name rest =>
    rw [get?_directory_cons, Option.bind_eq_some_iff] at found
    obtain ⟨child, looked, found⟩ := found
    exact plain _ ((lookup_eq_some_iff sound.1).mp looked) rest node found

/-- Induction over a tree: a directory is settled once its entries are. -/
theorem induction_on {motive : Node → Prop} (node : Node)
    (directory : ∀ entries, (∀ entry ∈ entries, motive entry.2) → motive (directory entries))
    (file : ∀ content, motive (file content)) (link : ∀ target, motive (link target)) : motive node :=
  match node with
  | .file content => file content
  | .link target => link target
  | .directory entries =>
    directory entries fun entry member =>
      have smaller : sizeOf entry.2 < sizeOf (Node.directory entries) := by
        have inside := List.sizeOf_lt_of_mem member
        obtain ⟨name, child⟩ := entry
        simp only [Prod.mk.sizeOf_spec, Node.directory.sizeOf_spec] at inside ⊢
        omega
      induction_on entry.2 directory file link
termination_by sizeOf node
decreasing_by exact smaller

theorem walkEntries_eq_map (keep : List String → Node → Bool) (location : List String)
    (entries : List (String × Node)) : walkEntries keep location entries =
      entries.map fun entry => (entry.1, walk keep (location ++ [entry.1]) entry.2) := by
  induction entries with
  | nil => rfl
  | cons entry entries ih => rw [walkEntries, ih, List.map_cons]

theorem mem_visit {keep : List String → Node → Bool} {location place : List String} {node : Node} :
    place ∈ visit keep location node ↔ place = location ∧ keep location node = true := by
  rw [visit, List.mem_ite_nil_right, List.mem_singleton, and_comm]

/-- The order in which entries are stored does not matter for what is found. -/
theorem mem_walk_directory {keep : List String → Node → Bool} {location place : List String}
    {entries : List (String × Node)} : place ∈ walk keep location (directory entries) ↔
      place = location ∧ keep location (directory entries) = true ∨
        ∃ entry ∈ entries, place ∈ walk keep (location ++ [entry.1]) entry.2 := by
  rw [walk, walkEntries_eq_map, List.mem_append, mem_visit, List.mem_flatMap]
  simp only [List.mem_mergeSort, List.mem_map]
  refine or_congr_right ?_
  constructor
  · rintro ⟨row, ⟨entry, member, rfl⟩, inside⟩
    exact ⟨entry, member, inside⟩
  · rintro ⟨entry, member, inside⟩
    exact ⟨_, ⟨entry, member, rfl⟩, inside⟩

theorem mem_walk_of_solid {node : Node} (solid : node.label ≠ .directory) (keep : List String → Node → Bool)
    (location place : List String) : place ∈ walk keep location node ↔
      ∃ below other, place = location ++ below ∧ node.get? below = some other ∧ keep place other = true := by
  have alone : walk keep location node = visit keep location node := by
    cases node with
    | directory entries => exact absurd rfl solid
    | file content => rw [walk]
    | link target => rw [walk]
  have bare : node.Bare := by
    intro name rest
    cases node with
    | directory entries => exact absurd rfl solid
    | file content => rfl
    | link target => rfl
  rw [alone, mem_visit]
  constructor
  · rintro ⟨rfl, kept⟩
    exact ⟨[], node, by simp, by simp, kept⟩
  · rintro ⟨below, other, rfl, found, kept⟩
    cases below with
    | nil =>
      obtain rfl : node = other := by simpa using found
      simpa using kept
    | cons name rest => cases (bare name rest).symm.trans found

/-- A walk finds the locations of all nodes that are kept. -/
theorem mem_walk_iff {root : Node} (tidy : root.IsTidy) (keep : List String → Node → Bool)
    (location place : List String) : place ∈ walk keep location root ↔
      ∃ below node, place = location ++ below ∧ root.get? below = some node ∧ keep place node = true := by
  induction root using induction_on generalizing location with
  | directory entries ih =>
    rw [mem_walk_directory]
    have distinct := (tidy [] _ rfl).1
    constructor
    · rintro (⟨rfl, kept⟩ | ⟨⟨name, child⟩, member, inside⟩)
      · exact ⟨[], _, by simp, rfl, kept⟩
      · obtain ⟨below, node, rfl, found, kept⟩ := (ih _ member (tidy.child member) _).mp inside
        refine ⟨name :: below, node, by simp, ?_, kept⟩
        rw [get?_directory_cons, (lookup_eq_some_iff distinct).mpr member, Option.bind_some, found]
    · rintro ⟨below, node, rfl, found, kept⟩
      cases below with
      | nil =>
        cases found
        rw [List.append_nil] at kept ⊢
        exact .inl ⟨rfl, kept⟩
      | cons name below =>
        rw [get?_directory_cons] at found
        obtain ⟨child, looked, found⟩ := Option.bind_eq_some_iff.mp found
        have member := (lookup_eq_some_iff distinct).mp looked
        refine .inr ⟨(name, child), member, (ih _ member (tidy.child member) _).mpr ⟨below, node, ?_, found, kept⟩⟩
        simp
  | file content => exact mem_walk_of_solid (by simp [label]) keep location place
  | link target => exact mem_walk_of_solid (by simp [label]) keep location place

theorem isDirectory_iff {node : Node} : node.isDirectory = true ↔ node.label = .directory := by
  cases node <;> simp [isDirectory, label]

end Node

namespace FileSystem

/-! ## Directories that can be searched -/

theorem treeAt_of_locate {system : FileSystem} {directory : String} {base : List String}
    {entries : List (String × Node)} (located : system.locate directory = .ok (base, .directory entries)) :
    system.treeAt directory =
      match ((Node.directory entries).walk (system.closed base) []).head? with
      | some location => .error (.sealed location)
      | none => .ok (.directory entries) := by
  cases first : ((Node.directory entries).walk (system.closed base) []).head? <;> simp only [treeAt, located, first]

theorem mem_walk_closed {system : FileSystem} {tree : Node} (tidy : tree.IsTidy) {base location : List String} :
    location ∈ tree.walk (system.closed base) [] ↔
      tree.labelAt location = some .directory ∧ base ++ location ∈ system.sealed := by
  rw [Node.mem_walk_iff tidy, Node.labelAt, Option.map_eq_some_iff]
  simp only [closed, Bool.and_eq_true, Node.isDirectory_iff, List.contains_iff_mem, List.nil_append]
  constructor
  · rintro ⟨below, node, rfl, found, kind, member⟩
    exact ⟨⟨node, found, kind⟩, member⟩
  · rintro ⟨⟨node, found, kind⟩, member⟩
    exact ⟨location, node, rfl, found, kind, member⟩

/-- The ways in which a directory can be asked for: it is not there, one in it may not be read, or all can be read. -/
theorem treeAt_cases (system : FileSystem) (directory : String) :
    system.isDirectory directory = false ∧ system.treeAt directory = .error .notFound ∨
      ∃ base entries, system.locate directory = .ok (base, .directory entries) ∧
        system.isDirectory directory = true := by
  unfold treeAt isDirectory node?
  cases system.locate directory with
  | error fault => exact .inl ⟨rfl, rfl⟩
  | ok place =>
    obtain ⟨base, node⟩ := place
    cases node with
    | directory entries => exact .inr ⟨base, entries, rfl, rfl⟩
    | file content => exact .inl ⟨rfl, rfl⟩
    | link target => exact .inl ⟨rfl, rfl⟩

theorem treeAt_eq_notFound_iff {system : FileSystem} {directory : String} :
    system.treeAt directory = .error .notFound ↔ system.isDirectory directory = false := by
  rcases treeAt_cases system directory with ⟨missing, failed⟩ | ⟨base, entries, located, found⟩
  · exact iff_of_true failed missing
  · rw [treeAt_of_locate located, found]
    split <;> simp

theorem exists_of_treeAt {system : FileSystem} {directory : String} {tree : Node}
    (listed : system.treeAt directory = .ok tree) : ∃ base entries, tree = .directory entries ∧
      system.locate directory = .ok (base, .directory entries) ∧ system.isDirectory directory = true := by
  rcases treeAt_cases system directory with ⟨_, failed⟩ | ⟨base, entries, located, found⟩
  · cases failed.symm.trans listed
  · rw [treeAt_of_locate located] at listed
    split at listed
    · cases listed
    · cases listed
      exact ⟨base, entries, rfl, located, found⟩

theorem treeAt_eq_ok_iff {system : FileSystem} (tidy : system.root.IsTidy) {directory : String} {base : List String}
    {entries : List (String × Node)} (located : system.locate directory = .ok (base, .directory entries)) :
    system.treeAt directory = .ok (.directory entries) ↔
      ∀ location, (Node.directory entries).labelAt location = some .directory → base ++ location ∉ system.sealed := by
  have inside := tidy.of_get? (get?_of_locate located)
  have open_iff : (Node.directory entries).walk (system.closed base) [] = [] ↔
      ∀ location, (Node.directory entries).labelAt location = some .directory → base ++ location ∉ system.sealed := by
    simp only [List.eq_nil_iff_forall_not_mem, mem_walk_closed inside, not_and]
  rw [treeAt_of_locate located, ← open_iff, ← List.head?_eq_none_iff]
  split <;> simp_all

theorem isTidy_of_treeAt {system : FileSystem} (tidy : system.root.IsTidy) {directory : String} {tree : Node}
    (listed : system.treeAt directory = .ok tree) : tree.IsTidy := by
  obtain ⟨base, entries, rfl, located, _⟩ := exists_of_treeAt listed
  exact tidy.of_get? (get?_of_locate located)

/-- Every directory may be read. -/
def Listable (system : FileSystem) : Prop :=
  ∀ location ∈ system.sealed, system.root.labelAt location ≠ some .directory

theorem Listable.treeAt_eq {system : FileSystem} (listable : system.Listable) (tidy : system.root.IsTidy)
    {directory : String} {entries : List (String × Node)}
    (found : system.node? directory = .ok (.directory entries)) :
    system.treeAt directory = .ok (.directory entries) := by
  obtain ⟨base, located⟩ := node?_eq_ok_iff.mp found
  rw [treeAt_eq_ok_iff tidy located]
  intro location here member
  refine listable _ member ?_
  rwa [Node.labelAt_append (get?_of_locate located)]

theorem Listable.exists_treeAt {system : FileSystem} (listable : system.Listable) (tidy : system.root.IsTidy)
    {directory : String} (found : system.isDirectory directory = true) :
    ∃ tree, system.treeAt directory = .ok tree := by
  rcases treeAt_cases system directory with ⟨missing, _⟩ | ⟨base, entries, located, _⟩
  · cases found.symm.trans missing
  · exact ⟨_, listable.treeAt_eq tidy (node?_eq_ok_iff.mpr ⟨base, located⟩)⟩

/-! ## What is selected -/

/-- The locations of the files below a directory that a pattern selects, in the order of the scan. -/
def selected (system : FileSystem) (directory : String) (pattern : Glob.Pattern) : List (List String) :=
  match system.scan directory pattern with
  | .ok listed => listed
  | .error _ => []

/-- Whether a scan fails does not depend on the pattern. -/
theorem scan_eq (system : FileSystem) (directory : String) (pattern : Glob.Pattern) :
    system.scan directory pattern =
      match system.treeAt directory with
      | .ok _ => .ok (system.selected directory pattern)
      | .error fault => .error fault := by
  unfold selected scan
  cases system.treeAt directory <;> rfl

theorem scan_of_treeAt {system : FileSystem} {directory : String} {tree : Node}
    (listed : system.treeAt directory = .ok tree) (pattern : Glob.Pattern) :
    system.scan directory pattern = .ok (system.selected directory pattern) := by
  rw [scan_eq, listed]

theorem exists_treeAt_of_scan {system : FileSystem} {directory : String} {pattern : Glob.Pattern}
    {listed : List (List String)} (scanned : system.scan directory pattern = .ok listed) :
    ∃ tree, system.treeAt directory = .ok tree := by
  rw [scan] at scanned
  split at scanned
  · rename_i tree searched
    exact ⟨tree, searched⟩
  · cases scanned

theorem selected_of_treeAt {system : FileSystem} {directory : String} {tree : Node}
    (listed : system.treeAt directory = .ok tree) (pattern : Glob.Pattern) :
    system.selected directory pattern = tree.walk (system.isSelected directory pattern) [] := by
  rw [selected, scan, listed]

theorem selected_of_failed {system : FileSystem} {directory : String} {fault : ScanFault}
    (failed : system.treeAt directory = .error fault) (pattern : Glob.Pattern) :
    system.selected directory pattern = [] := by
  rw [selected, scan, failed]

theorem isSelected_file_iff {system : FileSystem} {directory : String} {pattern : Glob.Pattern}
    {location : List String} {content : ByteArray} :
    system.isSelected directory pattern location (.file content) = true ↔
      ∃ name, location.getLast? = some name ∧ pattern.selects name = true := by
  unfold isSelected
  cases location.getLast? with
  | none => simp
  | some name => simp

theorem isSelected_link_iff {system : FileSystem} {directory : String} {pattern : Glob.Pattern}
    {location : List String} {target : String} :
    system.isSelected directory pattern location (.link target) = true ↔
      (∃ name, location.getLast? = some name ∧ pattern.selects name = true) ∧
        system.isFile (pathBelow directory location) = true := by
  unfold isSelected
  cases location.getLast? with
  | none => simp
  | some name => simp

theorem solid_of_isSelected {system : FileSystem} {directory : String} {pattern : Glob.Pattern}
    {location : List String} {node : Node} (kept : system.isSelected directory pattern location node = true) :
    node.label ≠ .directory := by
  cases node with
  | directory entries =>
    unfold isSelected at kept
    split at kept
    · cases kept
    · simp at kept
  | file content => simp [Node.label]
  | link target => simp [Node.label]

/-- What is selected below a directory: the files and links that the pattern and what links lead to select. -/
theorem mem_selected_iff_get? {system : FileSystem} (tidy : system.root.IsTidy) {directory : String} {tree : Node}
    (listed : system.treeAt directory = .ok tree) (pattern : Glob.Pattern) (location : List String) :
    location ∈ system.selected directory pattern ↔
      ∃ node, tree.get? location = some node ∧ system.isSelected directory pattern location node = true := by
  rw [selected_of_treeAt listed, Node.mem_walk_iff (isTidy_of_treeAt tidy listed)]
  constructor
  · rintro ⟨below, node, rfl, here, kept⟩
    exact ⟨node, here, kept⟩
  · rintro ⟨node, here, kept⟩
    exact ⟨location, node, rfl, here, kept⟩

/-- In a plain tree, exactly the files whose own names the pattern selects are selected. -/
theorem mem_selected_iff_of_isPlain {system : FileSystem} (plain : system.root.IsPlain) {directory : String}
    {tree : Node} (listed : system.treeAt directory = .ok tree) (pattern : Glob.Pattern) (location : List String) :
    location ∈ system.selected directory pattern ↔
      ∃ content name, tree.get? location = some (.file content) ∧ location.getLast? = some name ∧
        pattern.selects name = true := by
  obtain ⟨base, entries, rfl, located, _⟩ := exists_of_treeAt listed
  rw [mem_selected_iff_get? plain.isTidy listed]
  constructor
  · rintro ⟨node, here, kept⟩
    cases node with
    | directory entries => exact absurd rfl (solid_of_isSelected kept)
    | file content =>
      obtain ⟨name, last, chosen⟩ := isSelected_file_iff.mp kept
      exact ⟨content, name, here, last, chosen⟩
    | link target => exact (plain.of_get? (get?_of_locate located) _ _ here).elim
  · rintro ⟨content, name, here, last, chosen⟩
    exact ⟨_, here, isSelected_file_iff.mpr ⟨name, last, chosen⟩⟩

/-- Exactly the files below the directory whose own names the pattern selects are selected. -/
theorem mem_selected_iff {system : FileSystem} (plain : system.root.IsPlain) (listable : system.Listable)
    (directory : String) (pattern : Glob.Pattern) (location : List String) :
    location ∈ system.selected directory pattern ↔
      ∃ node content name, system.node? directory = .ok node ∧ node.get? location = some (.file content) ∧
        location.getLast? = some name ∧ pattern.selects name = true := by
  rcases treeAt_cases system directory with ⟨missing, failed⟩ | ⟨base, entries, located, _⟩
  · constructor
    · intro member
      rw [selected_of_failed failed] at member
      cases member
    · rintro ⟨node, content, name, found, file, last, _⟩
      -- Only a directory has anything below it, and the place itself has no name of its own.
      cases location with
      | nil => cases last
      | cons first rest =>
        cases node with
        | directory entries => simp [isDirectory, found] at missing
        | file own => cases file
        | link target => cases file
  · have found := node?_eq_ok_iff.mpr ⟨base, located⟩
    rw [mem_selected_iff_of_isPlain plain (listable.treeAt_eq plain.isTidy found)]
    constructor
    · rintro ⟨content, name, file, last, chosen⟩
      exact ⟨_, content, name, found, file, last, chosen⟩
    · rintro ⟨node, content, name, same, file, last, chosen⟩
      cases found.symm.trans same
      exact ⟨content, name, file, last, chosen⟩

/-! ## Paths below a directory -/

theorem parts_append_slash (first second : String) :
    Path.parts (first ++ "/" ++ second) = Path.parts first ++ Path.parts second := by
  have text : (first ++ "/" ++ second).toList = first.toList ++ '/' :: second.toList := by simp
  rw [Path.parts, text, List.splitOn_append_cons_self, List.map_append]
  rfl

private theorem parts_intercalate {location : List String} (inside : location ≠ [])
    (closed : ∀ name ∈ location, '/' ∉ name.toList) : Path.parts ("/".intercalate location) = location := by
  have pieces : ((['/']).intercalate (location.map String.toList)).splitOn '/' = location.map String.toList := by
    apply List.splitOn_intercalate '/'
    · simpa using closed
    · simpa using inside
  rw [Path.parts, String.toList_intercalate]
  change (((['/']).intercalate (location.map String.toList)).splitOn '/').map String.ofList = location
  simp [pieces]

/-- The path of a location below a directory has the names of the location behind the parts of the directory's own
path; a slash at the end of that path is not doubled. -/
theorem exists_parts_pathBelow {directory : String} (given : directory ≠ "") {location : List String}
    (inside : location ≠ []) (closed : ∀ name ∈ location, '/' ∉ name.toList) :
    ∃ front, (Path.parts directory = front ∨ Path.parts directory = front ++ [""]) ∧
      Path.parts (pathBelow directory location) = front ++ location := by
  unfold pathBelow Path.join
  by_cases slash : Path.endsInSlash directory = true
  · obtain ⟨front, text⟩ := List.getLast?_eq_some_iff.mp (eq_of_beq slash)
    obtain rfl : directory = String.ofList front ++ "/" := by
      rw [← String.toList_inj, text]
      simp
    refine ⟨Path.parts (String.ofList front), .inr ?_, ?_⟩
    · simpa [Path.parts] using parts_append_slash (String.ofList front) ""
    · rw [if_pos (.inr slash), parts_append_slash, parts_intercalate inside closed]
  · refine ⟨Path.parts directory, .inl rfl, ?_⟩
    rw [if_neg (by simp [given, slash]), parts_append_slash, parts_intercalate inside closed]

private theorem start_pathBelow (system : FileSystem) {directory : String} (given : directory ≠ "")
    (location : List String) : system.start (pathBelow directory location) = system.start directory := by
  obtain ⟨first, rest, text⟩ := List.exists_cons_of_ne_nil (mt String.toList_eq_nil_iff.mp given)
  have opening : Path.isAbsolute (pathBelow directory location) = Path.isAbsolute directory := by
    unfold pathBelow Path.join Path.isAbsolute
    split_ifs <;> simp [text]
  rw [start, start, opening]

theorem Leads.append {root : Node} {links : Nat} {location first base : List String}
    (leads : Leads root true links location first (.node base)) {second : List String} {place : Place}
    (onward : ∀ links, Leads root true links base second place) :
    Leads root true links location (first ++ second) place := by
  generalize reached : Place.node base = middle at leads
  induction leads with
  | here links location =>
    cases reached
    exact onward links
  | stay inside blank _ ih => exact .stay inside blank (ih reached)
  | back inside _ ih => exact .back inside (ih reached)
  | free => cases reached
  | stop _ _ _ stops => exact absurd rfl stops
  | pass inside named found _ _ ih =>
    rw [List.cons_append]
    refine .pass inside named found (by simp) ?_
    rw [← List.append_assoc]
    exact ih reached
  | enter inside named found solid _ ih => exact .enter inside named found solid (ih reached)

private theorem Leads.drop_slash {root : Node} {links : Nat} {location front base : List String}
    (leads : Leads root true links location (front ++ [""]) (.node base)) :
    Leads root true links location front (.node base) := by
  generalize whole : front ++ [""] = parts at leads
  generalize reached : Place.node base = place at leads ⊢
  induction leads generalizing front with
  | here => simp at whole
  | @stay links location rest part place inside blank onward ih =>
    cases front with
    | nil =>
      obtain ⟨rfl, rfl⟩ : "" = part ∧ [] = rest := by simpa using whole
      exact onward
    | cons head front =>
      obtain ⟨rfl, same⟩ : head = part ∧ front ++ [""] = rest := by simpa using whole
      exact .stay inside blank (ih same reached)
  | @back links location rest place inside onward ih =>
    cases front with
    | nil => simp at whole
    | cons head front =>
      obtain ⟨rfl, same⟩ : head = ".." ∧ front ++ [""] = rest := by simpa using whole
      exact .back inside (ih same reached)
  | free => cases reached
  | stop _ _ _ stops => exact absurd rfl stops
  | @pass links location rest part target place inside named found _ onward ih =>
    cases front with
    | nil =>
      obtain ⟨rfl, _⟩ : "" = part ∧ [] = rest := by simpa using whole
      exact absurd rfl named.1
    | cons head front =>
      obtain ⟨rfl, same⟩ : head = part ∧ front ++ [""] = rest := by simpa using whole
      refine .pass inside named found (by simp) (ih ?_ reached)
      rw [← same, List.append_assoc]
  | @enter links location rest part kind place inside named found solid onward ih =>
    cases front with
    | nil =>
      obtain ⟨rfl, _⟩ : "" = part ∧ [] = rest := by simpa using whole
      exact absurd rfl named.1
    | cons head front =>
      obtain ⟨rfl, same⟩ : head = part ∧ front ++ [""] = rest := by simpa using whole
      exact .enter inside named found solid (ih same reached)

/-- The names of a location lead down to what stands there, if it is no link. -/
theorem leads_down {root node : Node} (tidy : root.IsTidy) {base location : List String}
    (found : root.get? (base ++ location) = some node) (solid : ∀ target, node.label.kind ≠ .link target)
    (follow : Bool) (links : Nat) : Leads root follow links base location (.node (base ++ location)) := by
  induction location generalizing base with
  | nil =>
    rw [List.append_nil]
    exact .here links base
  | cons name rest ih =>
    have next : base ++ name :: rest = (base ++ [name]) ++ rest := by simp
    rw [next] at found ⊢
    obtain ⟨child, childFound, below⟩ := Option.bind_eq_some_iff.mp ((Node.get?_append ..).symm.trans found)
    have inside : root.kindAt base = some .directory :=
      Node.kindAt_eq_directory_iff.mpr (Node.labelAt_eq_directory_iff.mp (Node.labelAt_parent childFound))
    have kind : root.kindAt (base ++ [name]) = some child.label.kind := by
      rw [Node.kindAt, Node.labelAt, childFound]
      rfl
    refine .enter inside (tidy.proper childFound).1 kind ?_ (ih found)
    intro target same
    cases child with
    | directory entries => cases same
    | file content => cases same
    | link own =>
      cases rest with
      | nil =>
        obtain rfl : Node.link own = node := by simpa using below
        exact solid target same
      | cons _ _ => cases below

/-- The path of a file below a directory leads to that file. -/
theorem resolve_pathBelow {system : FileSystem} (tidy : system.root.IsTidy) {directory : String}
    {base location : List String} {content : ByteArray} (resolved : system.resolve directory true = .ok (.node base))
    (found : system.root.get? (base ++ location) = some (.file content)) (inside : location ≠ []) :
    system.resolve (pathBelow directory location) true = .ok (.node (base ++ location)) := by
  obtain ⟨given, leads⟩ := resolve_eq_ok_iff.mp resolved
  have closed : ∀ name ∈ location, '/' ∉ name.toList := by
    intro name member
    obtain ⟨above, below, rfl⟩ := List.append_of_mem member
    have split : base ++ (above ++ name :: below) = (base ++ above ++ [name]) ++ below := by simp
    rw [split, Node.get?_append] at found
    obtain ⟨child, childFound, _⟩ := Option.bind_eq_some_iff.mp found
    exact (tidy.proper childFound).2
  obtain ⟨front, own, parts⟩ := exists_parts_pathBelow given inside closed
  have upTo : Leads system.root true linkLimit (system.start directory) front (.node base) := by
    rcases own with same | same
    · exact same ▸ leads
    · exact Leads.drop_slash (same ▸ leads)
  refine resolve_eq_ok_iff.mpr ⟨?_, ?_⟩
  · unfold pathBelow Path.join
    split_ifs <;> simp [given]
  · rw [start_pathBelow system given, parts]
    exact upTo.append fun links => leads_down tidy found (by simp [Node.label, Label.kind]) true links

/-- The path of a location below a directory leads to the file at that location. -/
theorem readBytes_pathBelow {system : FileSystem} (plain : system.root.IsPlain) {directory : String} {node : Node}
    {location : List String} {content : ByteArray} (found : system.node? directory = .ok node)
    (file : node.get? location = some (.file content)) (inside : location ≠ []) :
    system.readBytes (pathBelow directory location) = .ok content := by
  obtain ⟨base, located⟩ := node?_eq_ok_iff.mp found
  obtain ⟨resolved, here⟩ := locate_eq_ok_iff.mp located
  have target : system.root.get? (base ++ location) = some (.file content) := by
    rw [Node.get?_append, here, Option.bind_some, file]
  exact readBytes_of_resolve (resolve_pathBelow plain.isTidy resolved target inside) target

end FileSystem

end TextHarvest.Files
