import TextHarvest.Proofs.Files.Order
import TextHarvest.Proofs.Text.Pieces

/-! # Writing again

What was written can be written again, and nothing changes: a file (`writeBytes_again`), and the directories that it
stands in (`makeDirectories_of_isDirectory`). Writing keeps a tree tidy (`isTidy_writeBytes`), and a path that led to a
node leads there still (`resolve_of_grows`). Without links, the last name of a path is that of the file it leads to
(`Leads.getLast?_names`).
-/

namespace TextHarvest.Files

namespace Node

theorem kindAt_eq_file_iff {root : Node} {location : List String} :
    root.kindAt location = some .file ↔ ∃ content, root.get? location = some (file content) := by
  rw [kindAt, labelAt, Option.map_map]
  cases root.get? location with
  | none => simp
  | some node => cases node <;> simp [label, Label.kind]

theorem kindAt_eq_link_iff {root : Node} {location : List String} {target : String} :
    root.kindAt location = some (.link target) ↔ root.get? location = some (link target) := by
  rw [kindAt, labelAt, Option.map_map]
  cases root.get? location with
  | none => simp
  | some node => cases node <;> simp [label, Label.kind]

theorem get?_iff_labelAt {root node : Node} (solid : node.label ≠ .directory) (location : List String) :
    root.get? location = some node ↔ root.labelAt location = some node.label := by
  rw [labelAt, Option.map_eq_some_iff]
  constructor
  · intro found
    exact ⟨node, found, rfl⟩
  · rintro ⟨other, found, same⟩
    cases node with
    | directory entries => exact absurd rfl solid
    | file content => cases other <;> cases same; exact found
    | link target => cases other <;> cases same; exact found

/-! ## Tidy trees stay tidy -/

theorem isTidy_leaf {node : Node} (solid : node.label ≠ .directory) : node.IsTidy := by
  intro location entries found
  cases node with
  | directory own => exact absurd rfl solid
  | file content => cases location <;> cases found
  | link target => cases location <;> cases found

/-- A directory is tidy if it is sound and its entries are tidy. -/
theorem isTidy_directory {entries : List (String × Node)} (sound : (directory entries).IsSound)
    (tidy : ∀ entry ∈ entries, entry.2.IsTidy) : (directory entries).IsTidy := by
  intro location others found
  cases location with
  | nil =>
    cases found
    exact sound
  | cons name rest =>
    rw [get?_directory_cons, Option.bind_eq_some_iff] at found
    obtain ⟨child, looked, found⟩ := found
    exact tidy _ ((lookup_eq_some_iff sound.1).mp looked) rest others found

private theorem mem_setEntry {name : String} {node : Node} {entries : List (String × Node)} {entry : String × Node}
    (member : entry ∈ setEntry name node entries) : entry = (name, node) ∨ entry ∈ entries := by
  induction entries with
  | nil => exact .inl (List.mem_singleton.mp member)
  | cons own entries ih =>
    rw [setEntry] at member
    split_ifs at member
    · rcases List.mem_cons.mp member with here | there
      · exact .inl here
      · exact .inr (List.mem_cons_of_mem _ there)
    · rcases List.mem_cons.mp member with here | there
      · exact .inr (here ▸ List.mem_cons_self)
      · exact (ih there).imp_right (List.mem_cons_of_mem _)

private theorem map_fst_setEntry (name : String) (node : Node) (entries : List (String × Node)) :
    (setEntry name node entries).map Prod.fst =
      if name ∈ entries.map Prod.fst then entries.map Prod.fst else entries.map Prod.fst ++ [name] := by
  induction entries with
  | nil => rfl
  | cons own entries ih =>
    rw [setEntry]
    by_cases here : own.1 = name
    · simp [here]
    · rw [if_neg here, List.map_cons, ih]
      have other : name ≠ own.1 := fun same => here same.symm
      by_cases there : name ∈ entries.map Prod.fst <;> simp [there, other]

theorem IsTidy.setEntry {entries : List (String × Node)} (tidy : (directory entries).IsTidy) {name : String}
    (proper : FileSystem.IsName name ∧ '/' ∉ name.toList) {node : Node} (child : node.IsTidy) :
    (directory (setEntry name node entries)).IsTidy := by
  obtain ⟨distinct, named⟩ := tidy [] _ rfl
  apply isTidy_directory
  · rw [IsSound, map_fst_setEntry]
    split_ifs with taken
    · exact ⟨distinct, named⟩
    · refine ⟨(List.perm_append_singleton ..).nodup_iff.mpr (List.nodup_cons.mpr ⟨taken, distinct⟩), ?_⟩
      simpa [or_imp, forall_and, proper] using named
  · intro entry member
    rcases mem_setEntry member with rfl | old
    · exact child
    · exact tidy.child old

/-- A tidy node under a proper name leaves a tree tidy. -/
theorem IsTidy.set {root new : Node} (tidy : root.IsTidy) (fresh : new.IsTidy) {parent : List String} {name : String}
    (proper : FileSystem.IsName name ∧ '/' ∉ name.toList) : (set new (parent ++ [name]) root).IsTidy := by
  induction parent generalizing root with
  | nil =>
    cases root with
    | directory entries => exact tidy.setEntry proper fresh
    | file content => exact tidy
    | link target => exact tidy
  | cons own parent ih =>
    cases root with
    | directory entries =>
      rw [List.cons_append, set_directory_cons new own (by simp)]
      cases looked : entries.lookup own with
      | none => exact tidy
      | some child =>
        have found : (directory entries).get? ([] ++ [own]) = some child := by simp [get?_directory_cons, looked]
        exact tidy.setEntry (tidy.proper found) (ih (tidy.of_get? found))
    | file content => simpa [Node.set] using tidy
    | link target => simpa [Node.set] using tidy

private theorem setEntry_of_lookup {name : String} {node : Node} {entries : List (String × Node)}
    (looked : entries.lookup name = some node) : Node.setEntry name node entries = entries := by
  induction entries with
  | nil => cases looked
  | cons own entries ih =>
    obtain ⟨other, child⟩ := own
    rw [lookup_cons] at looked
    rw [Node.setEntry]
    by_cases same : other = name
    · subst other
      rw [if_pos rfl] at looked ⊢
      cases looked
      rfl
    · rw [if_neg fun reversed => same reversed.symm] at looked
      rw [if_neg same, ih looked]

/-- Setting what stands there changes nothing. -/
theorem set_of_get? {root node : Node} {location : List String} (found : root.get? location = some node) :
    Node.set node location root = root := by
  induction location generalizing root with
  | nil =>
    cases root <;> cases found <;> rfl
  | cons name rest ih =>
    cases root with
    | directory entries =>
      rw [get?_directory_cons, Option.bind_eq_some_iff] at found
      obtain ⟨child, looked, below⟩ := found
      cases rest with
      | nil =>
        obtain rfl : child = node := by simpa using below
        rw [set_directory_singleton, setEntry_of_lookup looked]
      | cons next rest =>
        rw [set_directory_cons node name (by simp), looked]
        dsimp only
        rw [ih below, setEntry_of_lookup looked]
    | file content => cases found
    | link target => cases found

end Node

namespace FileSystem

private theorem not_mem_of_mem_parts {path part : String} (member : part ∈ Path.parts path) : '/' ∉ part.toList := by
  obtain ⟨piece, present, rfl⟩ := List.mem_map.mp member
  rw [String.toList_ofList]
  exact Text.not_mem_of_mem_splitOn present

/-- A name that is free where a path leads can be given to a node. -/
theorem Leads.proper {root : Node} {follow : Bool} {links : Nat} {location parts directory : List String}
    {name : String} {slash : Bool} (leads : Leads root follow links location parts (.free directory name slash))
    (closed : ∀ part ∈ parts, '/' ∉ part.toList) : IsName name ∧ '/' ∉ name.toList := by
  generalize place : Place.free directory name slash = target at leads
  induction leads with
  | here => cases place
  | stay _ _ _ ih => exact ih (fun part member => closed part (List.mem_cons_of_mem _ member)) place
  | back _ _ ih => exact ih (fun part member => closed part (List.mem_cons_of_mem _ member)) place
  | free inside named absent ended =>
    cases place
    exact ⟨named, closed name List.mem_cons_self⟩
  | stop => cases place
  | pass _ _ _ _ _ ih =>
    refine ih ?_ place
    intro part member
    rcases List.mem_append.mp member with own | later
    · exact not_mem_of_mem_parts own
    · exact closed part (List.mem_cons_of_mem _ later)
  | enter _ _ _ _ _ ih => exact ih (fun part member => closed part (List.mem_cons_of_mem _ member)) place

private theorem isTidy_makeDirectory {system made : FileSystem} {path : String} (tidy : system.root.IsTidy)
    (success : system.makeDirectory path = .ok made) : made.root.IsTidy := by
  unfold makeDirectory at success
  split at success
  · cases success
  · cases success
  · rename_i directory name slash resolved
    cases success
    refine tidy.set (Node.isTidy_directory (by simp [Node.IsSound]) (by simp)) ?_
    exact (resolve_eq_ok_iff.mp resolved).2.proper fun part => not_mem_of_mem_parts

theorem isTidy_makeChain (paths : List String) {system : FileSystem} (tidy : system.root.IsTidy) :
    (makeChain paths system).1.root.IsTidy := by
  induction paths with
  | nil => exact tidy
  | cons path parents ih =>
    rw [makeChain]
    split
    · rename_i made success
      exact isTidy_makeDirectory tidy success
    · split
      · rename_i grown fault failed
        rwa [failed] at ih
      · rename_i grown done
        rw [done] at ih
        split
        · rename_i made success
          exact isTidy_makeDirectory ih success
        · exact ih
    · exact tidy

theorem isTidy_writeBytes {system written : FileSystem} {path : String} {content : ByteArray}
    (tidy : system.root.IsTidy) (success : system.writeBytes path content = .ok written) : written.root.IsTidy := by
  have tidyFile : (Node.file content).IsTidy := Node.isTidy_leaf (by simp [Node.label])
  obtain ⟨_, ⟨directory, name, resolved, rfl⟩ | ⟨location, old, _, found, rfl⟩⟩ := writeBytes_cases success
  · exact tidy.set tidyFile ((resolve_eq_ok_iff.mp resolved).2.proper fun part => not_mem_of_mem_parts)
  · rcases List.eq_nil_or_concat location with rfl | ⟨parent, name, rfl⟩
    · exact tidyFile
    · rw [List.concat_eq_append] at found ⊢
      exact tidy.set tidyFile (tidy.proper found)

/-- Writing a file makes a tree grow. -/
theorem grows_of_writeBytes {system written : FileSystem} {path : String} {content : ByteArray}
    (success : system.writeBytes path content = .ok written) : system.root.Grows written.root := by
  obtain ⟨_, ⟨directory, name, resolved, rfl⟩ | ⟨location, old, _, found, rfl⟩⟩ := writeBytes_cases success
  · obtain ⟨inside, absent⟩ := (resolve_eq_ok_iff.mp resolved).2.free_name
    exact grows_of_labelAt (Node.labelAt_set_free inside absent (Node.bare_file content)) (by simp [absent])
  · refine grows_of_labelAt (Node.labelAt_set_file found content) ?_
    intro kind same
    rw [Node.kindAt, Node.labelAt, found] at same
    cases same
    rfl

/-- A file that was written can be written again, and nothing changes. -/
theorem writeBytes_again {system written : FileSystem} {path : String} {content : ByteArray}
    (success : system.writeBytes path content = .ok written) : written.writeBytes path content = .ok written := by
  obtain ⟨noSlash, _⟩ := writeBytes_cases success
  obtain ⟨location, resolved, _, changed⟩ := writeBytes_spec success
  have found : written.root.get? location = some (.file content) := by
    rw [← Node.labelAt_eq_file_iff, changed, if_pos rfl]
  simp only [writeBytes, noSlash, Bool.false_eq_true, ↓reduceIte, resolved, found, Node.set_of_get? found]

theorem AddsDirectories.grows {system grown : FileSystem} (adds : AddsDirectories system grown) :
    system.root.Grows grown.root := by
  intro location kind found
  rcases adds.labelAt_or location with same | ⟨absent, _⟩
  · rwa [Node.kindAt, same]
  · rw [Node.kindAt, absent] at found
    cases found

theorem isDirectory_iff {system : FileSystem} {path : String} : system.isDirectory path = true ↔
    ∃ location, system.resolve path true = .ok (.node location) ∧ system.root.kindAt location = some .directory := by
  have here : system.isDirectory path = true ↔ ∃ entries, system.node? path = .ok (.directory entries) := by
    unfold isDirectory
    split <;> simp_all
  simp only [here, node?_eq_ok_iff, locate_eq_ok_iff, Node.kindAt_eq_directory_iff]
  constructor
  · rintro ⟨entries, location, resolved, found⟩
    exact ⟨location, resolved, entries, found⟩
  · rintro ⟨location, resolved, entries, found⟩
    exact ⟨entries, location, resolved, found⟩

theorem isFile_iff {system : FileSystem} {path : String} : system.isFile path = true ↔
    ∃ location content, system.resolve path true = .ok (.node location) ∧
      system.root.get? location = some (.file content) := by
  have here : system.isFile path = true ↔ ∃ content, system.node? path = .ok (.file content) := by
    unfold isFile
    split <;> simp_all
  simp only [here, node?_eq_ok_iff, locate_eq_ok_iff]
  exact exists_comm

theorem readBytes_eq_ok_iff {system : FileSystem} {path : String} {content : ByteArray} :
    system.readBytes path = .ok content ↔ ∃ location, system.resolve path true = .ok (.node location) ∧
      system.root.get? location = some (.file content) := by
  simp only [← locate_eq_ok_iff, ← node?_eq_ok_iff]
  unfold readBytes
  split <;> simp_all

/-! ## Directories that are made again -/

/-- A path that leads to a node still leads there when the tree has grown. -/
theorem resolve_of_grows {system grown : FileSystem} (sameStart : grown.workingDirectory = system.workingDirectory)
    (grows : system.root.Grows grown.root) {path : String} {follow : Bool} {location : List String}
    (resolved : system.resolve path follow = .ok (.node location)) :
    grown.resolve path follow = .ok (.node location) := by
  obtain ⟨given, leads⟩ := resolve_eq_ok_iff.mp resolved
  refine resolve_eq_ok_iff.mpr ⟨given, ?_⟩
  rw [start, sameStart]
  exact leads.of_grows grows rfl

theorem isDirectory_of_grows {system grown : FileSystem}
    (sameStart : grown.workingDirectory = system.workingDirectory) (grows : system.root.Grows grown.root)
    {path : String} (found : system.isDirectory path = true) : grown.isDirectory path = true := by
  obtain ⟨location, resolved, kind⟩ := isDirectory_iff.mp found
  exact isDirectory_iff.mpr ⟨location, resolve_of_grows sameStart grows resolved, grows _ _ kind⟩

theorem isFile_of_grows {system grown : FileSystem} (sameStart : grown.workingDirectory = system.workingDirectory)
    (grows : system.root.Grows grown.root) {path : String} (found : system.isFile path = true) :
    grown.isFile path = true := by
  obtain ⟨location, content, resolved, here⟩ := isFile_iff.mp found
  obtain ⟨other, there⟩ := Node.kindAt_eq_file_iff.mp (grows _ _ (Node.kindAt_eq_file_iff.mpr ⟨content, here⟩))
  exact isFile_iff.mpr ⟨location, other, resolve_of_grows sameStart grows resolved, there⟩

private theorem parts_replicate_slashes (text : List Char) (count : Nat) :
    Path.parts (String.ofList (text ++ List.replicate count '/')) =
      Path.parts (String.ofList text) ++ List.replicate count "" := by
  induction count with
  | zero => simp
  | succ count ih =>
    have last : String.ofList (text ++ List.replicate (count + 1) '/') =
        String.ofList (text ++ List.replicate count '/') ++ "/" ++ "" := by
      rw [← String.toList_inj]
      simp [List.replicate_succ']
    rw [last, parts_append_slash, ih, List.replicate_succ', ← List.append_assoc]
    rfl

private theorem toList_eq_append_slashes (path : String) : path.toList =
    (path.toList.reverse.dropWhile (· = '/')).reverse ++
      List.replicate (path.toList.reverse.takeWhile (· = '/')).length '/' := by
  have slashes : path.toList.reverse.takeWhile (· = '/') =
      List.replicate (path.toList.reverse.takeWhile (· = '/')).length '/' := by
    refine List.eq_replicate_iff.mpr ⟨rfl, ?_⟩
    intro c member
    simpa using List.all_eq_true.mp List.all_takeWhile c member
  have whole := congrArg List.reverse (List.takeWhile_append_dropWhile (p := (· = '/')) (l := path.toList.reverse))
  rw [List.reverse_reverse, List.reverse_append, slashes, List.reverse_replicate] at whole
  exact whole.symm

/-- The slashes at the end of a path are empty parts behind the others. -/
theorem parts_dropSlashes {path : String} (given : path ≠ "") : Path.dropSlashes path ≠ "" ∧
    Path.isAbsolute (Path.dropSlashes path) = Path.isAbsolute path ∧
    ∃ count, Path.parts path = Path.parts (Path.dropSlashes path) ++ List.replicate count "" := by
  have text := toList_eq_append_slashes path
  unfold Path.dropSlashes
  split
  · rename_i nothing
    rw [nothing, List.reverse_nil, List.nil_append] at text
    obtain ⟨count, same⟩ : ∃ count, path = String.ofList (List.replicate (count + 1) '/') := by
      cases slashes : (path.toList.reverse.takeWhile (· = '/')).length with
      | zero =>
        rw [slashes] at text
        exact absurd (String.toList_eq_nil_iff.mp text) given
      | succ count => exact ⟨count, by rw [← slashes, ← text, String.ofList_toList]⟩
    have absolute : Path.isAbsolute path = true := by simp [same, Path.isAbsolute, List.replicate_succ]
    rw [if_pos absolute]
    refine ⟨by decide, by rw [absolute]; decide, count, ?_⟩
    have parts := parts_replicate_slashes [] (count + 1)
    rw [List.nil_append, ← same] at parts
    rw [parts, List.replicate_succ]
    rfl
  · rename_i solid
    generalize path.toList.reverse.dropWhile (· = '/') = rest at text solid ⊢
    generalize (path.toList.reverse.takeWhile (· = '/')).length = count at text
    obtain ⟨first, others, opened⟩ := List.exists_cons_of_ne_nil (mt List.reverse_eq_nil_iff.mp solid)
    have same : path = String.ofList (rest.reverse ++ List.replicate count '/') := by rw [← text, String.ofList_toList]
    refine ⟨by simp [opened], ?_, count, by rw [same, parts_replicate_slashes]⟩
    rw [Path.isAbsolute, Path.isAbsolute, text, opened, String.toList_ofList]
    rfl

/-- Where a path leads to a node, its front leads to one too; a link at its end is then not followed. -/
theorem Leads.unfollowed {root : Node} {links : Nat} {location parts base : List String}
    (leads : Leads root true links location parts (.node base)) {front : List String} {count : Nat}
    (whole : parts = front ++ List.replicate count "") :
    ∃ other, Leads root false links location front (.node other) := by
  generalize reached : Place.node base = place at leads
  induction leads generalizing front with
  | here links location =>
    obtain ⟨rfl, _⟩ := List.append_eq_nil_iff.mp whole.symm
    exact ⟨location, .here links location⟩
  | @stay links location rest part place inside blank _ ih =>
    cases front with
    | nil => exact ⟨location, .here links location⟩
    | cons head front =>
      obtain ⟨rfl, same⟩ := List.cons.inj (whole.trans (List.cons_append ..))
      obtain ⟨other, leads⟩ := ih same reached
      exact ⟨other, .stay inside blank leads⟩
  | @back links location rest place inside _ ih =>
    cases front with
    | nil => exact ⟨location, .here links location⟩
    | cons head front =>
      obtain ⟨rfl, same⟩ := List.cons.inj (whole.trans (List.cons_append ..))
      obtain ⟨other, leads⟩ := ih same reached
      exact ⟨other, .back inside leads⟩
  | free => cases reached
  | stop _ _ _ stops => exact absurd rfl stops
  | @pass links location rest part target place inside named found _ _ ih =>
    cases front with
    | nil => exact ⟨location, .here _ location⟩
    | cons head front =>
      obtain ⟨rfl, same⟩ := List.cons.inj (whole.trans (List.cons_append ..))
      by_cases last : front = []
      · subst front
        exact ⟨_, .stop inside named found (by simp)⟩
      · have split : Path.parts target ++ rest = (Path.parts target ++ front) ++ List.replicate count "" := by
          rw [same, List.append_assoc]
        obtain ⟨other, leads⟩ := ih split reached
        exact ⟨other, .pass inside named found (by simp [last]) leads⟩
  | @enter links location rest part kind place inside named found solid _ ih =>
    cases front with
    | nil => exact ⟨location, .here links location⟩
    | cons head front =>
      obtain ⟨rfl, same⟩ := List.cons.inj (whole.trans (List.cons_append ..))
      obtain ⟨other, leads⟩ := ih same reached
      exact ⟨other, .enter inside named found solid leads⟩

/-- No link stands at the end of a path to a free name. -/
theorem Leads.followed {root : Node} {links : Nat} {location parts directory : List String} {name : String}
    {slash : Bool} (leads : Leads root false links location parts (.free directory name slash)) :
    Leads root true links location parts (.free directory name slash) := by
  generalize place : Place.free directory name slash = target at leads ⊢
  induction leads with
  | here => cases place
  | stay inside blank _ ih => exact .stay inside blank (ih place)
  | back inside _ ih => exact .back inside (ih place)
  | free inside named absent ended => exact .free inside named absent ended
  | stop => cases place
  | pass inside named found _ _ ih => exact .pass inside named found (by simp) (ih place)
  | enter inside named found solid _ ih => exact .enter inside named found solid (ih place)

private theorem makeDirectory_of_isDirectory {system : FileSystem} {path : String}
    (found : system.isDirectory path = true) : system.makeDirectory path = .error .exists := by
  obtain ⟨location, resolved, _⟩ := isDirectory_iff.mp found
  obtain ⟨given, leads⟩ := resolve_eq_ok_iff.mp resolved
  obtain ⟨stillGiven, sameStart, count, parts⟩ := parts_dropSlashes given
  obtain ⟨other, leads⟩ := leads.unfollowed parts
  have standing : system.resolve (Path.dropSlashes path) false = .ok (.node other) := by
    refine resolve_eq_ok_iff.mpr ⟨stillGiven, ?_⟩
    rw [start, sameStart]
    exact leads
  simp only [makeDirectory, standing]

private theorem isDirectory_of_makeDirectory {system made : FileSystem} {path : String}
    (success : system.makeDirectory path = .ok made) : made.isDirectory path = true := by
  have adds := makeDirectory_adds success
  unfold makeDirectory at success
  split at success
  · cases success
  · cases success
  · rename_i directory name slash resolved
    cases success
    obtain ⟨stillGiven, leads⟩ := resolve_eq_ok_iff.mp resolved
    have given : path ≠ "" := by
      rintro rfl
      exact stillGiven (by decide)
    obtain ⟨_, sameStart, count, parts⟩ := parts_dropSlashes given
    obtain ⟨inside, absent⟩ := leads.free_name
    have standing : (Node.set (.directory []) (directory ++ [name]) system.root).kindAt (directory ++ [name]) =
        some .directory := by
      rw [Node.kindAt, Node.labelAt_set_free inside absent Node.bare_emptyDirectory, if_pos rfl]
      rfl
    refine isDirectory_iff.mpr ⟨directory ++ [name], resolve_eq_ok_iff.mpr ⟨given, ?_⟩, standing⟩
    rw [parts, start, ← sameStart]
    refine (leads.followed.of_grows adds.grows ⟨rfl, .inl standing⟩).append ?_
    intro links
    exact leads_blank standing links (by simp)

private theorem chainOf_eq_cons {path : String} (given : path ≠ "") :
    ∃ parents, chainOf (path.length + 1) path = path :: parents :=
  ⟨_, by rw [chainOf, if_neg given]⟩

/-- Making a directory that is there changes nothing. -/
theorem makeDirectories_of_isDirectory {system : FileSystem} {path : String}
    (found : system.isDirectory path = true) : system.makeDirectories path = (system, .ok ()) := by
  obtain ⟨_, resolved, _⟩ := isDirectory_iff.mp found
  obtain ⟨parents, chain⟩ := chainOf_eq_cons (resolve_eq_ok_iff.mp resolved).1
  simp only [makeDirectories, chain, makeChain, makeDirectory_of_isDirectory found, found, ↓reduceIte]

/-- A directory that was made is there. -/
theorem isDirectory_of_makeDirectories {system grown : FileSystem} {path : String} (given : path ≠ "")
    (done : system.makeDirectories path = (grown, .ok ())) : grown.isDirectory path = true := by
  obtain ⟨parents, chain⟩ := chainOf_eq_cons given
  rw [makeDirectories, chain, makeChain] at done
  split at done
  · rename_i made success
    cases done
    exact isDirectory_of_makeDirectory success
  · split at done
    · cases done
    · split at done
      · rename_i made success
        cases done
        exact isDirectory_of_makeDirectory success
      · obtain ⟨rfl, allowed⟩ := Prod.mk.inj done
        split_ifs at allowed with there
        exact there
  · obtain ⟨rfl, allowed⟩ := Prod.mk.inj done
    split_ifs at allowed with there
    exact there

/-- Without links, the name of a file is the last name of every path to it. -/
theorem Leads.getLast?_names {root : Node}
    (unlinked : ∀ location target, root.kindAt location ≠ some (.link target)) {follow : Bool} {links : Nat}
    {location parts place : List String} (leads : Leads root follow links location parts (.node place))
    (file : root.kindAt place = some .file) :
    parts = [] ∧ place = location ∨
      ∃ name, (parts.filter fun part => part ≠ "" ∧ part ≠ ".").getLast? = some name ∧ place.getLast? = some name := by
  have notDirectory : root.kindAt place ≠ some .directory := by simp [file]
  generalize reached : Place.node place = target at leads
  induction leads with
  | here links location =>
    cases reached
    exact .inl ⟨rfl, rfl⟩
  | stay inside blank _ ih =>
    rcases ih reached with ⟨rfl, rfl⟩ | ⟨name, last, own⟩
    · exact absurd inside notDirectory
    · refine .inr ⟨name, ?_, own⟩
      rcases blank with rfl | rfl <;> simpa using last
  | @back links location rest target inside _ ih =>
    rcases ih reached with ⟨rfl, rfl⟩ | ⟨name, last, own⟩
    · refine absurd ?_ notDirectory
      rcases List.eq_nil_or_concat location with rfl | ⟨parent, name, rfl⟩
      · exact inside
      · obtain ⟨entries, found⟩ := Node.kindAt_eq_directory_iff.mp inside
        rw [List.concat_eq_append] at found ⊢
        rw [List.dropLast_concat]
        exact Node.kindAt_eq_directory_iff.mpr (Node.labelAt_eq_directory_iff.mp (Node.labelAt_parent found))
    · refine .inr ⟨name, ?_, own⟩
      rw [List.filter_cons_of_pos (by decide), List.getLast?_cons, last, Option.getD_some]
  | free => cases reached
  | stop _ _ found => exact absurd found (unlinked _ _)
  | pass _ _ found => exact absurd found (unlinked _ _)
  | @enter links location rest part kind target inside named _ _ _ ih =>
    rcases ih reached with ⟨rfl, rfl⟩ | ⟨name, last, own⟩
    · exact .inr ⟨part, by simp [named.1, named.2.1], by simp⟩
    · refine .inr ⟨name, ?_, own⟩
      rw [List.filter_cons_of_pos (by simp [named.1, named.2.1]), List.getLast?_cons, last, Option.getD_some]

end FileSystem

end TextHarvest.Files
