import TextHarvest.Proofs.Files.Resolve

/-! # What writing changes

Making directories adds directories where nothing stood (`makeDirectories_adds`), also if it fails half way. Writing a
file changes the label of one location, to which the path leads from then on (`writeBytes_spec`). Everything else stays
as it was, so no other file can be lost or changed.
-/

namespace TextHarvest.Files

namespace Node

theorem labelAt_parent {root node : Node} {parent : List String} {name : String}
    (found : root.get? (parent ++ [name]) = some node) : root.labelAt parent = some .directory := by
  rw [get?_append, Option.bind_eq_some_iff] at found
  obtain ⟨above, here, below⟩ := found
  cases above with
  | directory entries => exact labelAt_eq_directory_iff.mpr ⟨entries, here⟩
  | file content => cases below
  | link target => cases below

/-- New content of a file is all that changes in the tree. -/
theorem labelAt_set_file {root : Node} {location : List String} {old : ByteArray}
    (found : root.get? location = some (file old)) (content : ByteArray) (other : List String) :
    (set (file content) location root).labelAt other =
      if other = location then some (.file content) else root.labelAt other := by
  rcases List.eq_nil_or_concat location with rfl | ⟨parent, name, rfl⟩
  · obtain rfl : root = file old := by simpa using found
    cases other with
    | nil => rfl
    | cons name rest => rfl
  · rw [List.concat_eq_append] at found ⊢
    apply labelAt_set (labelAt_parent found) (bare_file content)
    intro node same
    cases found.symm.trans same
    exact bare_file old

private theorem labelAt_eq_none_of_kindAt {root : Node} {location : List String}
    (absent : root.kindAt location = none) : root.labelAt location = none := by
  simpa [kindAt] using absent

private theorem labelAt_eq_directory_of_kindAt {root : Node} {location : List String}
    (inside : root.kindAt location = some .directory) : root.labelAt location = some .directory :=
  labelAt_eq_directory_iff.mpr (kindAt_eq_directory_iff.mp inside)

/-- A new node with nothing below it, at a free name, is all that changes in the tree. -/
theorem labelAt_set_free {root new : Node} {directory : List String} {name : String}
    (inside : root.kindAt directory = some .directory) (absent : root.kindAt (directory ++ [name]) = none)
    (bare : new.Bare) (other : List String) :
    (set new (directory ++ [name]) root).labelAt other =
      if other = directory ++ [name] then some new.label else root.labelAt other := by
  apply labelAt_set (labelAt_eq_directory_of_kindAt inside) bare
  intro old found
  have nothing := labelAt_eq_none_of_kindAt absent
  rw [labelAt, found] at nothing
  cases nothing

end Node

namespace FileSystem

private theorem mem_sealed_put {system : FileSystem} {location other : List String} {node : Node} :
    other ∈ (system.put location node).sealed ↔ other ∈ system.sealed ∧ other ≠ location := by
  simp [put]

/-- Beside what there was, the other file system has some more directories, which may be read. -/
structure AddsDirectories (system grown : FileSystem) : Prop where
  workingDirectory_eq : grown.workingDirectory = system.workingDirectory
  labelAt_or : ∀ location, grown.root.labelAt location = system.root.labelAt location ∨
    system.root.labelAt location = none ∧ grown.root.labelAt location = some .directory
  of_sealed : ∀ location ∈ grown.sealed,
    location ∈ system.sealed ∧ grown.root.labelAt location = system.root.labelAt location

namespace AddsDirectories

theorem refl (system : FileSystem) : AddsDirectories system system :=
  ⟨rfl, fun _ => .inl rfl, fun _ member => ⟨member, rfl⟩⟩

theorem trans {first second third : FileSystem} (left : AddsDirectories first second)
    (right : AddsDirectories second third) : AddsDirectories first third := by
  refine ⟨right.workingDirectory_eq.trans left.workingDirectory_eq, ?_, ?_⟩
  · intro location
    rcases left.labelAt_or location with same | ⟨absent, added⟩
    · rcases right.labelAt_or location with also | ⟨absent, added⟩
      · exact .inl (also.trans same)
      · exact .inr ⟨same ▸ absent, added⟩
    · rcases right.labelAt_or location with same | ⟨none, _⟩
      · exact .inr ⟨absent, same.trans added⟩
      · rw [added] at none
        cases none
  · intro location member
    obtain ⟨already, same⟩ := right.of_sealed location member
    obtain ⟨before, also⟩ := left.of_sealed location already
    exact ⟨before, same.trans also⟩

/-- More directories are no more and no other files. -/
theorem file_iff {system grown : FileSystem} (adds : AddsDirectories system grown) (location : List String)
    (content : ByteArray) :
    grown.root.get? location = some (.file content) ↔ system.root.get? location = some (.file content) := by
  rw [← Node.labelAt_eq_file_iff, ← Node.labelAt_eq_file_iff]
  rcases adds.labelAt_or location with same | ⟨absent, added⟩
  · rw [same]
  · rw [absent, added]
    simp

end AddsDirectories

theorem makeDirectory_adds {system made : FileSystem} {path : String} (success : system.makeDirectory path = .ok made) :
    AddsDirectories system made := by
  unfold makeDirectory at success
  split at success
  · cases success
  · cases success
  · rename_i directory name slash resolved
    cases success
    obtain ⟨inside, absent⟩ := (resolve_eq_ok_iff.mp resolved).2.free_name
    have changed := Node.labelAt_set_free inside absent Node.bare_emptyDirectory
    refine ⟨rfl, ?_, ?_⟩
    · intro location
      rw [put, changed]
      split_ifs with here
      · exact .inr ⟨here ▸ Node.labelAt_eq_none_of_kindAt absent, rfl⟩
      · exact .inl rfl
    · intro location member
      obtain ⟨already, other⟩ := mem_sealed_put.mp member
      refine ⟨already, ?_⟩
      rw [put, changed, if_neg other]

/-- Directories that are made one in another are all that is added, also where one of them cannot be made. -/
theorem makeChain_adds (paths : List String) (system : FileSystem) :
    AddsDirectories system (makeChain paths system).1 := by
  induction paths generalizing system with
  | nil => exact .refl system
  | cons path parents ih =>
    rw [makeChain]
    split
    · rename_i made success
      exact makeDirectory_adds success
    · have above := ih system
      split
      · rename_i grown fault failed
        rwa [failed] at above
      · rename_i grown done
        rw [done] at above
        split
        · rename_i made success
          exact above.trans (makeDirectory_adds success)
        · exact above
    · exact .refl system

theorem makeDirectories_adds (system : FileSystem) (path : String) :
    AddsDirectories system (system.makeDirectories path).1 :=
  makeChain_adds _ system

theorem grows_of_labelAt {root written : Node} {location : List String} {content : ByteArray}
    (changed : ∀ other, written.labelAt other = if other = location then some (.file content) else root.labelAt other)
    (before : ∀ kind, root.kindAt location = some kind → kind = .file) : root.Grows written := by
  intro other kind found
  by_cases here : other = location
  · subst other
    rw [before kind found, Node.kindAt, changed, if_pos rfl]
    rfl
  · rw [Node.kindAt, changed, if_neg here]
    exact found

/-- A file is written where its path leads: under a free name, or over a file. -/
theorem writeBytes_cases {system written : FileSystem} {path : String} {content : ByteArray}
    (success : system.writeBytes path content = .ok written) :
    Path.endsInSlash path = false ∧
      ((∃ directory name, system.resolve path true = .ok (.free directory name false) ∧
          written = system.put (directory ++ [name]) (.file content)) ∨
        ∃ location old, system.resolve path true = .ok (.node location) ∧
          system.root.get? location = some (.file old) ∧
          written = { system with root := Node.set (.file content) location system.root }) := by
  unfold writeBytes at success
  split at success
  · split at success <;> cases success
  · rename_i noSlash
    refine ⟨Bool.eq_false_iff.mpr noSlash, ?_⟩
    split at success
    · cases success
    · rename_i directory name slash resolved
      split_ifs at success with slashed
      cases success
      obtain rfl : slash = false := by simpa using slashed
      exact .inl ⟨directory, name, resolved, rfl⟩
    · rename_i location resolved
      split at success
      · rename_i old found
        cases success
        exact .inr ⟨location, old, resolved, found, rfl⟩
      · cases success

/-- A file that was written is the one that its path leads to, and nothing but its content has changed. -/
theorem writeBytes_spec {system written : FileSystem} {path : String} {content : ByteArray}
    (success : system.writeBytes path content = .ok written) :
    ∃ location, written.resolve path true = .ok (.node location) ∧
      written.workingDirectory = system.workingDirectory ∧
      ∀ other, written.root.labelAt other =
        if other = location then some (.file content) else system.root.labelAt other := by
  obtain ⟨_, ⟨directory, name, resolved, rfl⟩ | ⟨location, old, resolved, found, rfl⟩⟩ := writeBytes_cases success
  · obtain ⟨given, leads⟩ := resolve_eq_ok_iff.mp resolved
    obtain ⟨inside, absent⟩ := leads.free_name
    have changed := Node.labelAt_set_free inside absent (Node.bare_file content)
    have grows := grows_of_labelAt changed (by simp [absent])
    refine ⟨directory ++ [name], ?_, rfl, changed⟩
    refine resolve_eq_ok_iff.mpr ⟨given, leads.of_grows grows ⟨rfl, .inr ⟨?_, rfl⟩⟩⟩
    rw [Node.kindAt, changed, if_pos rfl]
    rfl
  · obtain ⟨given, leads⟩ := resolve_eq_ok_iff.mp resolved
    have changed := Node.labelAt_set_file found content
    have before : ∀ kind, system.root.kindAt location = some kind → kind = .file := by
      intro kind same
      rw [Node.kindAt, Node.labelAt, found] at same
      cases same
      rfl
    have grows := grows_of_labelAt changed before
    exact ⟨location, resolve_eq_ok_iff.mpr ⟨given, leads.of_grows grows rfl⟩, rfl, changed⟩

theorem sealed_of_writeBytes {system written : FileSystem} {path : String} {content : ByteArray}
    (success : system.writeBytes path content = .ok written) :
    ∀ location ∈ written.sealed, location ∈ system.sealed := by
  intro location member
  obtain ⟨_, ⟨directory, name, _, rfl⟩ | ⟨_, _, _, _, rfl⟩⟩ := writeBytes_cases success
  · exact (mem_sealed_put.mp member).1
  · exact member

theorem locate_eq_ok_iff {system : FileSystem} {path : String} {location : List String} {node : Node} :
    system.locate path = .ok (location, node) ↔
      system.resolve path true = .ok (.node location) ∧ system.root.get? location = some node := by
  constructor
  · intro located
    unfold locate at located
    split at located
    · cases located
    · cases located
    · rename_i resolved
      split at located
      · rename_i found
        cases located
        exact ⟨resolved, found⟩
      · cases located
  · rintro ⟨resolved, found⟩
    simp only [locate, resolved, found]

theorem get?_of_locate {system : FileSystem} {path : String} {location : List String} {node : Node}
    (located : system.locate path = .ok (location, node)) : system.root.get? location = some node :=
  (locate_eq_ok_iff.mp located).2

theorem node?_eq_ok_iff {system : FileSystem} {path : String} {node : Node} :
    system.node? path = .ok node ↔ ∃ location, system.locate path = .ok (location, node) := by
  unfold node?
  cases system.locate path with
  | error fault => simp
  | ok place =>
    obtain ⟨location, other⟩ := place
    simp

theorem readBytes_of_resolve {system : FileSystem} {path : String} {location : List String} {content : ByteArray}
    (resolved : system.resolve path true = .ok (.node location))
    (found : system.root.get? location = some (.file content)) : system.readBytes path = .ok content := by
  have here := node?_eq_ok_iff.mpr ⟨location, locate_eq_ok_iff.mpr ⟨resolved, found⟩⟩
  rw [readBytes, here]

theorem isSealed_eq_false_iff {system : FileSystem} {path : String} : system.isSealed path = false ↔
    ∀ location node, system.locate path = .ok (location, node) → location ∉ system.sealed := by
  unfold isSealed
  cases system.locate path with
  | error fault => simp
  | ok place =>
    obtain ⟨location, node⟩ := place
    simp

end FileSystem

end TextHarvest.Files
