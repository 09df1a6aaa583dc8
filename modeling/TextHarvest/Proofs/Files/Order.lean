import TextHarvest.Proofs.Files.Scan
import TextHarvest.Proofs.Text.Lines
import TextHarvest.Settings

/-! # The order of a scan

A scan lists files in the order of their locations, name by name, and names in the order of their bytes (`Precedes`).
Names are sorted by their characters, which comes to the same (`nameBytes_lt`). Since no two files have one location, a
listing is settled by what it lists (`eq_of_ascending`): the order in which entries are stored makes no difference.
-/

namespace TextHarvest.Files

/-! ## Names by their bytes -/

def nameBytes (name : String) : List UInt8 :=
  name.toUTF8.data.toList

private theorem nameBytes_eq (name : String) : nameBytes name = name.toList.flatMap String.utf8EncodeChar :=
  Text.data_toUTF8 name

/-- At the first place where two rows of bytes differ, the first row has the smaller byte; neither row opens the
other. -/
def Below : List UInt8 → List UInt8 → Prop
  | first :: firsts, second :: seconds => first < second ∨ first = second ∧ Below firsts seconds
  | _, _ => False

theorem Below.append {first second : List UInt8} (below : Below first second) (left right : List UInt8) :
    first ++ left < second ++ right := by
  induction first generalizing second with
  | nil => cases second <;> exact below.elim
  | cons byte first ih =>
    cases second with
    | nil => exact below.elim
    | cons other second =>
      rcases below with smaller | ⟨rfl, below⟩
      · exact .rel smaller
      · exact .cons (ih below)

private theorem toNat_lt_of_char (c : Char) : c.val.toNat < 1114112 := by
  rcases c.valid with low | ⟨_, high⟩
  · exact Nat.lt_trans low (by decide)
  · exact high

/-- The largest numbers take four bytes, with the digits of the number to the base 64. -/
theorem below_of_wide {n m : Nat} (order : n < m) (bound : m < 1114112) :
    Below [UInt8.ofNat (n / 262144 % 8 + 240), UInt8.ofNat (n / 4096 % 64 + 128), UInt8.ofNat (n / 64 % 64 + 128),
        UInt8.ofNat (n % 64 + 128)]
      [UInt8.ofNat (m / 262144 % 8 + 240), UInt8.ofNat (m / 4096 % 64 + 128), UInt8.ofNat (m / 64 % 64 + 128),
        UInt8.ofNat (m % 64 + 128)] := by
  have digits (k : Nat) (small : k < 2097152) : ∃ a b c d, k / 262144 % 8 = a ∧ k / 4096 % 64 = b ∧ k / 64 % 64 = c ∧
      k % 64 = d ∧ a < 8 ∧ b < 64 ∧ c < 64 ∧ d < 64 ∧ k = 262144 * a + 4096 * b + 64 * c + d :=
    ⟨_, _, _, _, rfl, rfl, rfl, rfl, by omega⟩
  obtain ⟨a, b, c, d, h₁, h₂, h₃, h₄, _⟩ := digits n (by omega)
  obtain ⟨a', b', c', d', h₅, h₆, h₇, h₈, _⟩ := digits m (by omega)
  rw [h₁, h₂, h₃, h₄, h₅, h₆, h₇, h₈]
  clear h₁ h₂ h₃ h₄ h₅ h₆ h₇ h₈
  simp only [Below, UInt8.lt_iff_toNat_lt, ← UInt8.toNat_inj, UInt8.toNat_ofNat', Nat.reducePow]
  omega

private theorem below_utf8EncodeChar {c d : Char} (smaller : c < d) :
    Below (String.utf8EncodeChar c) (String.utf8EncodeChar d) := by
  have order : c.val.toNat < d.val.toNat := smaller
  have bound := toNat_lt_of_char d
  unfold String.utf8EncodeChar
  generalize c.val.toNat = n at *
  generalize d.val.toNat = m at *
  dsimp only
  by_cases wide : n ≤ 65535
  · split_ifs <;>
      simp only [Below, UInt8.lt_iff_toNat_lt, ← UInt8.toNat_inj, UInt8.toNat_ofNat', Nat.reducePow] <;> omega
  · rw [if_neg (by omega), if_neg (by omega), if_neg wide, if_neg (by omega), if_neg (by omega), if_neg (by omega)]
    exact below_of_wide order bound

private theorem flatMap_utf8EncodeChar_lt {first second : List Char} (smaller : first < second) :
    first.flatMap String.utf8EncodeChar < second.flatMap String.utf8EncodeChar := by
  induction smaller with
  | @nil c rest =>
    obtain ⟨byte, bytes, spelled⟩ := List.exists_cons_of_ne_nil (@String.utf8EncodeChar_ne_nil c)
    rw [List.flatMap_nil, List.flatMap_cons, spelled]
    exact .nil
  | rel smaller =>
    rw [List.flatMap_cons, List.flatMap_cons]
    exact (below_utf8EncodeChar smaller).append _ _
  | cons _ ih =>
    rw [List.flatMap_cons, List.flatMap_cons]
    exact List.append_left_lt ih

theorem nameBytes_lt {first second : String} (smaller : first < second) : nameBytes first < nameBytes second := by
  rw [nameBytes_eq, nameBytes_eq]
  exact flatMap_utf8EncodeChar_lt smaller

/-- The order of locations: by the first name in which they differ, and of names by the first byte in which they differ;
what stands below a location comes behind it. -/
def Precedes (first second : List String) : Prop :=
  first.map nameBytes < second.map nameBytes

private theorem Precedes.asymm {first second : List String} (before : Precedes first second) :
    ¬ Precedes second first :=
  List.lt_asymm before

private theorem precedes_of_name_lt {name other : String} (smaller : name < other)
    (location below beyond : List String) : Precedes (location ++ name :: below) (location ++ other :: beyond) := by
  simp only [Precedes, List.map_append, List.map_cons]
  exact List.append_left_lt (.rel (nameBytes_lt smaller))

private theorem precedes_append_cons (location : List String) (name : String) (below : List String) :
    Precedes location (location ++ name :: below) := by
  have longer : ([] : List (List UInt8)) < nameBytes name :: below.map nameBytes := List.nil_lt_cons ..
  simp only [Precedes, List.map_append, List.map_cons]
  simpa using List.append_left_lt longer

private theorem nodup_of_ascending {listed : List (List String)} (ascending : listed.Pairwise Precedes) :
    listed.Nodup := by
  refine ascending.imp ?_
  rintro location _ before rfl
  exact before.asymm before

/-- Two ascending listings of the same locations are the same. -/
theorem eq_of_ascending {first second : List (List String)} (left : first.Pairwise Precedes)
    (right : second.Pairwise Precedes) (same : ∀ location, location ∈ first ↔ location ∈ second) : first = second := by
  have shuffled := (List.perm_ext_iff_of_nodup (nodup_of_ascending left) (nodup_of_ascending right)).mpr same
  refine List.Perm.eq_of_pairwise ?_ left right shuffled
  intro location other _ _ before after
  exact absurd after before.asymm

/-- The first of an ascending listing comes before all others. -/
theorem head?_eq_some_iff_of_ascending {listed : List (List String)} (ascending : listed.Pairwise Precedes)
    {location : List String} : listed.head? = some location ↔
      location ∈ listed ∧ ∀ other ∈ listed, other = location ∨ Precedes location other := by
  cases listed with
  | nil => simp
  | cons first rest =>
    obtain ⟨least, _⟩ := List.pairwise_cons.mp ascending
    constructor
    · rintro ⟨⟩
      refine ⟨List.mem_cons_self, ?_⟩
      intro other member
      exact (List.mem_cons.mp member).imp_right (least other)
    · rintro ⟨member, before⟩
      rcases List.mem_cons.mp member with rfl | later
      · rfl
      · rcases before first List.mem_cons_self with rfl | sooner
        · rfl
        · exact absurd sooner (least location later).asymm

/-! ## The order of a walk -/

namespace Node

/-- Rows with different names are sorted strictly. -/
theorem pairwise_mergeSort_names {α : Type} {rows : List (String × α)} (distinct : (rows.map Prod.fst).Nodup) :
    (rows.mergeSort fun first second => decide (first.1 ≤ second.1)).Pairwise fun first second =>
      first.1 < second.1 := by
  have transitive : ∀ first second third : String × α, decide (first.1 ≤ second.1) = true →
      decide (second.1 ≤ third.1) = true → decide (first.1 ≤ third.1) = true :=
    fun _ _ _ left right => decide_eq_true (String.le_trans (of_decide_eq_true left) (of_decide_eq_true right))
  have total : ∀ first second : String × α, (decide (first.1 ≤ second.1) || decide (second.1 ≤ first.1)) = true :=
    fun first second => by simpa using String.le_total first.1 second.1
  have sorted := List.pairwise_mergeSort transitive total rows
  have different : (rows.mergeSort fun first second => decide (first.1 ≤ second.1)).Pairwise fun first second =>
      first.1 ≠ second.1 :=
    List.pairwise_map.mp (((List.mergeSort_perm rows _).map Prod.fst).nodup_iff.mpr distinct)
  refine (sorted.and different).imp ?_
  rintro first second ⟨ordered, other⟩
  by_contra notSmaller
  exact other (String.le_antisymm (of_decide_eq_true ordered) (String.not_lt.mp notSmaller))

private theorem pairwise_visit (keep : List String → Node → Bool) (location : List String) (node : Node) :
    (visit keep location node).Pairwise Precedes := by
  rw [visit]
  split_ifs
  · exact List.pairwise_singleton ..
  · exact .nil

/-- A walk goes through the locations in ascending order. -/
theorem pairwise_walk {root : Node} (tidy : root.IsTidy) (keep : List String → Node → Bool) (location : List String) :
    (walk keep location root).Pairwise Precedes := by
  induction root using induction_on generalizing location with
  | directory entries ih =>
    rw [walk, walkEntries_eq_map, List.pairwise_append, List.pairwise_flatMap]
    refine ⟨pairwise_visit keep location _, ⟨?_, ?_⟩, ?_⟩
    · intro row present
      obtain ⟨entry, member, rfl⟩ := List.mem_map.mp (List.mem_mergeSort.mp present)
      exact ih entry member (tidy.child member) _
    · have distinct : ((entries.map fun entry => (entry.1, walk keep (location ++ [entry.1]) entry.2)).map
          Prod.fst).Nodup := by
        rw [List.map_map]
        exact (tidy [] _ rfl).1
      refine (pairwise_mergeSort_names distinct).imp_of_mem ?_
      intro first second firstPresent secondPresent smaller place inFirst other inSecond
      obtain ⟨entry, member, rfl⟩ := List.mem_map.mp (List.mem_mergeSort.mp firstPresent)
      obtain ⟨further, furtherMember, rfl⟩ := List.mem_map.mp (List.mem_mergeSort.mp secondPresent)
      obtain ⟨below, _, rfl, _⟩ := (mem_walk_iff (tidy.child member) keep _ _).mp inFirst
      obtain ⟨beyond, _, rfl, _⟩ := (mem_walk_iff (tidy.child furtherMember) keep _ _).mp inSecond
      simpa using precedes_of_name_lt smaller location below beyond
    · intro place own other inside
      obtain ⟨rfl, _⟩ := mem_visit.mp own
      obtain ⟨row, present, inRow⟩ := List.mem_flatMap.mp inside
      obtain ⟨entry, member, rfl⟩ := List.mem_map.mp (List.mem_mergeSort.mp present)
      obtain ⟨below, _, rfl, _⟩ := (mem_walk_iff (tidy.child member) keep _ _).mp inRow
      simpa using precedes_append_cons place entry.1 below
  | file content => exact pairwise_visit keep location _
  | link target => exact pairwise_visit keep location _

end Node

namespace FileSystem

theorem pairwise_selected {system : FileSystem} (tidy : system.root.IsTidy) (directory : String)
    (pattern : Glob.Pattern) : (system.selected directory pattern).Pairwise Precedes := by
  cases listed : system.treeAt directory with
  | error fault =>
    rw [selected_of_failed listed]
    exact .nil
  | ok tree =>
    rw [selected_of_treeAt listed]
    exact Node.pairwise_walk (isTidy_of_treeAt tidy listed) _ []

theorem isPlain_of_node? {system : FileSystem} (plain : system.root.IsPlain) {path : String} {node : Node}
    (found : system.node? path = .ok node) : node.IsPlain := by
  obtain ⟨location, located⟩ := node?_eq_ok_iff.mp found
  exact plain.of_get? (get?_of_locate located)

/-- The directory at a location below another may not be read, and no directory that comes before it is such a one. -/
def FirstSealed (system : FileSystem) (directory : String) (location : List String) : Prop :=
  ∃ base tree, system.locate directory = .ok (base, tree) ∧
    tree.labelAt location = some .directory ∧ base ++ location ∈ system.sealed ∧
    ∀ other, tree.labelAt other = some .directory → base ++ other ∈ system.sealed →
      other = location ∨ Precedes location other

/-- A search fails at the first directory that may not be read. -/
theorem treeAt_eq_sealed_iff {system : FileSystem} (tidy : system.root.IsTidy) {directory : String}
    {location : List String} :
    system.treeAt directory = .error (.sealed location) ↔ system.FirstSealed directory location := by
  rcases treeAt_cases system directory with ⟨missing, failed⟩ | ⟨base, entries, located, _⟩
  · rw [failed]
    refine iff_of_false (by simp) ?_
    rintro ⟨base, tree, located, here, _⟩
    have found := node?_eq_ok_iff.mpr ⟨base, located⟩
    cases tree with
    | directory entries => simp [isDirectory, found] at missing
    | file content => cases location <;> cases here
    | link target => cases location <;> cases here
  · have inside := tidy.of_get? (get?_of_locate located)
    have failed : system.treeAt directory = .error (.sealed location) ↔
        ((Node.directory entries).walk (system.closed base) []).head? = some location := by
      rw [treeAt_of_locate located]
      split <;> simp_all
    rw [failed, head?_eq_some_iff_of_ascending (Node.pairwise_walk inside _ [])]
    simp only [mem_walk_closed inside, and_imp]
    constructor
    · rintro ⟨⟨here, member⟩, least⟩
      exact ⟨base, _, located, here, member, least⟩
    · rintro ⟨_, _, same, here, member, least⟩
      cases located.symm.trans same
      exact ⟨⟨here, member⟩, least⟩

/-- A list has, once each, the locations of the files below a directory whose own names a pattern selects, and the
path of each leads to that file. -/
structure ListsFiles (system : FileSystem) (directory : String) (pattern : Glob.Pattern)
    (listed : List (List String)) : Prop where
  nodup : listed.Nodup
  mem_iff : ∀ location, location ∈ listed ↔
    ∃ node content name, system.node? directory = .ok node ∧ node.get? location = some (.file content) ∧
      location.getLast? = some name ∧ pattern.selects name = true
  readBytes_eq : ∀ location ∈ listed, ∀ node content, system.node? directory = .ok node →
    node.get? location = some (.file content) → system.readBytes (pathBelow directory location) = .ok content

theorem listsFiles_selected {system : FileSystem} (plain : system.root.IsPlain) (listable : system.Listable)
    (directory : String) (pattern : Glob.Pattern) :
    system.ListsFiles directory pattern (system.selected directory pattern) where
  nodup := nodup_of_ascending (pairwise_selected plain.isTidy directory pattern)
  mem_iff := mem_selected_iff plain listable directory pattern
  readBytes_eq location member node content found file := by
    obtain ⟨_, _, name, _, _, last, _⟩ := (mem_selected_iff plain listable directory pattern location).mp member
    refine readBytes_pathBelow plain found file ?_
    rintro rfl
    cases last

theorem exists_name_of_isSelected {system : FileSystem} {directory : String} {pattern : Glob.Pattern}
    {location : List String} {node : Node} (kept : system.isSelected directory pattern location node = true) :
    ∃ name, location.getLast? = some name ∧ pattern.selects name = true := by
  unfold isSelected at kept
  split at kept
  · cases kept
  · rename_i name last
    exact ⟨name, last, (Bool.and_eq_true_iff.mp kept).1⟩

end FileSystem

/-! ## Patterns that ask for an ending -/

end TextHarvest.Files
