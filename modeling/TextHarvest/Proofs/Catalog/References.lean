import Mathlib.Data.List.TakeWhile
import TextHarvest.Files.Path
import TextHarvest.Proofs.Catalog.Run

/-! # References name places

The reference of a record is its path below the root, a colon and its line. The root is removed as a piece of text, and
separators at the ends of what is left are cut off; a path that has none there comes back as it is, whatever the root
ends in (`relativePath_join`). The digits of a line hold no colon, so the last colon of a reference parts it
(`placed_inj`), and two records that are stored with one reference stand at one place (`insert_reference`).
-/

namespace TextHarvest.Catalog

/-- A path below a root as references show it: not empty, and with no separator at its ends. -/
structure RelativePath where
  text : String
  nonempty : text ≠ ""
  opens : ∀ c, text.toList.head? = some c → isSeparator c = false
  ends : ∀ c, text.toList.getLast? = some c → isSeparator c = false

private theorem dropWhile_of_head? {drop : Char → Bool} {text : List Char}
    (kept : ∀ c, text.head? = some c → drop c = false) : text.dropWhile drop = text := by
  cases text with
  | nil => rfl
  | cons c rest => exact List.dropWhile_cons_of_neg (by simp [kept c rfl])

/-- Trimming cuts off what stands before a text that is trimmed already. -/
theorem trimBy_append {drop : Char → Bool} {gap text : List Char} (dropped : ∀ c ∈ gap, drop c = true)
    (opens : ∀ c, text.head? = some c → drop c = false) (ends : ∀ c, text.getLast? = some c → drop c = false) :
    Text.trimBy drop (gap ++ text) = text := by
  have front : (gap ++ text).dropWhile drop = text := by
    rw [List.dropWhile_append_of_pos dropped, dropWhile_of_head? opens]
  have back : text.reverse.dropWhile drop = text.reverse := by
    apply dropWhile_of_head?
    rwa [List.head?_reverse]
  rw [Text.trimBy, front, back, List.reverse_reverse]

private theorem relativePath_append (root : String) {gap : List Char} (separators : ∀ c ∈ gap, isSeparator c = true)
    (path : RelativePath) : relativePath root (root ++ String.ofList gap ++ path.text) = path.text := by
  have removed : root.toList.isPrefixOf? (root ++ String.ofList gap ++ path.text).toList =
      some (gap ++ path.text.toList) := by
    rw [List.isPrefixOf?_eq_some_iff_append_eq]
    simp
  rw [relativePath, removed, Option.getD_some, trimBy_append separators path.opens path.ends, String.ofList_toList]

/-- Joining a path to a root puts at most one separator between them. -/
theorem exists_join_eq (root name : String) :
    ∃ gap : List Char, (∀ c ∈ gap, isSeparator c = true) ∧
      Files.Path.join root name = root ++ String.ofList gap ++ name := by
  unfold Files.Path.join
  split_ifs
  · exact ⟨[], List.forall_mem_nil _, by simp⟩
  · exact ⟨['/'], by simp [isSeparator], rfl⟩

/-- A path that was joined to the root comes back from it. -/
theorem relativePath_join (root : String) (path : RelativePath) :
    relativePath root (Files.Path.join root path.text) = path.text := by
  obtain ⟨gap, separators, joined⟩ := exists_join_eq root path.text
  rw [joined, relativePath_append root separators]

/-- A path and a line, with a colon between them. -/
def placed (path : String) (line : Nat) : String :=
  path ++ ":" ++ toString line

/-- What stands before and behind the last colon of a text is told by the text. -/
theorem eq_of_append_colon {first second front back : List Char} (left : ':' ∉ front) (right : ':' ∉ back)
    (same : first ++ ':' :: front = second ++ ':' :: back) : first = second ∧ front = back := by
  rcases List.append_eq_append_iff.mp same with ⟨between, rfl, later⟩ | ⟨between, rfl, later⟩
  · cases between with
    | nil =>
      cases later
      exact ⟨(List.append_nil first).symm, rfl⟩
    | cons c between =>
      cases later
      simp at left
  · cases between with
    | nil =>
      cases later
      exact ⟨List.append_nil second, rfl⟩
    | cons c between =>
      cases later
      simp at right

/-- A path and a line are told by their text, also if the path has colons and digits in it. -/
theorem placed_inj {first second : String} {line other : Nat} :
    placed first line = placed second other ↔ first = second ∧ line = other := by
  have digits (n : Nat) : ':' ∉ Nat.toDigits 10 n := by
    intro member
    exact absurd (Nat.isDigit_of_mem_toDigits (by decide) (by decide) member) (by decide)
  constructor
  · intro same
    have characters : first.toList ++ ':' :: Nat.toDigits 10 line = second.toList ++ ':' :: Nat.toDigits 10 other := by
      simpa [placed] using congrArg String.toList same
    obtain ⟨paths, lines⟩ := eq_of_append_colon (digits line) (digits other) characters
    refine ⟨String.toList_inj.mp paths, ?_⟩
    calc
      line = Nat.ofDigitChars 10 (Nat.toDigits 10 line) 0 := Nat.ofDigitChars_ten_toDigits.symm
      _ = Nat.ofDigitChars 10 (Nat.toDigits 10 other) 0 := by rw [lines]
      _ = other := Nat.ofDigitChars_ten_toDigits
  · rintro ⟨rfl, rfl⟩
    rfl

/-- A record whose path was joined to the root is stored with this path and its line as its reference. -/
theorem insert_of_join {catalog : Catalog} {record : TextRecord} {path : RelativePath}
    (joined : record.path = Files.Path.join catalog.root path.text) (free : record.id ∉ catalog.seen) :
    (catalog.insert record).entries = catalog.entries ++ [⟨record, placed path.text record.line⟩] := by
  rw [insert, offer_of_free free, entryOf, referenceOf, joined, relativePath_join, placed]

/-- Two records that are stored, each in a catalog with the root that its path was joined to, have their paths below it
and their lines as references, and these are the same only for the same path and the same line. -/
theorem insert_reference {root : String} {catalog other : Catalog} {first second : RelativePath} {one two : TextRecord}
    (based : catalog.root = root) (otherBased : other.root = root)
    (oneJoined : one.path = Files.Path.join root first.text) (twoJoined : two.path = Files.Path.join root second.text)
    (oneFree : one.id ∉ catalog.seen) (twoFree : two.id ∉ other.seen) :
    ∃ stored later : CatalogEntry,
      (catalog.insert one).entries = catalog.entries ++ [stored] ∧
      (other.insert two).entries = other.entries ++ [later] ∧
      (stored.record = one ∧ stored.reference = first.text ++ ":" ++ toString one.line) ∧
      (later.record = two ∧ later.reference = second.text ++ ":" ++ toString two.line) ∧
      (stored.reference = later.reference ↔ first.text = second.text ∧ one.line = two.line) := by
  subst based
  rw [← otherBased] at twoJoined
  exact ⟨_, _, insert_of_join oneJoined oneFree, insert_of_join twoJoined twoFree, ⟨rfl, rfl⟩, ⟨rfl, rfl⟩, placed_inj⟩

/-- A root that ends in a separator and comes again in the path, and two paths that colons and digits make look
alike. -/
theorem insert_reference_colons :
    ∃ stored later : CatalogEntry,
      (insert { root := "/src/" } ⟨"/src/src/a b:1", 12, "x", none, none, none⟩).entries = [stored] ∧
      (insert { root := "/src/", seen := ["x"] } ⟨"/src/src/a b", 112, "y", none, none, none⟩).entries = [later] ∧
      stored.reference = "src/a b:1:12" ∧ later.reference = "src/a b:112" ∧ stored.reference ≠ later.reference := by
  let first : RelativePath := ⟨"src/a b:1", by decide, by simp [isSeparator], by simp [isSeparator]⟩
  let second : RelativePath := ⟨"src/a b", by decide, by simp [isSeparator], by simp [isSeparator]⟩
  obtain ⟨stored, later, here, there, ⟨_, one⟩, ⟨_, two⟩, same⟩ :=
    @insert_reference "/src/" { root := "/src/" } { root := "/src/", seen := ["x"] } first second
      ⟨"/src/src/a b:1", 12, "x", none, none, none⟩ ⟨"/src/src/a b", 112, "y", none, none, none⟩ rfl rfl
      (by decide) (by decide) (by decide) (by decide)
  refine ⟨stored, later, here, there, one, two, ?_⟩
  rw [ne_eq, same]
  decide

end TextHarvest.Catalog
