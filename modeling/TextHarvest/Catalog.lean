import TextHarvest.Record
import TextHarvest.Text.Blank

/-! # Catalogs of localizable texts

A `Catalog` collects records in the order in which they come. The id is the key: of several records with one id the
first stays, unchanged, and the others are only counted. Every entry has a reference, the place of its record
relative to a root directory.
-/

namespace TextHarvest

/-- A record in a catalog, with its place relative to the root. -/
structure CatalogEntry where
  record : TextRecord
  reference : String
deriving DecidableEq, Repr

/-- An ordered collection of records without repeated ids. -/
structure Catalog where
  /-- The directory that references are relative to. -/
  root : String
  /-- The ids that are taken, the latest first. -/
  seen : List String := []
  entries : List CatalogEntry := []
  /-- The number of records that were dropped because their id was there. -/
  duplicates : Nat := 0
deriving DecidableEq, Repr

namespace Catalog

/-- The characters that are cut off both ends of a path in a reference. -/
def isSeparator (c : Char) : Bool :=
  c == '\\' || c == '/' || c == ' '

/-- A path relative to the root: the root is removed as a piece of text if the path begins with it, and separators
at both ends are cut off. -/
def relativePath (root path : String) : String :=
  let rest := (root.toList.isPrefixOf? path.toList).getD path.toList
  String.ofList (Text.trimBy isSeparator rest)

/-- The place of a record relative to the root. -/
def referenceOf (root : String) (record : TextRecord) : String :=
  relativePath root record.path ++ ":" ++ toString record.line

def entryOf (root : String) (record : TextRecord) : CatalogEntry :=
  ⟨record, referenceOf root record⟩

def ids (catalog : Catalog) : List String :=
  catalog.entries.map (·.record.id)

def size (catalog : Catalog) : Nat :=
  catalog.entries.length

def contains (catalog : Catalog) (id : String) : Bool :=
  catalog.seen.contains id

/-- Add a record at the end, unless its id is taken. The answer tells whether it was added. -/
def offer (catalog : Catalog) (record : TextRecord) : Bool × Catalog :=
  if catalog.contains record.id then (false, { catalog with duplicates := catalog.duplicates + 1 })
  else
    (true, { catalog with
      seen := record.id :: catalog.seen
      entries := catalog.entries ++ [entryOf catalog.root record] })

/-- Add records one after another. The answer counts the records, and those of them that were added. -/
def offerAll (catalog : Catalog) : List TextRecord → (Nat × Nat) × Catalog
  | [] => ((0, 0), catalog)
  | record :: records =>
    let (isNew, grown) := catalog.offer record
    let ((found, added), last) := grown.offerAll records
    ((found + 1, if isNew then added + 1 else added), last)

def insert (catalog : Catalog) (record : TextRecord) : Catalog :=
  (catalog.offer record).2

def extend (catalog : Catalog) (records : List TextRecord) : Catalog :=
  (catalog.offerAll records).2

@[simp] theorem extend_nil (catalog : Catalog) : catalog.extend [] = catalog := rfl

@[simp] theorem extend_cons (catalog : Catalog) (record : TextRecord) (records : List TextRecord) :
    catalog.extend (record :: records) = (catalog.insert record).extend records := rfl

end Catalog

end TextHarvest
