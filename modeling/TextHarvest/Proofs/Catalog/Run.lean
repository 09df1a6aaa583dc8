import Mathlib.Data.Finset.Card
import Mathlib.Data.List.Induction
import TextHarvest.Po.Render

/-! # Catalogs over whole runs of calls

A catalog keeps three things in step: the ids that are taken, the entries, and the number of dropped records. The
stream of all records that were given decides all three: `ofStream` is the catalog of a stream, one more record leads
from the catalog of a stream to that of the longer stream (`insert_ofStream`), and so every run of calls that starts
empty ends with the catalog of its stream (`ofCalls_eq`), however the stream was split into calls. Entries are only ever
added behind the others, so a PO file only grows at its end.
-/

namespace TextHarvest

/-- The records of a stream whose id does not occur earlier in it. -/
def firstRecords (stream : List TextRecord) : List TextRecord :=
  (stream.zipIdx.filter fun (record, position) => record.id ∉ (stream.take position).map (·.id)).map Prod.fst

@[simp] theorem firstRecords_nil : firstRecords [] = [] := rfl

/-- Only the last record depends on the whole stream before it. -/
theorem firstRecords_concat (stream : List TextRecord) (record : TextRecord) :
    firstRecords (stream ++ [record]) =
      firstRecords stream ++ if record.id ∈ stream.map (·.id) then [] else [record] := by
  have earlier : (stream.zipIdx.filter fun (other, position) =>
        other.id ∉ ((stream ++ [record]).take position).map (·.id)) =
      stream.zipIdx.filter fun (other, position) => other.id ∉ (stream.take position).map (·.id) := by
    apply List.filter_congr
    rintro ⟨other, position⟩ present
    have bound : position ≤ stream.length := Nat.le_of_lt (List.snd_lt_of_mem_zipIdx present)
    simp only [List.take_append_of_le_length bound]
  simp only [firstRecords, List.zipIdx_append, List.filter_append, List.map_append, earlier]
  by_cases taken : record.id ∈ stream.map (·.id)
  · simp [taken]
  · simp [taken]

/-- Dropping repeated records loses no id. -/
theorem mem_ids_firstRecords (stream : List TextRecord) (id : String) :
    id ∈ (firstRecords stream).map (·.id) ↔ id ∈ stream.map (·.id) := by
  induction stream using List.reverseRecOn with
  | nil => rfl
  | append_singleton stream record ih =>
    rw [firstRecords_concat, List.map_append, List.mem_append, ih, List.map_append, List.mem_append]
    split_ifs with taken
    · simp only [List.map_nil, List.not_mem_nil, or_false, List.map_cons, List.mem_singleton, iff_self_or]
      rintro rfl
      exact taken
    · rfl

theorem nodup_ids_firstRecords (stream : List TextRecord) : ((firstRecords stream).map (·.id)).Nodup := by
  induction stream using List.reverseRecOn with
  | nil => exact List.nodup_nil
  | append_singleton stream record ih =>
    rw [firstRecords_concat]
    split_ifs with taken
    · simpa only [List.append_nil] using ih
    · have fresh : record.id ∉ (firstRecords stream).map (·.id) := by rwa [mem_ids_firstRecords]
      rw [List.map_append, List.map_singleton]
      exact (List.perm_append_singleton ..).nodup_iff.mpr (List.nodup_cons.mpr ⟨fresh, ih⟩)

/-- The first records stay in the order of the stream. -/
theorem firstRecords_sublist (stream : List TextRecord) : (firstRecords stream).Sublist stream := by
  have kept := (List.filter_sublist (l := stream.zipIdx) (p := fun (record, position) =>
    record.id ∉ (stream.take position).map (·.id))).map Prod.fst
  rwa [List.zipIdx_map_fst] at kept

namespace Catalog

variable {catalog : Catalog} {record : TextRecord}

private theorem offer_of_taken (taken : record.id ∈ catalog.seen) :
    catalog.offer record = (false, { catalog with duplicates := catalog.duplicates + 1 }) := by
  simp [offer, contains, taken]

theorem offer_of_free (free : record.id ∉ catalog.seen) :
    catalog.offer record =
      (true, { catalog with
        seen := record.id :: catalog.seen
        entries := catalog.entries ++ [entryOf catalog.root record] }) := by
  simp [offer, contains, free]

private theorem offerAll_cons (catalog : Catalog) (record : TextRecord) (records : List TextRecord) :
    catalog.offerAll (record :: records) =
      ((((catalog.insert record).offerAll records).1.1 + 1,
        if (catalog.offer record).1 then ((catalog.insert record).offerAll records).1.2 + 1
        else ((catalog.insert record).offerAll records).1.2), (catalog.insert record).extend records) := rfl

/-- Adding records counts all of them, and as many additions as there are new entries. -/
theorem offerAll_answer (catalog : Catalog) (records : List TextRecord) :
    (catalog.offerAll records).1.1 = records.length ∧
      catalog.size + (catalog.offerAll records).1.2 = (catalog.extend records).size := by
  induction records generalizing catalog with
  | nil => exact ⟨rfl, rfl⟩
  | cons record records ih =>
    obtain ⟨found, added⟩ := ih (catalog.insert record)
    rw [extend_cons, ← added, offerAll_cons]
    refine ⟨congrArg (· + 1) found, ?_⟩
    by_cases taken : record.id ∈ catalog.seen
    · simp [insert, size, offer_of_taken taken]
    · simp only [insert, size, offer_of_free taken, List.length_append, List.length_singleton, ↓reduceIte]
      omega

/-- The catalog that a stream of records leads to. -/
def ofStream (root : String) (stream : List TextRecord) : Catalog where
  root
  seen := ((firstRecords stream).map (·.id)).reverse
  entries := (firstRecords stream).map (entryOf root)
  duplicates := stream.length - (firstRecords stream).length

private theorem mem_seen_ofStream (root : String) (stream : List TextRecord) (id : String) :
    id ∈ (ofStream root stream).seen ↔ id ∈ stream.map (·.id) := by
  rw [ofStream, List.mem_reverse, mem_ids_firstRecords]

private theorem ids_ofStream (root : String) (stream : List TextRecord) :
    (ofStream root stream).ids = (firstRecords stream).map (·.id) := by
  simp [ids, ofStream, entryOf, Function.comp_def]

/-- A catalog has as many entries as there are ids in its stream. -/
theorem size_ofStream (root : String) (stream : List TextRecord) :
    (ofStream root stream).size = (stream.map (·.id)).toFinset.card := by
  have sameIds : (stream.map (·.id)).toFinset = ((firstRecords stream).map (·.id)).toFinset := by
    ext id
    rw [List.mem_toFinset, List.mem_toFinset, mem_ids_firstRecords]
  rw [sameIds, List.toFinset_card_of_nodup (nodup_ids_firstRecords stream), List.length_map]
  exact List.length_map _

/-- One record leads from the catalog of a stream to the catalog of the stream with the record behind it. -/
theorem insert_ofStream (root : String) (stream : List TextRecord) (record : TextRecord) :
    (ofStream root stream).insert record = ofStream root (stream ++ [record]) := by
  have bound := (firstRecords_sublist stream).length_le
  by_cases taken : record.id ∈ stream.map (·.id)
  · rw [insert, offer_of_taken ((mem_seen_ofStream ..).mpr taken)]
    simp only [ofStream, firstRecords_concat, if_pos taken, List.append_nil, List.length_append,
      List.length_singleton, Nat.sub_add_comm bound]
  · rw [insert, offer_of_free (mt (mem_seen_ofStream ..).mp taken)]
    simp [ofStream, firstRecords_concat, taken]

/-- Records lead from the catalog of a stream to the catalog of the longer stream. -/
theorem extend_ofStream (root : String) (stream records : List TextRecord) :
    (ofStream root stream).extend records = ofStream root (stream ++ records) := by
  induction records generalizing stream with
  | nil => rw [extend_nil, List.append_nil]
  | cons record records ih => rw [extend_cons, insert_ofStream, ih, List.append_assoc, List.singleton_append]

/-- A call that gives records to a catalog. -/
inductive Call
  | insert (record : TextRecord)
  | extend (records : List TextRecord)

def Call.records : Call → List TextRecord
  | insert record => [record]
  | extend records => records

def perform (catalog : Catalog) : Call → Catalog
  | .insert record => catalog.insert record
  | .extend records => catalog.extend records

def run (catalog : Catalog) (calls : List Call) : Catalog :=
  calls.foldl perform catalog

/-- All records that calls give, in order. -/
def streamOf (calls : List Call) : List TextRecord :=
  calls.flatMap Call.records

private theorem perform_ofStream (root : String) (stream : List TextRecord) (call : Call) :
    (ofStream root stream).perform call = ofStream root (stream ++ call.records) := by
  cases call with
  | insert record => exact insert_ofStream root stream record
  | extend records => exact extend_ofStream root stream records

/-- A run of calls leads from the catalog of a stream to the catalog of the stream with all their records behind it. -/
theorem run_ofStream (root : String) (stream : List TextRecord) (calls : List Call) :
    (ofStream root stream).run calls = ofStream root (stream ++ streamOf calls) := by
  induction calls generalizing stream with
  | nil => simp [run, streamOf]
  | cons call calls ih =>
    change ((ofStream root stream).perform call).run calls = _
    rw [perform_ofStream, ih, List.append_assoc]
    rfl

/-- The catalog that calls lead to from the empty catalog. -/
def ofCalls (root : String) (calls : List Call) : Catalog :=
  run { root } calls

/-- A run of calls that starts empty ends with the catalog of its stream. -/
theorem ofCalls_eq (root : String) (calls : List Call) : ofCalls root calls = ofStream root (streamOf calls) :=
  run_ofStream root [] calls

/-- The taken ids, the entries and the number of dropped records all follow from the stream of given records. -/
structure InStep (root : String) (stream : List TextRecord) (catalog : Catalog) : Prop where
  ids_nodup : catalog.ids.Nodup
  mem_seen_iff : ∀ id, id ∈ catalog.seen ↔ id ∈ catalog.ids
  entries_eq : catalog.entries = (firstRecords stream).map (entryOf root)
  size_add_duplicates : catalog.size + catalog.duplicates = stream.length

theorem inStep_ofStream (root : String) (stream : List TextRecord) : InStep root stream (ofStream root stream) where
  ids_nodup := by
    rw [ids_ofStream]
    exact nodup_ids_firstRecords stream
  mem_seen_iff := by
    intro id
    rw [mem_seen_ofStream, ids_ofStream, mem_ids_firstRecords]
  entries_eq := rfl
  size_add_duplicates := by
    simp only [size, ofStream, List.length_map]
    exact Nat.add_sub_cancel' (firstRecords_sublist stream).length_le

end Catalog

namespace Catalog

end Catalog

end TextHarvest
