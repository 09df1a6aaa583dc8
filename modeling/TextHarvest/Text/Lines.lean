/-! # Bytes and lines of a text

Places in a text are byte offsets of its UTF-8 encoding. A `LineTable` holds the offsets at which lines start, in
ascending order, and `search` finds the line of any offset among them by halves; lines are counted from 1 and end with a
line feed.
-/

namespace TextHarvest.Text

def byteLength : List Char → Nat
  | [] => 0
  | c :: rest => c.utf8Size + byteLength rest

@[simp] theorem byteLength_nil : byteLength [] = 0 := rfl

@[simp] theorem byteLength_cons (c : Char) (rest : List Char) :
    byteLength (c :: rest) = c.utf8Size + byteLength rest := rfl

@[simp] theorem byteLength_append (first second : List Char) :
    byteLength (first ++ second) = byteLength first + byteLength second := by
  induction first with
  | nil => simp
  | cons c rest ih => simp [ih, Nat.add_assoc]

/-- What looking for a key in an ascending row of keys gives. -/
inductive Lookup
  /-- The key stands at the index. -/
  | hit (index : Nat)
  /-- The key is not there; it would have to be put in at the index. -/
  | miss (index : Nat)
deriving DecidableEq, Repr

/-- Look for a key between two indices of an ascending row: the key in the middle tells which half to go on with. -/
def search (keys : Array Nat) (key low high : Nat) (inside : high ≤ keys.size) : Lookup :=
  if left : low < high then
    have bound : (low + high) / 2 < keys.size := by omega
    if keys[(low + high) / 2] = key then .hit ((low + high) / 2)
    else if keys[(low + high) / 2] < key then search keys key ((low + high) / 2 + 1) high inside
    else search keys key low ((low + high) / 2) (Nat.le_of_lt bound)
  else .miss low
termination_by high - low

/-- The offsets at which the lines after the first one start, where the text itself starts at `offset`. -/
def laterStarts (offset : Nat) : List Char → List Nat
  | [] => []
  | c :: rest =>
    if c = '\n' then (offset + 1) :: laterStarts (offset + 1) rest else laterStarts (offset + c.utf8Size) rest

/-- Each line starts behind the one before. -/
theorem ascending_laterStarts (offset : Nat) (text : List Char) :
    (offset :: laterStarts offset text).Pairwise (· < ·) := by
  induction text generalizing offset with
  | nil => simp [laterStarts]
  | cons c rest ih =>
    unfold laterStarts
    split
    · have later := ih (offset + 1)
      refine .cons ?_ later
      intro start member
      rcases List.mem_cons.mp member with rfl | behind
      · exact Nat.lt_succ_self offset
      · exact Nat.lt_of_succ_lt (List.rel_of_pairwise_cons later behind)
    · have later := ih (offset + c.utf8Size)
      refine .cons ?_ (List.pairwise_cons.mp later).2
      intro start member
      exact Nat.lt_of_le_of_lt (Nat.le_add_right ..) (List.rel_of_pairwise_cons later member)

/-- The offsets at which the lines of a text start, in ascending order. -/
structure LineTable where
  starts : Array Nat
  ascending : starts.toList.Pairwise (· < ·)
deriving DecidableEq, Repr

namespace LineTable

def ofText (text : List Char) : LineTable :=
  ⟨(0 :: laterStarts 0 text).toArray, ascending_laterStarts 0 text⟩

def lineCount (table : LineTable) : Nat :=
  table.starts.size

/-- The line of a byte offset. Where a line starts at the offset, this is the line; elsewhere the line started
before. An offset behind the text is on the last line. -/
def lineOf (table : LineTable) (offset : Nat) : Nat :=
  match search table.starts offset 0 table.starts.size (Nat.le_refl _) with
  | .hit index => index + 1
  | .miss index => index

end LineTable
end TextHarvest.Text
