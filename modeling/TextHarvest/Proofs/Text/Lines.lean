import Mathlib.Data.List.Basic
import Mathlib.Order.Monotone.Basic
import Mathlib.Order.Nat
import TextHarvest.Text.Blank
import TextHarvest.Text.Lines

/-! # Lines are counted by line feeds

The line of a place in a text is one more than the number of line feeds before it, and a text has one more line than it
has line feeds. A later place is never on an earlier line, and no place is outside the lines of the text
(`lineOf_eq_count_feeds`). `Ascend` says this of the lines of many places at once.

A line is found in two steps. A search in ascending keys names the place of a key (`search_fits`), so the line of an
offset is the number of lines that start up to it (`lineOf_eq_countP`); and each of them but the first starts behind a
line feed among the bytes of the text (`countP_laterStarts`).
-/

namespace TextHarvest.Text

/-- Lines that never decrease, from `first` on and no further than `last`. -/
structure Ascend (first last : Nat) (lines : List Nat) : Prop where
  ordered : lines.Pairwise (· ≤ ·)
  first_le : ∀ line ∈ lines, first ≤ line
  le_last : ∀ line ∈ lines, line ≤ last

namespace Ascend

variable {first last : Nat} {lines : List Nat}

theorem nil (first last : Nat) : Ascend first last [] :=
  ⟨.nil, List.forall_mem_nil _, List.forall_mem_nil _⟩

theorem cons (ascend : Ascend first last lines) (inside : first ≤ last) : Ascend first last (first :: lines) :=
  ⟨.cons ascend.first_le ascend.ordered, List.forall_mem_cons.mpr ⟨Nat.le_refl first, ascend.first_le⟩,
    List.forall_mem_cons.mpr ⟨inside, ascend.le_last⟩⟩

theorem mono {earlier later : Nat} (ascend : Ascend first last lines) (before : earlier ≤ first)
    (after : last ≤ later) : Ascend earlier later lines :=
  ⟨ascend.ordered, fun line member => Nat.le_trans before (ascend.first_le line member),
    fun line member => Nat.le_trans (ascend.le_last line member) after⟩

theorem of_subset {chosen : List Nat} (ascend : Ascend first last lines) (ordered : chosen.Pairwise (· ≤ ·))
    (subset : chosen ⊆ lines) : Ascend first last chosen :=
  ⟨ordered, fun line member => ascend.first_le line (subset member),
    fun line member => ascend.le_last line (subset member)⟩

end Ascend

/-! ## Looking for a key -/

/-- The keys before an index of an ascending row are smaller than the key there, and those behind it are larger. -/
theorem ascending_at {keys : List Nat} (ascending : keys.Pairwise (· < ·)) {index : Nat} (bound : index < keys.length) :
    (∀ other ∈ keys.take index, other < keys[index]) ∧ ∀ other ∈ keys.drop (index + 1), keys[index] < other := by
  rw [← List.take_append_drop index keys, List.drop_eq_getElem_cons bound, List.pairwise_append,
    List.pairwise_cons] at ascending
  obtain ⟨_, ⟨behind, _⟩, before⟩ := ascending
  exact ⟨fun other member => before other member _ List.mem_cons_self, behind⟩

/-- The place that a lookup names: the key stands there, or smaller keys stand before it and larger ones from it on. -/
def Lookup.Fits (keys : List Nat) (key : Nat) : Lookup → Prop
  | .hit index => keys[index]? = some key
  | .miss index =>
    index ≤ keys.length ∧ (∀ other ∈ keys.take index, other < key) ∧ ∀ other ∈ keys.drop index, key < other

/-- A search stays between the smaller keys and the larger ones, so what it ends with is the place of the key. -/
theorem search_fits {keys : Array Nat} (ascending : keys.toList.Pairwise (· < ·)) {key low high : Nat}
    (inside : high ≤ keys.size) (ordered : low ≤ high) (before : ∀ other ∈ keys.toList.take low, other < key)
    (behind : ∀ other ∈ keys.toList.drop high, key < other) :
    (search keys key low high inside).Fits keys.toList key := by
  fun_induction search keys key low high inside with
  | case1 low high inside left bound found =>
    change keys.toList[(low + high) / 2]? = some key
    rw [Array.getElem?_toList, Array.getElem?_eq_getElem bound, found]
  | case2 low high inside left bound _ smaller ih =>
    have row : (low + high) / 2 < keys.toList.length := bound
    apply ih (by omega) ?_ behind
    rw [List.take_succ_eq_append_getElem row]
    intro other member
    rcases List.mem_append.mp member with earlier | here
    · exact Nat.lt_trans ((ascending_at ascending row).1 other earlier) smaller
    · rw [List.mem_singleton.mp here]
      exact smaller
  | case3 low high inside left bound different notSmaller ih =>
    have row : (low + high) / 2 < keys.toList.length := bound
    have larger : key < keys.toList[(low + high) / 2] := by
      rw [Array.getElem_toList]
      omega
    apply ih (by omega) before
    rw [List.drop_eq_getElem_cons row]
    intro other member
    rcases List.mem_cons.mp member with rfl | later
    · exact larger
    · exact Nat.lt_trans larger ((ascending_at ascending row).2 other later)
  | case4 low high inside closed =>
    obtain rfl : low = high := by omega
    exact ⟨inside, before, behind⟩

/-- As many keys are at most as large as a given one as stand before the place where the larger ones begin. -/
theorem countP_le_of_split {keys : List Nat} {key index : Nat} (bound : index ≤ keys.length)
    (before : ∀ other ∈ keys.take index, other ≤ key) (behind : ∀ other ∈ keys.drop index, key < other) :
    keys.countP (· ≤ key) = index := by
  have small : (keys.take index).countP (· ≤ key) = (keys.take index).length :=
    List.countP_eq_length.mpr (by simpa using before)
  have large : (keys.drop index).countP (· ≤ key) = 0 :=
    List.countP_eq_zero.mpr (by simpa using behind)
  calc
    keys.countP (· ≤ key) = (keys.take index ++ keys.drop index).countP (· ≤ key) := by rw [List.take_append_drop]
    _ = index := by rw [List.countP_append, small, large, List.length_take_of_le bound, Nat.add_zero]

/-! ## Line feeds among the bytes -/

def utf8 (text : List Char) : List UInt8 :=
  text.flatMap String.utf8EncodeChar

theorem data_toUTF8 (text : String) : text.toUTF8.data.toList = utf8 text.toList := by
  rw [String.toUTF8, ← String.utf8Encode_toList, List.utf8Encode, List.data_toByteArray]
  rfl

theorem utf8_append (first second : List Char) : utf8 (first ++ second) = utf8 first ++ utf8 second :=
  List.flatMap_append

theorem length_utf8 (text : List Char) : (utf8 text).length = byteLength text := by
  induction text with
  | nil => rfl
  | cons c text ih =>
    rw [utf8, List.flatMap_cons, List.length_append, String.length_utf8EncodeChar, byteLength_cons]
    exact congrArg _ ih

/-- No other character has the byte of a line feed in it: the bytes of a wide character are large. -/
theorem feed_not_mem_utf8EncodeChar {c : Char} (other : c ≠ '\n') : (10 : UInt8) ∉ String.utf8EncodeChar c := by
  have number : c.val.toNat ≠ 10 := fun same => other (Char.ext (UInt32.toNat_inj.mp same))
  unfold String.utf8EncodeChar
  generalize c.val.toNat = n at *
  dsimp only
  split_ifs <;>
    simp only [List.mem_cons, List.not_mem_nil, or_false, ← UInt8.toNat_inj, UInt8.toNat_ofNat', UInt8.reduceToNat,
      Nat.reducePow] <;> omega

private theorem count_utf8 (text : List Char) : (utf8 text).count 10 = text.count '\n' := by
  induction text with
  | nil => rfl
  | cons c text ih =>
    rw [utf8, List.flatMap_cons, List.count_append]
    by_cases feed : c = '\n'
    · rw [feed, List.count_cons_self, Nat.add_comm]
      exact congrArg (· + 1) ih
    · rw [List.count_eq_zero.mpr (feed_not_mem_utf8EncodeChar feed), List.count_cons_of_ne feed, Nat.zero_add]
      exact ih

/-! ## Lines behind line feeds -/

private theorem length_laterStarts (offset : Nat) (text : List Char) :
    (laterStarts offset text).length = text.count '\n' := by
  induction text generalizing offset with
  | nil => rfl
  | cons c text ih =>
    unfold laterStarts
    split_ifs with feed
    · rw [List.length_cons, ih, feed, List.count_cons_self]
    · rw [ih, List.count_cons_of_ne feed]

private theorem countP_laterStarts_of_le {offset limit : Nat} (early : limit ≤ offset) (text : List Char) :
    (laterStarts offset text).countP (· ≤ limit) = 0 := by
  rw [List.countP_eq_zero]
  intro start member
  have later := List.rel_of_pairwise_cons (ascending_laterStarts offset text) member
  rw [decide_eq_true_eq]
  omega

/-- As many lines start up to a place as there are line feeds before it: a line starts behind its line feed, and a
character that the place cuts in two has none. -/
theorem countP_laterStarts (offset length : Nat) (text : List Char) :
    (laterStarts offset text).countP (· ≤ offset + length) = ((utf8 text).take length).count 10 := by
  induction text generalizing offset length with
  | nil => simp [laterStarts, utf8]
  | cons c text ih =>
    rw [laterStarts, utf8, List.flatMap_cons]
    split_ifs with feed
    · cases length with
      | zero => simp [countP_laterStarts_of_le (Nat.le_add_right offset 1) text]
      | succ length =>
        have byte : String.utf8EncodeChar c = [10] := by rw [feed]; rfl
        have onward := ih (offset + 1) length
        rw [Nat.add_assoc, Nat.add_comm 1 length] at onward
        rw [List.countP_cons_of_pos (by simp), onward, byte, List.singleton_append, List.take_succ_cons,
          List.count_cons_self]
        rfl
    · have none : ((String.utf8EncodeChar c).take length).count 10 = 0 :=
        List.count_eq_zero.mpr fun member => feed_not_mem_utf8EncodeChar feed (List.mem_of_mem_take member)
      rw [List.take_append, List.count_append, none, Nat.zero_add, String.length_utf8EncodeChar]
      rcases Nat.le_total c.utf8Size length with whole | cut
      · have reached : offset + length = offset + c.utf8Size + (length - c.utf8Size) := by omega
        rw [reached, ih]
        rfl
      · rw [countP_laterStarts_of_le (by omega), Nat.sub_eq_zero_of_le cut, List.take_zero, List.count_nil]

namespace LineTable

/-- The line of an offset is the number of lines that start up to it, whether one starts there or not. -/
theorem lineOf_eq_countP (table : LineTable) (offset : Nat) :
    table.lineOf offset = table.starts.toList.countP (· ≤ offset) := by
  have before : ∀ other ∈ table.starts.toList.take 0, other < offset := List.forall_mem_nil _
  have behind : ∀ other ∈ table.starts.toList.drop table.starts.size, offset < other := by
    rw [← Array.length_toList, List.drop_length]
    exact List.forall_mem_nil _
  have fits := search_fits table.ascending (Nat.le_refl _) (Nat.zero_le _) before behind
  unfold lineOf
  split
  · next index found =>
    rw [found] at fits
    obtain ⟨bound, here⟩ := List.getElem?_eq_some_iff.mp fits
    obtain ⟨before, behind⟩ := ascending_at table.ascending bound
    rw [here] at before behind
    refine (countP_le_of_split bound ?_ behind).symm
    rw [List.take_succ_eq_append_getElem bound, here]
    intro other member
    rcases List.mem_append.mp member with earlier | same
    · exact Nat.le_of_lt (before other earlier)
    · exact Nat.le_of_eq (List.mem_singleton.mp same)
  · next index missed =>
    rw [missed] at fits
    obtain ⟨bound, before, behind⟩ := fits
    exact (countP_le_of_split bound (fun other member => Nat.le_of_lt (before other member)) behind).symm

/-- The line of an offset is one more than the number of line feeds before it, also behind the end of the text. -/
theorem lineOf_ofText (text : List Char) (offset : Nat) :
    (ofText text).lineOf offset = 1 + ((utf8 text).take offset).count 10 := by
  have later := countP_laterStarts 0 offset text
  rw [Nat.zero_add] at later
  rw [lineOf_eq_countP, ofText, List.countP_cons_of_pos (by simp), later, Nat.add_comm]

/-- The line of the place behind `front` is one more than the number of line feeds in `front`. -/
theorem lineOf_ofText_append (front rest : List Char) :
    (ofText (front ++ rest)).lineOf (byteLength front) = 1 + front.count '\n' := by
  rw [lineOf_ofText, utf8_append, ← length_utf8, List.take_left, count_utf8]

theorem lineCount_ofText (text : List Char) : (ofText text).lineCount = 1 + text.count '\n' := by
  have size : (ofText text).lineCount = (laterStarts 0 text).length + 1 := rfl
  rw [size, length_laterStarts, Nat.add_comm]

theorem lineOf_mono (table : LineTable) {offset later : Nat} (behind : offset ≤ later) :
    table.lineOf offset ≤ table.lineOf later := by
  rw [lineOf_eq_countP, lineOf_eq_countP]
  apply List.countP_mono_left
  intro start _ reached
  exact decide_eq_true (Nat.le_trans (of_decide_eq_true reached) behind)

theorem lineOf_le_lineCount (table : LineTable) (offset : Nat) : table.lineOf offset ≤ table.lineCount := by
  rw [lineOf_eq_countP]
  exact List.countP_le_length

theorem one_le_lineOf_ofText (text : List Char) (offset : Nat) : 1 ≤ (ofText text).lineOf offset := by
  rw [lineOf_ofText]
  exact Nat.le_add_right 1 _

/-- The line of a byte offset is one more than the number of line feeds among the bytes before it. So an offset behind
the text is on the last line, every offset is on one of the lines, and a later offset is on no earlier line. -/
theorem lineOf_eq_count_feeds (content : String) :
    let table : LineTable := ofText content.toList
    let bytes := content.toUTF8.data.toList
    (table.starts.toList.head? = some 0 ∧ table.starts.toList.Pairwise (· < ·)) ∧
      table.lineCount = 1 + bytes.count 10 ∧
      (∀ offset, table.lineOf offset = 1 + (bytes.take offset).count 10) ∧
      (∀ excess, table.lineOf (bytes.length + excess) = table.lineCount) ∧
      (∀ offset, 1 ≤ table.lineOf offset ∧ table.lineOf offset ≤ table.lineCount) ∧
      Monotone table.lineOf := by
  intro table bytes
  have encoded : bytes = utf8 content.toList := data_toUTF8 content
  have line (offset : Nat) : table.lineOf offset = 1 + (bytes.take offset).count 10 := by
    rw [encoded]
    exact lineOf_ofText content.toList offset
  have count : table.lineCount = 1 + bytes.count 10 := by
    rw [encoded, count_utf8]
    exact lineCount_ofText content.toList
  refine ⟨⟨rfl, table.ascending⟩, count, line, ?_, ?_, fun _ _ behind => table.lineOf_mono behind⟩
  · intro excess
    rw [line, count, List.take_of_length_le (Nat.le_add_right ..)]
  · intro offset
    exact ⟨one_le_lineOf_ofText content.toList offset, table.lineOf_le_lineCount offset⟩

end LineTable

theorem count_dropByteOrderMark (text : List Char) : (dropByteOrderMark text).count '\n' = text.count '\n' := by
  cases text with
  | nil => rfl
  | cons c rest =>
    rw [dropByteOrderMark]
    split_ifs with mark
    · have other : c ≠ '\n' := by
        rw [mark]
        decide
      rw [List.count_cons_of_ne other]
    · rfl

end TextHarvest.Text
