import TextHarvest.Proofs.Text.Lines
import TextHarvest.Proofs.Xml.SingleRoot

/-! # Elements come in the order of the document

The reader goes on behind every event that it delivers, so events stand at ascending positions, and the elements of a
document are on ascending lines (`ascend_elements`). A second byte-order mark, which the reader passes over and the line
table counts, moves all positions alike; no element leaves the lines of the text for it.
-/

namespace TextHarvest.Xml

/-- The events that are read from a position on stand there or behind it, each behind the one before. -/
theorem pairwise_of_readFrom {names : List (List Char)} {position : Nat} {text : List Char}
    {front : List (Nat × Event)} {ahead : Row} (read : readFrom names position text = Row.behind front ahead) :
    (∀ placed ∈ front, position ≤ placed.1) ∧ front.Pairwise (·.1 < ·.1) := by
  induction front generalizing names position text with
  | nil => exact ⟨List.forall_mem_nil _, .nil⟩
  | cons placed front ih =>
    obtain ⟨later, next, rest, _, goes_on, here, further⟩ := readFrom_eq_event read
    obtain ⟨behind, ordered⟩ := ih goes_on.symm
    have least : ∀ other ∈ front, placed.1 < other.1 := by
      intro other member
      have := behind other member
      omega
    refine ⟨?_, .cons least ordered⟩
    intro other member
    rcases List.mem_cons.mp member with rfl | inside
    · exact Nat.le_of_eq here.symm
    · have := least other inside
      omega

private theorem fst_of_tagOf? {placed : Nat × Event} {tag : Nat × List Char} (found : tagOf? placed = some tag) :
    tag.1 = placed.1 := by
  obtain ⟨position, event⟩ := placed
  cases event <;> cases found <;> rfl

theorem IsElementOf.line_eq {lines : Text.LineTable} {tag : Nat × List Char} {element : Element}
    (read : IsElementOf lines tag element) : element.line = lines.lineOf tag.1 := by
  unfold IsElementOf readElement at read
  split at read
  · cases read
    rfl
  · cases read

/-- The lines of the elements of a document ascend, and are lines of its text. -/
theorem ascend_elements {source : String} {found : List Element} (done : elements source = .ok found) :
    Text.Ascend 1 (1 + source.toList.count '\n') (found.map Element.line) := by
  have listed := (elements_eq_ok_iff.mp done).2.elements
  have lines : found.map Element.line =
      (tagsIn (rowOf source).events).map fun tag => (linesOf source).lineOf tag.1 := by
    rw [← List.forall₂_eq_eq_eq, List.forall₂_map_left_iff, List.forall₂_map_right_iff]
    exact (listed.imp fun _ _ read => read.line_eq).flip
  obtain ⟨last, row⟩ := (rowOf source).eq_behind
  have events := (pairwise_of_readFrom row).2
  rw [lines]
  refine ⟨?_, ?_, ?_⟩
  · rw [List.pairwise_map, tagsIn, List.pairwise_filterMap]
    refine events.imp ?_
    intro placed other before tag here next there
    rw [fst_of_tagOf? here, fst_of_tagOf? there]
    exact (linesOf source).lineOf_mono (Nat.le_of_lt before)
  · intro line member
    obtain ⟨tag, _, rfl⟩ := List.mem_map.mp member
    exact Text.LineTable.one_le_lineOf_ofText _ _
  · intro line member
    obtain ⟨tag, _, rfl⟩ := List.mem_map.mp member
    rw [← Text.count_dropByteOrderMark, ← Text.LineTable.lineCount_ofText]
    exact Text.LineTable.lineOf_le_lineCount _ _

end TextHarvest.Xml
