import Mathlib.Data.List.Basic
import TextHarvest.Text.Blank

/-! # Pieces of texts

What trimming and splitting leave of a text, and the lines that come back when a text of lines is split.
-/

namespace TextHarvest.Text

/-- Trimming keeps a piece of the text. -/
theorem trimBy_sublist (drop : Char → Bool) (text : List Char) : (trimBy drop text).Sublist text := by
  have back : (trimBy drop text).Sublist (text.dropWhile drop) := by
    simpa [trimBy] using (List.dropWhile_sublist drop (l := (text.dropWhile drop).reverse)).reverse
  exact back.trans (List.dropWhile_sublist drop)

theorem drop_length_takeWhile (keep : Char → Bool) (text : List Char) :
    text.drop (text.takeWhile keep).length = text.dropWhile keep := by
  conv_lhs => arg 2; rw [← List.takeWhile_append_dropWhile (p := keep) (l := text)]
  exact List.drop_left

/-- No piece contains what the text was split at. -/
theorem not_mem_of_mem_splitOn {separator : Char} {text piece : List Char}
    (member : piece ∈ text.splitOn separator) : separator ∉ piece := by
  induction text generalizing piece with
  | nil =>
    rw [List.splitOn_nil, List.mem_singleton] at member
    simp [member]
  | cons c text ih =>
    rw [List.splitOn_cons_eq_if_modifyHead] at member
    split_ifs at member with same
    · rcases List.mem_cons.mp member with rfl | member
      · exact List.not_mem_nil
      · exact ih member
    · obtain ⟨first, others, pieces⟩ := List.exists_cons_of_ne_nil (List.splitOn_ne_nil separator text)
      rw [pieces, List.modifyHead_cons] at member
      rcases List.mem_cons.mp member with rfl | member
      · have later : separator ∉ first := ih (pieces ▸ List.mem_cons_self)
        simpa [eq_comm (a := separator), later] using same
      · exact ih (pieces ▸ List.mem_cons_of_mem _ member)

/-- What stands in front of a text without a separator goes to the first piece. -/
theorem splitOn_append_of_not_mem {separator : Char} {front : List Char} (free : separator ∉ front)
    (text : List Char) : (front ++ text).splitOn separator = (text.splitOn separator).modifyHead (front ++ ·) := by
  induction front with
  | nil =>
    obtain ⟨first, others, pieces⟩ := List.exists_cons_of_ne_nil (List.splitOn_ne_nil separator text)
    rw [List.nil_append, pieces, List.modifyHead_cons, List.nil_append]
  | cons c front ih =>
    obtain ⟨other, free⟩ := List.ne_and_not_mem_of_not_mem_cons free
    have here : ¬ (c == separator) = true := by simpa using other.symm
    rw [List.cons_append, List.splitOn_cons_eq_if_modifyHead, if_neg here, ih free, List.modifyHead_modifyHead]
    rfl

/-- Splitting at line feeds gives back lines that were each ended by one, with an empty piece behind the last. -/
theorem splitOn_ended (lines : List (List Char)) (closed : ∀ line ∈ lines, '\n' ∉ line) :
    (lines.flatMap (· ++ ['\n'])).splitOn '\n' = lines ++ [[]] := by
  induction lines with
  | nil => simp
  | cons line lines ih =>
    obtain ⟨here, later⟩ := List.forall_mem_cons.mp closed
    rw [List.flatMap_cons, List.append_assoc, List.singleton_append,
      List.splitOn_append_cons_self_of_not_mem here, ih later, List.cons_append]

/-- Splitting gives back blocks that each stand behind a separator of their own, behind a first block without one. -/
theorem splitOn_blocks {α : Type} [BEq α] [LawfulBEq α] {separator : α} {first : List α} {blocks : List (List α)}
    (free : separator ∉ first) (closed : ∀ block ∈ blocks, separator ∉ block) :
    (first ++ blocks.flatMap (separator :: ·)).splitOn separator = first :: blocks := by
  induction blocks generalizing first with
  | nil => rw [List.flatMap_nil, List.append_nil, List.splitOn_eq_singleton free]
  | cons block blocks ih =>
    obtain ⟨here, later⟩ := List.forall_mem_cons.mp closed
    rw [List.flatMap_cons, List.cons_append, List.splitOn_append_cons_self_of_not_mem free, ih here later]

end TextHarvest.Text
