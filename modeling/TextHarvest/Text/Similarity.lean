/-! # Similar words

The Jaro similarity of two words, a fraction between 0 and 1: it counts the characters that both words have at nearly
the same place, and how many of them are out of order.
-/

namespace TextHarvest.Text

/-- Take the first character equal to `c` whose index lies between the bounds and that is not taken yet; `index` is
the index of the first character of the row. -/
def takeMatch? (c : Char) (low high : Nat) : Nat → List (Char × Bool) → Option (List (Char × Bool))
  | _, [] => none
  | index, (other, taken) :: rest =>
    if low ≤ index ∧ index < high ∧ other = c ∧ ¬ taken then some ((other, true) :: rest)
    else (takeMatch? c low high (index + 1) rest).map ((other, taken) :: ·)

/-- The characters of a word that match, in order, where `index` is the index of the first of them and places may
differ by `range`; and the other word with its matching characters marked. -/
def matchWord (range : Nat) : Nat → List Char → List (Char × Bool) → List Char × List (Char × Bool)
  | _, [], marked => ([], marked)
  | index, c :: rest, marked =>
    match takeMatch? c (index - range) (index + range + 1) 0 marked with
    | some marked =>
      let (matched, marked) := matchWord range (index + 1) rest marked
      (c :: matched, marked)
    | none => matchWord range (index + 1) rest marked

/-- The Jaro similarity of two words, as numerator and denominator. -/
def similarity (first second : List Char) : Nat × Nat :=
  let range := max first.length second.length / 2 - 1
  let (matched, marked) := matchWord range 0 first (second.map (·, false))
  let partners := (marked.filter Prod.snd).map Prod.fst
  let swaps := ((matched.zip partners).countP fun (a, b) => a ≠ b) / 2
  let count := matched.length
  if first = [] ∧ second = [] then (1, 1)
  else if count = 0 then (0, 1)
  else
    (count * count * second.length + count * count * first.length +
        (count - swaps) * first.length * second.length,
      3 * first.length * second.length * count)

/-- Are two words similar enough that one may have been meant by the other? More than seven tenths are. -/
def isSimilar (first second : String) : Bool :=
  let (numerator, denominator) := similarity first.toList second.toList
  7 * denominator < 10 * numerator

end TextHarvest.Text
