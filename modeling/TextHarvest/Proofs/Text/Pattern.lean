import Mathlib.Data.List.Basic

/-! # Patterns and the order of their matches

A `Pattern` describes the front of a text, and `Pattern.ways` lists all ways to match it there, in the order in which a
search with backtracking comes to them. The first way counts, so the order is the meaning of greedy and lazy runs.
`Pattern.find?` is the first way at the first place where there is one. What a pattern `Requires` is in every match of
it, so a text without it need not be searched.
-/

namespace TextHarvest.Text

/-- A pattern for the front of a text. -/
inductive Pattern
  /-- The characters as they stand. -/
  | word (characters : List Char)
  /-- One character of a class. -/
  | one (accepts : Char → Bool)
  /-- A run of characters of a class, as long as possible. -/
  | longest (accepts : Char → Bool)
  /-- A run of characters of a class, as short as possible. -/
  | shortest (accepts : Char → Bool)
  | sequence (first second : Pattern)
  /-- The pattern if possible, else nothing. -/
  | optional (pattern : Pattern)
  /-- The pattern, whose text is kept under a number. -/
  | group (number : Nat) (pattern : Pattern)

/-- A way to match a pattern: the text it takes, the texts of its groups, and the rest. -/
structure Match where
  front : List Char
  groups : List (Nat × List Char)
  rest : List Char

def Match.join (first second : Match) : Match :=
  ⟨first.front ++ second.front, first.groups ++ second.groups, second.rest⟩

/-- The ways to cut a run of characters of a class off a text, the longest first. -/
def runs (accepts : Char → Bool) : List Char → List (List Char × List Char)
  | [] => [([], [])]
  | c :: rest =>
    (if accepts c then (runs accepts rest).map fun cut => (c :: cut.1, cut.2) else []) ++ [([], c :: rest)]

theorem mem_runs {accepts : Char → Bool} {text : List Char} {cut : List Char × List Char}
    (member : cut ∈ runs accepts text) : text = cut.1 ++ cut.2 ∧ ∀ c ∈ cut.1, accepts c = true := by
  induction text generalizing cut with
  | nil =>
    rw [runs, List.mem_singleton] at member
    simp [member]
  | cons c text ih =>
    rw [runs, List.mem_append, List.mem_singleton] at member
    rcases member with longer | rfl
    · split_ifs at longer with accepted
      · obtain ⟨inner, present, rfl⟩ := List.mem_map.mp longer
        obtain ⟨whole, all⟩ := ih present
        exact ⟨congrArg (c :: ·) whole, List.forall_mem_cons.mpr ⟨accepted, all⟩⟩
      · exact absurd longer List.not_mem_nil
    · exact ⟨rfl, List.forall_mem_nil _⟩

/-- What cannot go on with a character of the class goes on behind the longest run only. -/
theorem findSome?_runs {β : Type} {accepts : Char → Bool} {next : List Char → Option β}
    (stops : ∀ c rest, accepts c = true → next (c :: rest) = none) (text : List Char) :
    ((runs accepts text).findSome? fun cut => next cut.2) = next (text.dropWhile accepts) := by
  induction text with
  | nil => simp [runs]
  | cons c text ih =>
    rw [runs, List.findSome?_append]
    by_cases accepted : accepts c = true
    · have here := stops c text accepted
      rw [if_pos accepted, List.findSome?_map, List.dropWhile_cons_of_pos accepted, ← ih]
      simp [here, Function.comp_def]
    · simp [accepted]

namespace Pattern

/-- All ways to match a pattern at the front of a text, the preferred one first. -/
def ways : Pattern → List Char → List Match
  | word characters, text => (characters.isPrefixOf? text).toList.map fun rest => ⟨characters, [], rest⟩
  | one accepts, text => (text.head?.filter accepts).toList.map fun c => ⟨[c], [], text.tail⟩
  | longest accepts, text => (runs accepts text).map fun cut => ⟨cut.1, [], cut.2⟩
  | shortest accepts, text => (runs accepts text).reverse.map fun cut => ⟨cut.1, [], cut.2⟩
  | sequence first second, text => (first.ways text).flatMap fun found => (second.ways found.rest).map found.join
  | optional pattern, text => pattern.ways text ++ [⟨[], [], text⟩]
  | group number pattern, text =>
    (pattern.ways text).map fun found => { found with groups := (number, found.front) :: found.groups }

/-- The preferred match at the first place that has one. -/
def find? (pattern : Pattern) : List Char → Option Match
  | [] => (pattern.ways []).head?
  | c :: rest => (pattern.ways (c :: rest)).head?.or (find? pattern rest)

theorem head?_ways_sequence (first second : Pattern) (text : List Char) :
    ((sequence first second).ways text).head? =
      (first.ways text).findSome? fun found => (second.ways found.rest).head?.map found.join := by
  rw [ways, List.head?_flatMap]
  simp only [List.head?_map]

/-- A match and its rest make up the text. -/
theorem append_of_mem_ways {pattern : Pattern} {text : List Char} {found : Match} (member : found ∈ pattern.ways text) :
    found.front ++ found.rest = text := by
  induction pattern generalizing text found with
  | word characters =>
    obtain ⟨rest, opened, rfl⟩ := List.mem_map.mp member
    exact List.append_eq_of_isPrefixOf?_eq_some (Option.mem_toList.mp opened)
  | one accepts =>
    obtain ⟨c, first, rfl⟩ := List.mem_map.mp member
    obtain ⟨opened, _⟩ := Option.filter_eq_some_iff.mp (Option.mem_toList.mp first)
    obtain ⟨rest, rfl⟩ := List.head?_eq_some_iff.mp opened
    rfl
  | longest accepts =>
    obtain ⟨cut, cuts, rfl⟩ := List.mem_map.mp member
    exact (mem_runs cuts).1.symm
  | shortest accepts =>
    obtain ⟨cut, cuts, rfl⟩ := List.mem_map.mp member
    exact (mem_runs (List.mem_reverse.mp cuts)).1.symm
  | sequence first second firstIh secondIh =>
    obtain ⟨start, here, later⟩ := List.mem_flatMap.mp member
    obtain ⟨next, there, rfl⟩ := List.mem_map.mp later
    rw [← firstIh here, ← secondIh there]
    exact List.append_assoc ..
  | optional pattern ih =>
    rcases List.mem_append.mp member with taken | skipped
    · exact ih taken
    · rw [List.mem_singleton.mp skipped]
      rfl
  | group number pattern ih =>
    obtain ⟨inner, here, rfl⟩ := List.mem_map.mp member
    have whole := ih here
    exact whole

/-- A pattern asks for a text if one of its words has it, and this word cannot be left out. -/
def Requires (part : List Char) : Pattern → Prop
  | word characters => part <:+: characters
  | sequence first second => first.Requires part ∨ second.Requires part
  | group _ pattern => pattern.Requires part
  | one _ | longest _ | shortest _ | optional _ => False

/-- What a pattern asks for stands in every match. -/
theorem Requires.infix_front {part : List Char} {pattern : Pattern} (required : pattern.Requires part)
    {text : List Char} {found : Match} (member : found ∈ pattern.ways text) : part <:+: found.front := by
  induction pattern generalizing text found with
  | word characters =>
    obtain ⟨rest, _, rfl⟩ := List.mem_map.mp member
    exact required
  | sequence first second firstIh secondIh =>
    obtain ⟨start, here, later⟩ := List.mem_flatMap.mp member
    obtain ⟨next, there, rfl⟩ := List.mem_map.mp later
    rcases required with early | late
    · exact (firstIh early here).trans (List.prefix_append ..).isInfix
    · exact (secondIh late there).trans (List.suffix_append ..).isInfix
  | group number pattern ih =>
    obtain ⟨inner, here, rfl⟩ := List.mem_map.mp member
    have inside := ih required here
    exact inside
  | one | longest | shortest | optional => exact required.elim

theorem exists_of_find? {pattern : Pattern} {text : List Char} {found : Match}
    (search : pattern.find? text = some found) : ∃ place, place <:+ text ∧ found ∈ pattern.ways place := by
  induction text with
  | nil => exact ⟨[], List.suffix_rfl, List.mem_of_head? search⟩
  | cons c text ih =>
    rw [find?, Option.or_eq_some_iff] at search
    rcases search with here | ⟨_, later⟩
    · exact ⟨c :: text, List.suffix_rfl, List.mem_of_head? here⟩
    · obtain ⟨place, inside, member⟩ := ih later
      exact ⟨place, inside.trans (List.suffix_cons c text), member⟩

/-- The match that is found stands in the text. -/
theorem front_infix_of_find? {pattern : Pattern} {text : List Char} {found : Match}
    (search : pattern.find? text = some found) : found.front <:+: text := by
  obtain ⟨place, inside, member⟩ := exists_of_find? search
  have opens : found.front <+: place := ⟨found.rest, append_of_mem_ways member⟩
  exact opens.isInfix.trans inside.isInfix

end Pattern

end TextHarvest.Text
