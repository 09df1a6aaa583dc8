import Mathlib.Data.List.Infix
import Mathlib.Data.List.TakeWhile
import TextHarvest.Xaml.Markup

/-! # What a markup extension gives

`Gives` says, apart from the search for it, which text the characters behind an opening quote give, and
`captureQuoted?_eq_some_iff` that the search finds this text and no other. From there the two main results go opposite
ways. A well-spelled extension gives the text that is written in it (`capture?_spelling`). And what is captured comes
from an extension in the value, whose argument ends at the first quote with a brace: the captured text is this argument,
unless it has no double slash and one follows in the line; then the context runs past the end (`capture?_argument`,
`capture?_past_argument`).
-/

namespace TextHarvest.Xaml

/-! ## Marks in a text -/

/-- Where a mark stands in a text, it stands on one side of any character that it does not have. -/
theorem occurs_beside {mark front rest before behind : List Char} {c : Char} (nonempty : mark ≠ []) (foreign : c ∉ mark)
    (same : front ++ c :: rest = before ++ mark ++ behind) :
    (∃ between, front = before ++ mark ++ between ∧ behind = between ++ c :: rest) ∨
      ∃ between, before = front ++ c :: between ∧ rest = between ++ mark ++ behind := by
  rw [List.append_assoc] at same
  rcases List.append_eq_append_iff.mp same with ⟨inner, rfl, later⟩ | ⟨inner, rfl, later⟩
  · cases inner with
    | nil =>
      obtain ⟨m, mark, rfl⟩ := List.exists_cons_of_ne_nil nonempty
      cases later
      exact absurd List.mem_cons_self foreign
    | cons d between =>
      cases later
      exact .inr ⟨between, rfl, (List.append_assoc ..).symm⟩
  · rcases List.append_eq_append_iff.mp later with ⟨between, rfl, left⟩ | ⟨cut, rfl, left⟩
    · exact .inl ⟨between, by rw [List.append_assoc], left⟩
    · cases cut with
      | nil => exact .inl ⟨[], by simp, by simpa using left.symm⟩
      | cons d cut =>
        cases left
        exact absurd (List.mem_append_right _ List.mem_cons_self) foreign

private theorem infix_append_cons_iff {mark front rest : List Char} {c : Char} (nonempty : mark ≠ [])
    (foreign : c ∉ mark) : mark <:+: front ++ c :: rest ↔ mark <:+: front ∨ mark <:+: rest := by
  constructor
  · rintro ⟨before, behind, same⟩
    rcases occurs_beside nonempty foreign same.symm with ⟨between, rfl, _⟩ | ⟨between, _, rfl⟩
    · exact .inl ⟨before, between, rfl⟩
    · exact .inr ⟨between, behind, rfl⟩
  · rintro (inside | inside)
    · exact inside.trans (List.infix_append' [] front (c :: rest))
    · exact inside.trans ((List.suffix_cons c rest).trans (List.suffix_append front _)).isInfix

/-- A mark that opens a text with more in front of it does so without its last character. -/
theorem prefix_append_dropLast {mark front behind : List Char} (given : front ≠ [])
    (opens : mark <+: front ++ mark ++ behind) : mark <+: front ++ mark.dropLast := by
  have part : front ++ mark.dropLast <+: front ++ mark ++ behind := by
    rw [List.append_assoc, List.prefix_append_right_inj]
    exact (List.dropLast_prefix mark).trans (List.prefix_append mark behind)
  have room := List.length_pos_iff.mpr given
  refine List.prefix_of_prefix_length_le opens part ?_
  rw [List.length_append, List.length_dropLast]
  omega

private theorem not_infix_dropLast {mark : List Char} (nonempty : mark ≠ []) : ¬ mark <:+: mark.dropLast := by
  intro inside
  have room := List.length_pos_iff.mpr nonempty
  have short := inside.length_le
  rw [List.length_dropLast] at short
  omega

/-- A text is split at a mark that stands in its first line and does not begin earlier. -/
theorem splitInLine?_eq_some_iff {mark text before behind : List Char} (nonempty : mark ≠ []) :
    splitInLine? mark text = some (before, behind) ↔
      text = before ++ mark ++ behind ∧ '\n' ∉ before ∧ ¬ mark <:+: before ++ mark.dropLast := by
  induction text generalizing before with
  | nil => simp [splitInLine?, nonempty]
  | cons c text ih =>
    rw [splitInLine?]
    cases found : mark.isPrefixOf? (c :: text) with
    | some rest =>
      have whole := List.append_eq_of_isPrefixOf?_eq_some found
      constructor
      · intro split
        cases split
        exact ⟨whole.symm, List.not_mem_nil, not_infix_dropLast nonempty⟩
      · rintro ⟨same, _, first⟩
        cases before with
        | nil =>
          rw [List.nil_append, ← whole, List.append_cancel_left_eq] at same
          rw [same]
        | cons d before =>
          have opens : mark <+: d :: before ++ mark ++ behind := same ▸ ⟨rest, whole⟩
          exact absurd (prefix_append_dropLast (List.cons_ne_nil d before) opens).isInfix first
    | none =>
      have closed : ¬ mark <+: c :: text := by
        rintro ⟨rest, whole⟩
        rw [List.isPrefixOf?_eq_some_iff_append_eq.mpr whole] at found
        cases found
      constructor
      · intro split
        split_ifs at split with feed
        obtain ⟨⟨inner, rest⟩, later, same⟩ := Option.map_eq_some_iff.mp split
        cases same
        obtain ⟨rfl, line, first⟩ := ih.mp later
        refine ⟨rfl, by simp [line, Ne.symm feed], ?_⟩
        rw [List.cons_append, List.infix_cons_iff]
        rintro (opens | inside)
        · refine closed (opens.trans (List.cons_prefix_cons.mpr ⟨rfl, ?_⟩))
          rw [List.append_assoc, List.prefix_append_right_inj]
          exact (List.dropLast_prefix mark).trans (List.prefix_append mark behind)
        · exact first inside
      · rintro ⟨same, line, first⟩
        cases before with
        | nil => exact absurd ⟨behind, same.symm⟩ closed
        | cons d before =>
          cases same
          obtain ⟨no_feed, line⟩ := List.ne_and_not_mem_of_not_mem_cons line
          have later := ih.mpr ⟨rfl, line, fun inside => first (List.infix_cons inside)⟩
          rw [if_neg (Ne.symm no_feed), later, Option.map_some]

/-- A mark in the first line of a text is found there or earlier. -/
theorem exists_splitInLine? {mark before : List Char} (nonempty : mark ≠ []) (flat : '\n' ∉ mark) (line : '\n' ∉ before)
    (behind : List Char) :
    ∃ first more, splitInLine? mark (before ++ mark ++ behind) = some (first, more ++ behind) ∧ '\n' ∉ more := by
  induction before with
  | nil =>
    refine ⟨[], [], ?_, List.not_mem_nil⟩
    exact (splitInLine?_eq_some_iff nonempty).mpr ⟨rfl, List.not_mem_nil, not_infix_dropLast nonempty⟩
  | cons c before ih =>
    obtain ⟨no_feed, line⟩ := List.ne_and_not_mem_of_not_mem_cons line
    rw [List.cons_append, List.cons_append, splitInLine?]
    cases found : mark.isPrefixOf? (c :: (before ++ mark ++ behind)) with
    | some rest =>
      have whole : mark ++ rest = c :: before ++ mark ++ behind := List.append_eq_of_isPrefixOf?_eq_some found
      rcases List.append_eq_append_iff.mp whole with ⟨more, same, rfl⟩ | ⟨excess, same, _⟩
      · refine ⟨[], more, rfl, ?_⟩
        intro inside
        have origin : '\n' ∈ c :: before ++ mark := same ▸ List.mem_append_right _ inside
        simp [no_feed, line, flat] at origin
      · have longer := congrArg List.length same
        simp only [List.length_append, List.length_cons] at longer
        omega
    | none =>
      obtain ⟨first, more, later, unbroken⟩ := ih line
      refine ⟨c :: first, more, ?_, unbroken⟩
      rw [if_neg (Ne.symm no_feed), later, Option.map_some]

/-! ## Behind the opening quote -/

private theorem infix_closing_iff (text : List Char) : closing <:+: text ++ closing.dropLast ↔ closing <:+: text := by
  change closing <:+: text ++ ['\''] ↔ _
  rw [List.infix_concat_iff]
  refine or_iff_right ?_
  rintro ⟨front, same⟩
  have last := congrArg List.getLast? same
  simp [closing] at last

private theorem splitInLine?_contextMark_iff {text context behind : List Char} :
    splitInLine? contextMark text = some (context, behind) ↔
      text = context ++ contextMark ++ behind ∧ '\n' ∉ context ∧ ¬ contextMark <:+: context ++ ['/'] :=
  splitInLine?_eq_some_iff (by decide)

theorem splitInLine?_closing_iff {text id behind : List Char} :
    splitInLine? closing text = some (id, behind) ↔
      text = id ++ closing ++ behind ∧ '\n' ∉ id ∧ ¬ closing <:+: id := by
  rw [splitInLine?_eq_some_iff (by decide), infix_closing_iff]

/-- The first line of a text has a double slash and, later, a quote with a brace. -/
def RunsOn (text : List Char) : Prop :=
  ∃ between id rest, text = between ++ contextMark ++ (id ++ closing ++ rest) ∧ '\n' ∉ between ∧ '\n' ∉ id

theorem runsOn_iff {text : List Char} :
    RunsOn text ↔ ∃ context behind, splitInLine? contextMark text = some (context, behind) ∧
      ∃ id rest, splitInLine? closing behind = some (id, rest) := by
  constructor
  · rintro ⟨between, id, rest, rfl, before, inside⟩
    obtain ⟨context, more, split, unbroken⟩ :=
      exists_splitInLine? (by decide : contextMark ≠ []) (by decide) before (id ++ closing ++ rest)
    have line : '\n' ∉ more ++ id := by simp [unbroken, inside]
    obtain ⟨first, behind, closed, _⟩ := exists_splitInLine? (by decide : closing ≠ []) (by decide) line rest
    refine ⟨context, _, split, first, behind ++ rest, ?_⟩
    rw [← closed]
    simp only [List.append_assoc]
  · rintro ⟨context, behind, split, id, rest, closed⟩
    obtain ⟨rfl, before, _⟩ := splitInLine?_contextMark_iff.mp split
    obtain ⟨rfl, inside, _⟩ := splitInLine?_closing_iff.mp closed
    exact ⟨context, id, rest, rfl, before, inside⟩

instance (text : List Char) : Decidable (RunsOn text) :=
  decidable_of_iff (((splitInLine? contextMark text).bind fun split => splitInLine? closing split.2).isSome = true) (by
    simp only [runsOn_iff, Option.isSome_iff_exists, Option.bind_eq_some_iff, Prod.exists]
    constructor
    · rintro ⟨id, rest, context, behind, split, closed⟩
      exact ⟨context, behind, split, id, rest, closed⟩
    · rintro ⟨context, behind, split, id, rest, closed⟩
      exact ⟨id, rest, context, behind, split, closed⟩)

private theorem runsOn_append_closing {argument : List Char} (line : '\n' ∉ argument) (behind : List Char) :
    RunsOn (argument ++ closing ++ behind) ↔ contextMark <:+: argument ∨ RunsOn behind := by
  constructor
  · rintro ⟨between, id, rest, same, before, inside⟩
    have quote : argument ++ '\'' :: '\x7d' :: behind = between ++ contextMark ++ (id ++ closing ++ rest) := by
      simpa [closing] using same
    rcases occurs_beside (by decide) (by decide) quote with ⟨more, rfl, _⟩ | ⟨more, rfl, later⟩
    · exact .inl ⟨between, more, rfl⟩
    · have brace : [] ++ '\x7d' :: behind = more ++ contextMark ++ (id ++ closing ++ rest) := later
      rcases occurs_beside (by decide) (by decide) brace with ⟨none, empty, _⟩ | ⟨start, rfl, rfl⟩
      · simp [contextMark] at empty
      · refine .inr ⟨start, id, rest, rfl, ?_, inside⟩
        intro feed
        exact before (by simp [feed])
  · rintro (⟨context, id, rfl⟩ | ⟨between, id, rest, rfl, before, inside⟩)
    · simp only [List.mem_append, not_or] at line
      exact ⟨context, id, behind, by simp only [List.append_assoc], line.1.1, line.2⟩
    · refine ⟨argument ++ closing ++ between, id, rest, by simp only [List.append_assoc], ?_, inside⟩
      simp [line, before, closing]

theorem captureQuoted?_eq (text : List Char) :
    captureQuoted? text =
      ((splitInLine? contextMark text).bind fun split =>
        ((splitInLine? closing split.2).map Prod.fst).map (Captured.mk (some split.1))).or
      (((splitInLine? closing text).map Prod.fst).map (Captured.mk none)) := by
  rw [captureQuoted?]
  cases splitInLine? contextMark text with
  | none => cases splitInLine? closing text <;> rfl
  | some split =>
    obtain ⟨context, behind⟩ := split
    cases inside : splitInLine? closing behind <;> cases splitInLine? closing text <;> simp [inside]

/-- What stands behind an opening quote gives a text, with a context or without: up to the first double slash and from
there to the closing quote and brace, or up to these where no double slash comes before any of them. -/
inductive Gives : List Char → Captured → Prop
  | both {context id : List Char} (behind : List Char) (before : '\n' ∉ context)
      (first : ¬ contextMark <:+: context ++ ['/']) (inside : '\n' ∉ id) (whole : ¬ closing <:+: id) :
      Gives (context ++ contextMark ++ (id ++ closing ++ behind)) ⟨some context, id⟩
  | plain {id behind : List Char} (inside : '\n' ∉ id) (whole : ¬ closing <:+: id) (bare : ¬ contextMark <:+: id)
      (ends : ¬ RunsOn behind) : Gives (id ++ closing ++ behind) ⟨none, id⟩

theorem captureQuoted?_of_runsOn {text context behind id rest : List Char}
    (split : splitInLine? contextMark text = some (context, behind))
    (closed : splitInLine? closing behind = some (id, rest)) : captureQuoted? text = some ⟨some context, id⟩ := by
  simp [captureQuoted?_eq, split, closed]

theorem captureQuoted?_of_not_runsOn {text : List Char} (ends : ¬ RunsOn text) :
    captureQuoted? text = (splitInLine? closing text).map fun split => ⟨none, split.1⟩ := by
  have noContext : ((splitInLine? contextMark text).bind fun split =>
      ((splitInLine? closing split.2).map Prod.fst).map (Captured.mk (some split.1))) = none := by
    cases split : splitInLine? contextMark text with
    | none => rfl
    | some context =>
      cases closed : splitInLine? closing context.2 with
      | none => simp [closed]
      | some id => exact absurd (runsOn_iff.mpr ⟨_, _, split, _, _, closed⟩) ends
  rw [captureQuoted?_eq, noContext, Option.none_or, Option.map_map]
  rfl

theorem captureQuoted?_eq_some_iff {text : List Char} {found : Captured} :
    captureQuoted? text = some found ↔ Gives text found := by
  constructor
  · intro captured
    by_cases runsOn : RunsOn text
    · obtain ⟨context, behind, split, id, rest, closed⟩ := runsOn_iff.mp runsOn
      rw [captureQuoted?_of_runsOn split closed] at captured
      cases captured
      obtain ⟨rfl, before, first⟩ := splitInLine?_contextMark_iff.mp split
      obtain ⟨rfl, inside, whole⟩ := splitInLine?_closing_iff.mp closed
      exact .both rest before first inside whole
    · rw [captureQuoted?_of_not_runsOn runsOn] at captured
      obtain ⟨⟨id, behind⟩, closed, rfl⟩ := Option.map_eq_some_iff.mp captured
      obtain ⟨rfl, inside, whole⟩ := splitInLine?_closing_iff.mp closed
      obtain ⟨bare, ends⟩ := not_or.mp (mt (runsOn_append_closing inside behind).mpr runsOn)
      exact .plain inside whole bare ends
  · intro gives
    cases gives with
    | both behind before first inside whole =>
      exact captureQuoted?_of_runsOn (splitInLine?_contextMark_iff.mpr ⟨rfl, before, first⟩)
        (splitInLine?_closing_iff.mpr ⟨rfl, inside, whole⟩)
    | @plain id behind inside whole bare ends =>
      have noContext : ¬ RunsOn (id ++ closing ++ behind) := by
        rw [runsOn_append_closing inside]
        exact not_or.mpr ⟨bare, ends⟩
      rw [captureQuoted?_of_not_runsOn noContext, splitInLine?_closing_iff.mpr ⟨rfl, inside, whole⟩]
      rfl

theorem captureMarked?_eq (marker text : List Char) :
    captureMarked? marker text =
      (marker.isPrefixOf? text).bind fun behind =>
        if behind.head? = some ' ' ∧ (behind.dropWhile (· = ' ')).head? = some '\'' then
          captureQuoted? (behind.dropWhile (· = ' ')).tail
        else none := by
  rw [captureMarked?]
  split
  · next behind found =>
    have spaces : (' ' :: behind).dropWhile (· = ' ') = behind.dropWhile (· = ' ') := by simp
    rw [found, Option.bind_some, spaces]
    split
    · next quoted opened => simp [opened]
    · next other =>
      have unquoted : (behind.dropWhile (· = ' ')).head? ≠ some '\'' := by
        intro quote
        obtain ⟨quoted, opened⟩ := List.head?_eq_some_iff.mp quote
        exact other quoted opened
      rw [if_neg fun both => unquoted both.2]
  · next other =>
    cases found : marker.isPrefixOf? text with
    | none => rfl
    | some behind =>
      have no_space : behind.head? ≠ some ' ' := by
        intro space
        obtain ⟨rest, rfl⟩ := List.head?_eq_some_iff.mp space
        exact other rest found
      rw [Option.bind_some, if_neg fun both => no_space both.1]

/-! ## Extensions in a value -/

/-- A value with a markup extension: a brace, a name, the marker behind a colon, spaces, and a quote with `quoted`
behind it. -/
def spelling (front name marker : List Char) (spaces : Nat) (quoted : List Char) : List Char :=
  front ++ '\x7b' :: (name ++ ':' :: (marker ++ (List.replicate spaces ' ' ++ '\'' :: quoted)))

private theorem captureMarked?_eq_some_iff {marker text : List Char} {found : Captured} :
    captureMarked? marker text = some found ↔
      ∃ spaces quoted, 0 < spaces ∧ text = marker ++ (List.replicate spaces ' ' ++ '\'' :: quoted) ∧
        Gives quoted found := by
  rw [captureMarked?_eq, Option.bind_eq_some_iff]
  constructor
  · rintro ⟨behind, opened, captured⟩
    split_ifs at captured with both
    obtain ⟨rest, rfl⟩ := List.head?_eq_some_iff.mp both.1
    obtain ⟨quoted, quote⟩ := List.head?_eq_some_iff.mp both.2
    rw [quote, List.tail_cons, captureQuoted?_eq_some_iff] at captured
    have blank : (' ' :: rest).takeWhile (· = ' ') =
        List.replicate ((' ' :: rest).takeWhile (· = ' ')).length ' ' := by
      rw [List.eq_replicate_iff]
      exact ⟨rfl, fun c member => by simpa using List.mem_takeWhile_imp member⟩
    refine ⟨((' ' :: rest).takeWhile (· = ' ')).length, quoted, by simp, ?_, captured⟩
    rw [← blank, ← quote, List.takeWhile_append_dropWhile]
    exact (List.append_eq_of_isPrefixOf?_eq_some opened).symm
  · rintro ⟨spaces, quoted, spaced, rfl, gives⟩
    have opened : (List.replicate spaces ' ' ++ '\'' :: quoted).dropWhile (· = ' ') = '\'' :: quoted := by
      rw [List.dropWhile_append_of_pos (by simp), List.dropWhile_cons_of_neg (by decide)]
    have space : (List.replicate spaces ' ' ++ '\'' :: quoted).head? = some ' ' := by
      obtain ⟨count, rfl⟩ := Nat.exists_eq_add_one_of_ne_zero spaced.ne'
      rfl
    refine ⟨_, List.isPrefixOf?_eq_some_iff_append_eq.mpr rfl, ?_⟩
    rw [opened, if_pos ⟨space, rfl⟩, List.tail_cons, captureQuoted?_eq_some_iff]
    exact gives

private theorem exists_of_captureBehindBrace? {marker text : List Char} {started : Bool} {found : Captured}
    (captured : captureBehindBrace? marker started text = some found) :
    ∃ name rest, text = name ++ ':' :: rest ∧ (started = false → name ≠ []) ∧
      (∀ c ∈ name, Text.isBlank c = false) ∧ captureMarked? marker rest = some found := by
  induction text generalizing started with
  | nil => cases captured
  | cons c text ih =>
    rw [captureBehindBrace?, Option.orElse_eq_orElse, Option.orElse_eq_or, Option.or_eq_some_iff] at captured
    rcases captured with later | ⟨_, here⟩
    · split_ifs at later with blank
      obtain ⟨name, rest, rfl, _, solid, marked⟩ := ih later
      exact ⟨c :: name, rest, rfl, by simp, by simpa [blank] using solid, marked⟩
    · split_ifs at here with colon
      obtain ⟨ready, rfl⟩ := colon
      exact ⟨[], text, rfl, by simp [ready], by simp, here⟩

/-- No colon inside a marker without spaces makes an extension: behind it too little is left before the space. -/
theorem captureBehindBrace?_inside_marker {marker tail : List Char} (apart : ' ' ∉ marker)
    (short : tail.length ≤ marker.length) (started : Bool) (rest : List Char) :
    captureBehindBrace? marker started (tail ++ ' ' :: rest) = none := by
  induction tail generalizing started with
  | nil =>
    have blank : Text.isBlank ' ' = true := by decide
    simp [captureBehindBrace?, blank]
  | cons c tail ih =>
    have unmarked : captureMarked? marker (tail ++ ' ' :: rest) = none := by
      rw [Option.eq_none_iff_forall_ne_some]
      intro found marked
      obtain ⟨spaces, quoted, _, same, _⟩ := captureMarked?_eq_some_iff.mp marked
      rw [List.length_cons] at short
      rcases List.append_eq_append_iff.mp same with ⟨excess, rfl, left⟩ | ⟨excess, rfl, _⟩
      · cases excess with
        | nil =>
          rw [List.append_nil] at short
          omega
        | cons d excess =>
          cases left
          simp at apart
      · rw [List.length_append] at short
        omega
    have onward := ih (Nat.le_of_succ_le short) true
    rw [List.cons_append, captureBehindBrace?, onward, unmarked]
    simp

private theorem captureBehindBrace?_spelling {marker name quoted : List Char} {spaces : Nat} {found : Captured}
    (apart : ' ' ∉ marker) (solid : ∀ c ∈ name, Text.isBlank c = false) (spaced : 0 < spaces)
    (gives : Gives quoted found) {started : Bool} (named : started = true ∨ name ≠ []) :
    captureBehindBrace? marker started
      (name ++ ':' :: (marker ++ (List.replicate spaces ' ' ++ '\'' :: quoted))) = some found := by
  induction name generalizing started with
  | nil =>
    obtain rfl : started = true := by simpa using named
    have marked : captureMarked? marker (marker ++ (List.replicate spaces ' ' ++ '\'' :: quoted)) = some found :=
      captureMarked?_eq_some_iff.mpr ⟨spaces, quoted, spaced, rfl, gives⟩
    obtain ⟨count, rfl⟩ := Nat.exists_eq_add_one_of_ne_zero spaced.ne'
    have last : captureBehindBrace? marker true (marker ++ (List.replicate (count + 1) ' ' ++ '\'' :: quoted)) = none :=
      captureBehindBrace?_inside_marker apart le_rfl true _
    rw [List.nil_append, captureBehindBrace?, last, marked]
    simp
  | cons c name ih =>
    obtain ⟨here, later⟩ := List.forall_mem_cons.mp solid
    rw [List.cons_append, captureBehindBrace?, ih later (.inl rfl), here]
    rfl

/-- A well-spelled extension is found. -/
theorem findExtension?_spelling {marker front name quoted : List Char} {spaces : Nat} {found : Captured}
    (apart : ' ' ∉ marker) (outside : '\x7b' ∉ front) (named : name ≠ []) (solid : ∀ c ∈ name, Text.isBlank c = false)
    (spaced : 0 < spaces) (gives : Gives quoted found) :
    findExtension? marker (spelling front name marker spaces quoted) = some found := by
  induction front with
  | nil =>
    have here := captureBehindBrace?_spelling apart solid spaced gives (.inr named : false = true ∨ _)
    rw [spelling, List.nil_append, findExtension?, if_pos rfl, here]
    rfl
  | cons c front ih =>
    obtain ⟨other, outside⟩ := List.ne_and_not_mem_of_not_mem_cons outside
    change findExtension? marker (c :: spelling front name marker spaces quoted) = _
    rw [findExtension?, if_neg (Ne.symm other), ih outside]
    rfl

private theorem exists_of_findExtension? {marker value : List Char} {found : Captured}
    (captured : findExtension? marker value = some found) :
    ∃ front name spaces quoted, value = spelling front name marker spaces quoted ∧ name ≠ [] ∧
      (∀ c ∈ name, Text.isBlank c = false) ∧ 0 < spaces ∧ Gives quoted found := by
  induction value with
  | nil => cases captured
  | cons c value ih =>
    rw [findExtension?, Option.orElse_eq_orElse, Option.orElse_eq_or, Option.or_eq_some_iff] at captured
    rcases captured with here | ⟨_, later⟩
    · split_ifs at here with brace
      obtain ⟨name, rest, rfl, named, solid, marked⟩ := exists_of_captureBehindBrace? here
      obtain ⟨spaces, quoted, spaced, rfl, gives⟩ := captureMarked?_eq_some_iff.mp marked
      exact ⟨[], name, spaces, quoted, by rw [brace]; rfl, named rfl, solid, spaced, gives⟩
    · obtain ⟨front, name, spaces, quoted, rfl, rest⟩ := ih later
      exact ⟨c :: front, name, spaces, quoted, rfl, rest⟩

theorem capture?_eq_some_iff {marker value : List Char} {found : Captured} :
    capture? marker value = some found ↔ findExtension? marker value = some found ∧ found.id ≠ [] := by
  unfold capture?
  cases findExtension? marker value with
  | none => simp
  | some own =>
    by_cases empty : own.id = []
    · simp only [empty, ↓reduceIte, reduceCtorEq, Option.some.injEq, ne_eq, false_iff, not_and]
      rintro rfl given
      exact given empty
    · simp only [empty, ↓reduceIte, Option.some.injEq, ne_eq, iff_self_and]
      rintro rfl
      exact empty

private theorem capture?_of_findExtension? {marker value : List Char} {found : Captured}
    (extension : findExtension? marker value = some found) :
    capture? marker value = if found.id = [] then none else some found := by
  rw [capture?, extension]

/-- The text of a well-spelled extension is captured, unless its id is empty: with the context before the first double
slash, whatever follows, or without a context, if no double slash with a quote and a brace behind it follows in the
line. The name may hold colons, braces and the marker, and so may what follows. -/
theorem capture?_spelling {marker front name : List Char} {spaces : Nat} (apart : ' ' ∉ marker)
    (outside : '\x7b' ∉ front) (named : name ≠ []) (solid : ∀ c ∈ name, Text.isBlank c = false) (spaced : 0 < spaces)
    (behind : List Char) :
    (∀ context id, '\n' ∉ context → ¬ contextMark <:+: context ++ ['/'] → '\n' ∉ id → ¬ closing <:+: id →
      capture? marker (spelling front name marker spaces (context ++ contextMark ++ (id ++ closing ++ behind))) =
        if id = [] then none else some ⟨some context, id⟩) ∧
    (¬ RunsOn behind → ∀ id, '\n' ∉ id → ¬ closing <:+: id → ¬ contextMark <:+: id →
      capture? marker (spelling front name marker spaces (id ++ closing ++ behind)) =
        if id = [] then none else some ⟨none, id⟩) := by
  constructor
  · intro context id before first inside whole
    have gives := Gives.both behind before first inside whole
    exact capture?_of_findExtension? (findExtension?_spelling apart outside named solid spaced gives)
  · intro ends id inside whole bare
    have gives := Gives.plain inside whole bare ends
    exact capture?_of_findExtension? (findExtension?_spelling apart outside named solid spaced gives)

/-- A marker and a name full of signs, a context with a quote and a brace in it, and an id with a double slash. -/
theorem capture?_spelling_signs :
    let marker := "a.b*:(".toList
    let name := "x:\x7ba.b*:(".toList
    (¬ RunsOn " // \n'\x7d".toList ∧ ' ' ∉ marker ∧ ∀ c ∈ name, Text.isBlank c = false) ∧
      capture? marker (spelling "go ".toList name marker 2
        ("menu'\x7d/x".toList ++ contextMark ++ ("Open//y'".toList ++ closing ++ " // \n'\x7d".toList))) =
          some ⟨some "menu'\x7d/x".toList, "Open//y'".toList⟩ ∧
      capture? marker (spelling "go ".toList name marker 2 ("Open / y'".toList ++ closing ++ " // \n'\x7d".toList)) =
        some ⟨none, "Open / y'".toList⟩ := by
  intro marker name
  have ends : ¬ RunsOn " // \n'\x7d".toList := by decide
  have apart : ' ' ∉ marker := by decide
  have solid : ∀ c ∈ name, Text.isBlank c = false := by
    simpa using (by decide : (name.all fun c => !Text.isBlank c) = true)
  obtain ⟨both, plain⟩ := capture?_spelling apart (by decide : '\x7b' ∉ "go ".toList) (by decide : name ≠ []) solid
    (by decide : 0 < 2) " // \n'\x7d".toList
  exact ⟨⟨ends, apart, solid⟩, both _ _ (by decide) (by decide) (by decide) (by decide),
    plain ends _ (by decide) (by decide) (by decide)⟩

/-! ## The end of an argument -/

private theorem exists_first_closing {text : List Char} (flat : '\n' ∉ text) (inside : closing <:+: text) :
    ∃ argument rest, text = argument ++ closing ++ rest ∧ '\n' ∉ argument ∧ ¬ closing <:+: argument := by
  obtain ⟨front, back, rfl⟩ := inside
  have line : '\n' ∉ front := fun feed => flat (by simp [feed])
  obtain ⟨argument, more, split, _⟩ := exists_splitInLine? (by decide : closing ≠ []) (by decide) line back
  exact ⟨argument, _, splitInLine?_closing_iff.mp split⟩

/-- A captured text as it is written between quotes. -/
def Captured.text (captured : Captured) : List Char :=
  match captured.context with
  | some context => context ++ contextMark ++ captured.id
  | none => captured.id

/-- What is captured behind a quote is the text up to the first quote with a brace, if this has a double slash or
nothing behind it makes a context. Otherwise the context goes on past it. -/
theorem Gives.exists_argument {quoted : List Char} {found : Captured} (gives : Gives quoted found) :
    ¬ closing <:+: found.id ∧ ∃ argument behind, quoted = argument ++ closing ++ behind ∧ '\n' ∉ argument ∧
      ¬ closing <:+: argument ∧
      ((∀ context, found.context = some context → ¬ closing <:+: context) ↔
        contextMark <:+: argument ∨ ¬ RunsOn behind) ∧
      (found.text = argument ↔ contextMark <:+: argument ∨ ¬ RunsOn behind) := by
  cases gives with
  | @both context id behind before first inside whole =>
    refine ⟨whole, ?_⟩
    by_cases crossed : closing <:+: context
    · obtain ⟨argument, rest, rfl, line, unbroken⟩ := exists_first_closing before crossed
      have bare : ¬ contextMark <:+: argument := by
        intro marked
        refine first (marked.trans ?_)
        rw [List.append_assoc, List.append_assoc]
        exact (List.prefix_append ..).isInfix
      have line_rest : '\n' ∉ rest := fun feed => before (List.mem_append_right _ feed)
      have past : ¬ (contextMark <:+: argument ∨ ¬ RunsOn (rest ++ contextMark ++ (id ++ closing ++ behind))) := by
        rintro (marked | ends)
        · exact bare marked
        · exact ends ⟨rest, id, behind, rfl, line_rest, inside⟩
      have held : ¬ ∀ own, some (argument ++ closing ++ rest) = some own → ¬ closing <:+: own :=
        fun clear => clear _ rfl crossed
      refine ⟨argument, _, ?_, line, unbroken, iff_of_false held past, iff_of_false ?_ past⟩
      · simp only [List.append_assoc]
      · intro same
        have longer := congrArg List.length same
        simp [Captured.text, contextMark, closing] at longer
    · have unbroken : ¬ closing <:+: context ++ contextMark ++ id := by
        rw [contextMark, List.append_assoc, List.cons_append, List.singleton_append,
          infix_append_cons_iff (by decide) (by decide), ← List.nil_append ('/' :: id),
          infix_append_cons_iff (by decide) (by decide)]
        simp [crossed, whole, (by decide : ¬ closing <:+: [])]
      have marked : contextMark <:+: context ++ contextMark ++ id := List.infix_append context contextMark id
      refine ⟨context ++ contextMark ++ id, behind, by simp only [List.append_assoc], ?_, unbroken, ?_, ?_⟩
      · simp [before, inside, contextMark]
      · refine iff_of_true ?_ (.inl marked)
        intro own same
        cases same
        exact crossed
      · exact iff_of_true rfl (.inl marked)
  | @plain id behind inside whole bare ends =>
    refine ⟨whole, id, behind, rfl, inside, whole, ?_, ?_⟩
    · refine iff_of_true ?_ (.inr ends)
      intro own same
      cases same
    · exact iff_of_true rfl (.inr ends)

/-- What is captured comes from an extension, whose argument ends at the first quote with a brace. The context goes past
this end just where the argument has no double slash and one follows in the line, with a quote and a brace behind it; in
all other cases the captured text is the argument. The id never holds a quote with a brace. -/
theorem capture?_argument {marker value : List Char} {found : Captured}
    (captured : capture? marker value = some found) :
    ¬ closing <:+: found.id ∧ ∃ front name spaces argument behind,
      value = spelling front name marker spaces (argument ++ closing ++ behind) ∧ name ≠ [] ∧
      (∀ c ∈ name, Text.isBlank c = false) ∧ 0 < spaces ∧ '\n' ∉ argument ∧ ¬ closing <:+: argument ∧
      ((∀ context, found.context = some context → ¬ closing <:+: context) ↔
        contextMark <:+: argument ∨ ¬ RunsOn behind) ∧
      (found.text = argument ↔ contextMark <:+: argument ∨ ¬ RunsOn behind) := by
  obtain ⟨extension, _⟩ := capture?_eq_some_iff.mp captured
  obtain ⟨front, name, spaces, quoted, rfl, named, solid, spaced, gives⟩ := exists_of_findExtension? extension
  obtain ⟨id, argument, behind, rfl, rest⟩ := gives.exists_argument
  exact ⟨id, front, name, spaces, argument, behind, rfl, named, solid, spaced, rest⟩

/-- Of two extensions in a value the first gives its argument. -/
theorem capture?_argument_first :
    capture? "Localize".toList "\x7bl:Localize 'a//Open'\x7d // \x7bl:Localize 'Close'\x7d".toList =
        some ⟨some "a".toList, "Open".toList⟩ ∧
      ¬ closing <:+: "Open".toList := by
  have captured : capture? "Localize".toList "\x7bl:Localize 'a//Open'\x7d // \x7bl:Localize 'Close'\x7d".toList =
      some ⟨some "a".toList, "Open".toList⟩ := by decide
  exact ⟨captured, (capture?_argument captured).1⟩

/-- A double slash between two extensions makes a context of the first and an id of the second. -/
theorem capture?_past_argument :
    capture? "Localize".toList "\x7bl:Localize 'Open'\x7d // \x7bl:Localize 'Close'\x7d".toList =
        some ⟨some "Open'\x7d ".toList, " \x7bl:Localize 'Close".toList⟩ ∧
      closing <:+: "Open'\x7d ".toList := by
  decide

end TextHarvest.Xaml
