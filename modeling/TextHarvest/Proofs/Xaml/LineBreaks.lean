import TextHarvest.Proofs.Xaml.Capture
import TextHarvest.Proofs.Xml.LineBreaks.Documents
import TextHarvest.Xaml.Extract

/-! # Line breaks in XAML sources

The records of a XAML source do not depend on how its lines end. A markup extension does not go over a line feed, so a
carriage return before it is never part of a record, and a marker without line breaks is found in both sources or in
none. `extract_widen` puts this together with the elements of the two documents.
-/

namespace TextHarvest.Xaml

open Text

/-! ## Marks in values -/

private theorem isPrefixOf?_widens {mark : List Char} (unbroken : Unbroken mark) {text wide : List Char}
    (widens : Widens text wide) :
    (mark.isPrefixOf? text = none ∧ mark.isPrefixOf? wide = none) ∨
      ∃ behind behind', mark.isPrefixOf? text = some behind ∧ mark.isPrefixOf? wide = some behind' ∧
        Widens behind behind' := by
  induction mark generalizing text wide with
  | nil => exact .inr ⟨text, wide, rfl, rfl, widens⟩
  | cons m mark ih =>
    obtain ⟨⟨no_return, no_feed⟩, others⟩ := unbroken_cons.mp unbroken
    cases widens with
    | nil => exact .inl ⟨rfl, rfl⟩
    | same c later =>
      by_cases matching : m = c
      · simpa [List.isPrefixOf?, matching] using ih others later
      · simp [List.isPrefixOf?, matching]
    | feed later => simp [List.isPrefixOf?, no_return, no_feed]

private theorem isPrefixOf?_feed {mark : List Char} (unbroken : Unbroken mark) (nonempty : mark ≠ [])
    (rest : List Char) : mark.isPrefixOf? ('\n' :: rest) = none := by
  cases mark with
  | nil => exact absurd rfl nonempty
  | cons m mark => simp [List.isPrefixOf?, (unbroken_cons.mp unbroken).1.2]

private theorem isPrefixOf_widens {mark : List Char} (unbroken : Unbroken mark) {text wide : List Char}
    (widens : Widens text wide) : mark.isPrefixOf wide = mark.isPrefixOf text := by
  rw [← List.isSome_isPrefixOf?_eq_isPrefixOf, ← List.isSome_isPrefixOf?_eq_isPrefixOf]
  rcases isPrefixOf?_widens unbroken widens with ⟨none, none'⟩ | ⟨_, _, found, found', _⟩
  · rw [none, none']
  · rw [found, found']
    rfl

private theorem occursIn_widens {mark : List Char} (unbroken : Unbroken mark) {text wide : List Char}
    (widens : Widens text wide) : occursIn mark wide = occursIn mark text := by
  induction widens with
  | nil => rfl
  | same c later ih => rw [occursIn, occursIn, isPrefixOf_widens unbroken (.same c later), ih]
  | @feed text wide later ih =>
    cases mark with
    | nil => rfl
    | cons m mark =>
      obtain ⟨⟨no_return, no_feed⟩, _⟩ := unbroken_cons.mp unbroken
      simp [occursIn, List.isPrefixOf_cons_cons, beq_false_of_ne no_return, beq_false_of_ne no_feed, ih]

/-- A mark is found behind the same text of the first line, which has no line break. -/
theorem splitInLine?_widens {mark : List Char} (unbroken : Unbroken mark) {text wide : List Char}
    (widens : Widens text wide) :
    (splitInLine? mark text = none ∧ splitInLine? mark wide = none) ∨
      ∃ before behind behind', splitInLine? mark text = some (before, behind) ∧
        splitInLine? mark wide = some (before, behind') ∧ Widens behind behind' := by
  induction widens with
  | nil => exact .inl ⟨rfl, rfl⟩
  | @same c text wide later ih =>
    rw [splitInLine?, splitInLine?]
    rcases isPrefixOf?_widens unbroken (.same c later) with ⟨none, none'⟩ | ⟨behind, behind', found, found', related⟩
    · rw [none, none']
      by_cases feed : c = '\n'
      · simp [feed]
      · rcases ih with ⟨none, none'⟩ | ⟨before, behind, behind', found, found', related⟩
        · simp [feed, none, none']
        · exact .inr ⟨c :: before, behind, behind', by simp [feed, found], by simp [feed, found'], related⟩
    · rw [found, found']
      exact .inr ⟨[], behind, behind', rfl, rfl, related⟩
  | @feed text wide later ih =>
    rw [splitInLine?, splitInLine?]
    rcases isPrefixOf?_widens unbroken (.feed later) with ⟨none, none'⟩ | ⟨behind, behind', found, found', related⟩
    · have nonempty : mark ≠ [] := by
        rintro rfl
        cases none
      rw [none, none', splitInLine?, isPrefixOf?_feed unbroken nonempty]
      exact .inl ⟨rfl, rfl⟩
    · rw [found, found']
      exact .inr ⟨[], behind, behind', rfl, rfl, related⟩

/-! ## Markup extensions -/

/-- What stands before the closing quote and brace is the same. -/
theorem splitInLine?_closing_widens {text wide : List Char} (widens : Widens text wide) :
    (splitInLine? closing wide).map Prod.fst = (splitInLine? closing text).map Prod.fst := by
  rcases splitInLine?_widens (by decide : Unbroken closing) widens with ⟨none, none'⟩ | ⟨_, _, _, found, found', _⟩
  · rw [none, none']
  · rw [found, found']
    rfl

private theorem captureQuoted?_widens {text wide : List Char} (widens : Widens text wide) :
    captureQuoted? wide = captureQuoted? text := by
  rw [captureQuoted?_eq, captureQuoted?_eq, splitInLine?_closing_widens widens]
  rcases splitInLine?_widens (by decide : Unbroken contextMark) widens with
    ⟨none, none'⟩ | ⟨context, behind, behind', found, found', related⟩
  · rw [none, none']
  · rw [found, found', Option.bind_some, Option.bind_some, splitInLine?_closing_widens related]

private theorem captureMarked?_widens {marker : List Char} (unbroken : Unbroken marker) {text wide : List Char}
    (widens : Widens text wide) : captureMarked? marker wide = captureMarked? marker text := by
  rw [captureMarked?_eq, captureMarked?_eq]
  rcases isPrefixOf?_widens unbroken widens with ⟨none, none'⟩ | ⟨behind, behind', found, found', related⟩
  · rw [none, none']
  · have opened : Widens (behind.dropWhile (· = ' ')) (behind'.dropWhile (· = ' ')) := related.dropWhile (by decide)
    have space := related.head? (by decide : ' ' ≠ '\r' ∧ ' ' ≠ '\n')
    have quote := opened.head? (by decide : '\'' ≠ '\r' ∧ '\'' ≠ '\n')
    simp only [found, found', Option.bind_some, space, quote]
    split_ifs with both
    · exact captureQuoted?_widens (opened.tail (by decide) both.2)
    · rfl

/-- What stands behind a brace goes up to the first blank, so it does not reach the end of the line. -/
theorem captureBehindBrace?_widens {marker : List Char} (unbroken : Unbroken marker) (started : Bool)
    {text wide : List Char} (widens : Widens text wide) :
    captureBehindBrace? marker started wide = captureBehindBrace? marker started text := by
  induction widens generalizing started with
  | nil => rfl
  | same c later ih => simp only [captureBehindBrace?, ih, captureMarked?_widens unbroken later]
  | feed later ih =>
    have blank : Text.isBlank '\r' = true ∧ Text.isBlank '\n' = true := by decide
    simp [captureBehindBrace?, blank]

private theorem findExtension?_widens {marker : List Char} (unbroken : Unbroken marker) {text wide : List Char}
    (widens : Widens text wide) : findExtension? marker wide = findExtension? marker text := by
  induction widens with
  | nil => rfl
  | same c later ih => simp only [findExtension?, ih, captureBehindBrace?_widens unbroken false later]
  | feed later ih => simpa [findExtension?] using ih

private theorem record?_widens {marker : String} (unbroken : Unbroken marker.toList) (path : String) (line : Nat)
    {value value' : String} (widens : Widens value.toList value'.toList) :
    record? marker path line value' = record? marker path line value := by
  simp only [record?, capture?, occursIn_widens unbroken widens, findExtension?_widens unbroken widens]

private theorem recordsOf_widens {marker : String} (unbroken : Unbroken marker.toList) (path : String)
    {elements elements' : List Xml.Element} (related : List.Forall₂ Xml.ElementWidens elements elements') :
    recordsOf marker path elements' = recordsOf marker path elements := by
  have values {line : Nat} {values values' : List String}
      (related : List.Forall₂ (fun value value' => Widens value.toList value'.toList) values values') :
      values'.filterMap (record? marker path line) = values.filterMap (record? marker path line) := by
    induction related with
    | nil => rfl
    | cons widens _ ih => rw [List.filterMap_cons, List.filterMap_cons, record?_widens unbroken path line widens, ih]
  induction related with
  | nil => rfl
  | cons here _ ih =>
    rw [recordsOf, List.flatMap_cons, here.line, values here.values]
    exact congrArg _ ih

/-! ## Sources -/

/-- The records of a source, or the fault in the shape of its document, are the same with every line feed written as a
carriage return and a line feed. -/
theorem extract_widen {marker : String} (unbroken : Unbroken marker.toList) (path : String) {source : String}
    (single : ¬ [byteOrderMark, byteOrderMark] <+: source.toList) :
    (∀ records, extract marker path source = .ok records ↔
        extract marker path (String.ofList (widen source.toList)) = .ok records) ∧
      ∀ line fault, extract marker path source = .error (.misshapen line fault) ↔
        extract marker path (String.ofList (widen source.toList)) = .error (.misshapen line fault) := by
  rw [extract, extract]
  rcases (Xml.elements_widen single).split with ⟨_, _, broken, broken', same⟩ | ⟨_, _, read, read', related⟩
  · rw [broken, broken']
    cases same with
    | malformed => simp
    | misshapen line fault => simp
  · rw [read, read']
    dsimp only
    rw [recordsOf_widens unbroken path related]
    simp

theorem extract_widen_panel :
    let panel := "<A\n B='\n\x7br:Localize &apos;menu//Open&apos;\x7d\n'>\n <C/></A\n>"
    let panels := "<A/>\n<A/>"
    Unbroken "Localize".toList ∧ ¬ [byteOrderMark, byteOrderMark] <+: panel.toList ∧
      ¬ [byteOrderMark, byteOrderMark] <+: panels.toList ∧
      extract "Localize" "Panel.xaml" (String.ofList (widen panel.toList)) =
        .ok [{ path := "Panel.xaml", line := 1, id := "Open", context := some "menu" }] ∧
      extract "Localize" "Panel.xaml" (String.ofList (widen panels.toList)) = .error (.misshapen 2 .severalRoots) := by
  refine ⟨by decide, by decide, by decide, ?_, ?_⟩
  · apply ((extract_widen (by decide) "Panel.xaml" (by decide)).1 _).mp
    decide +kernel
  · apply ((extract_widen (by decide) "Panel.xaml" (by decide)).2 _ _).mp
    decide +kernel

end TextHarvest.Xaml
