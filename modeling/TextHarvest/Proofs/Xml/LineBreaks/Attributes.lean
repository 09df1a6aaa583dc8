import Mathlib.Data.List.TakeWhile
import TextHarvest.Proofs.Text.LineBreaks
import TextHarvest.Proofs.Text.Pieces
import TextHarvest.Proofs.Xml.Attributes
import TextHarvest.Proofs.Xml.Spelling

/-! # Line breaks in tags

The attributes of a tag are the same whether its lines end with a line feed or with a carriage return and a line feed,
but for the line breaks in their values. Places in the two tags differ, and so do the faults that name them, so the two
readings are only `Alike`: both fail, or both succeed with related results.

The values themselves are related by `Widens`: a line feed that a reference stands for is not widened with the others.
-/

namespace TextHarvest.Xml

open Text

/-! ## Results that are alike -/

/-- Two results are alike: both are faults that `F` relates, or both are values that `R` relates. -/
inductive Alike {ε ε' α β : Type} (F : ε → ε' → Prop) (R : α → β → Prop) : Except ε α → Except ε' β → Prop
  | error {fault : ε} {fault' : ε'} : F fault fault' → Alike F R (.error fault) (.error fault')
  | ok {value : α} {value' : β} : R value value' → Alike F R (.ok value) (.ok value')

def AnyFault {ε ε' : Type} (_ : ε) (_ : ε') : Prop := True

namespace Alike

variable {ε ε' α β γ δ : Type} {F : ε → ε' → Prop} {R : α → β → Prop}

theorem split {first : Except ε α} {second : Except ε' β} (alike : Alike F R first second) :
    (∃ fault fault', first = .error fault ∧ second = .error fault' ∧ F fault fault') ∨
      ∃ value value', first = .ok value ∧ second = .ok value' ∧ R value value' := by
  cases alike with
  | error related => exact .inl ⟨_, _, rfl, rfl, related⟩
  | ok related => exact .inr ⟨_, _, rfl, rfl, related⟩

theorem map {S : γ → δ → Prop} {f : α → γ} {g : β → δ} {first : Except ε α} {second : Except ε' β}
    (alike : Alike F R first second) (keep : ∀ value value', R value value' → S (f value) (g value')) :
    Alike F S (first.map f) (second.map g) := by
  cases alike with
  | error related => exact .error related
  | ok related => exact .ok (keep _ _ related)

end Alike

/-! ## References -/

private theorem referenceName?_widen (text : List Char) :
    referenceName? (widen text) = (referenceName? text).map widen := by
  induction text using induction_on_feeds with
  | nil => rfl
  | feed text ih =>
    simp only [widen_feed, referenceName?, ih]
    cases referenceName? text <;> simp
  | other c text different ih =>
    simp only [widen_cons different, referenceName?, ih]
    split_ifs
    · rfl
    · rfl
    · cases referenceName? text <;> simp [different]

private theorem exists_of_referenceName? {text name : List Char} (named : referenceName? text = some name) :
    ∃ rest, text = name ++ ';' :: rest := by
  induction text generalizing name with
  | nil => cases named
  | cons c text ih =>
    rw [referenceName?] at named
    split_ifs at named with semicolon
    · cases named
      exact ⟨text, by rw [semicolon]; rfl⟩
    · obtain ⟨inner, read, rfl⟩ := Option.map_eq_some_iff.mp named
      obtain ⟨rest, rfl⟩ := ih read
      exact ⟨rest, rfl⟩

private theorem exists_fault_of_readDigits {base value : Nat} {text : List Char} (feed : '\n' ∈ text) :
    ∃ fault, readDigits base value text = .error fault := by
  induction text generalizing value with
  | nil => exact absurd feed List.not_mem_nil
  | cons c text ih =>
    rw [readDigits]
    cases read : digit? base c with
    | none => exact ⟨_, rfl⟩
    | some digit =>
      have no_digit : digit? base '\n' = none := by simp [digit?]
      have different : '\n' ≠ c := by
        rintro rfl
        rw [no_digit] at read
        cases read
      dsimp only
      split_ifs
      · exact ih ((List.mem_cons.mp feed).resolve_left different)
      · exact ⟨_, rfl⟩

private theorem exists_fault_of_referenceCode {spelling : List Char} (feed : '\n' ∈ spelling) :
    ∃ fault, referenceCode spelling = .error fault := by
  have number (base : Nat) {digits : List Char} (feed : '\n' ∈ digits) :
      ∃ fault, readNumber base digits = .error fault := by
    rw [readNumber, if_neg (List.ne_nil_of_mem feed)]
    exact exists_fault_of_readDigits feed
  unfold referenceCode
  split
  next base digits chosen =>
  have inside : '\n' ∈ digits := by
    split at chosen
    · cases chosen
      exact (List.mem_cons.mp feed).resolve_left (by decide)
    · cases chosen
      exact feed
  split_ifs
  · exact ⟨_, rfl⟩
  · obtain ⟨fault, broken⟩ := number base inside
    rw [broken]
    exact ⟨_, rfl⟩

/-- No reference has a line feed in its name. -/
theorem exists_fault_of_referenced {name : List Char} (feed : '\n' ∈ name) (offset : Nat) :
    ∃ fault, referenced offset name = .error fault := by
  unfold referenced
  split
  · next spelling =>
    obtain ⟨fault, broken⟩ := exists_fault_of_referenceCode ((List.mem_cons.mp feed).resolve_left (by decide))
    rw [referenceCharacter, broken]
    exact ⟨_, rfl⟩
  · have unknown : entity? name = none := by
      unfold entity?
      split_ifs <;> simp_all
    rw [unknown]
    exact ⟨_, rfl⟩

private theorem referenced_widen (offset offset' : Nat) (name : List Char) :
    Alike AnyFault Eq (referenced offset name) (referenced offset' (widen name)) := by
  by_cases feed : '\n' ∈ name
  · obtain ⟨fault, broken⟩ := exists_fault_of_referenced feed offset
    obtain ⟨fault', broken'⟩ := exists_fault_of_referenced (feed_mem_widen.mpr feed) offset'
    rw [broken, broken']
    exact .error trivial
  · rw [widen_of_not_mem feed]
    unfold referenced
    split
    · next spelling =>
      cases referenceCharacter spelling with
      | error fault => exact .error trivial
      | ok c => exact .ok rfl
    · cases entity? name with
      | none => exact .error trivial
      | some c => exact .ok rfl

/-- The induction is on the length of the text, since a reference is passed over as a whole. -/
theorem resolveFrom_widen (size size' offset offset' : Nat) (text : List Char) :
    Alike AnyFault Widens (resolveFrom size 0 offset text) (resolveFrom size' 0 offset' (widen text)) := by
  induction length : text.length using Nat.strong_induction_on generalizing offset offset' text with
  | _ n ih =>
    have later (offset offset' : Nat) (rest : List Char) (shorter : rest.length < text.length) :=
      ih rest.length (by omega) offset offset' rest rfl
    cases text with
    | nil => exact .ok .nil
    | cons c rest =>
      by_cases feed : c = '\n'
      · subst feed
        rw [widen_feed, resolveFrom_cons (by decide), resolveFrom_cons (by decide), resolveFrom_cons (by decide)]
        rcases (later _ _ rest (by simp)).split with ⟨_, _, broken, broken', _⟩ | ⟨_, _, read, read', widens⟩
        · rw [broken, broken']
          exact .error trivial
        · rw [read, read']
          exact .ok widens.feed
      by_cases ampersand : c = '&'
      · subst ampersand
        have renamed := referenceName?_widen rest
        rw [widen_cons feed]
        cases named : referenceName? rest with
        | none =>
          rw [named] at renamed
          simp only [resolveFrom, ↓reduceIte, named, renamed, Option.map_none]
          exact .error trivial
        | some name =>
          obtain ⟨behind, rfl⟩ := exists_of_referenceName? named
          have laid : widen (name ++ ';' :: behind) = widen name ++ ';' :: widen behind := by simp
          rw [named, laid, Option.map_some] at renamed
          rw [laid, resolveFrom_reference named, resolveFrom_reference renamed]
          rcases (referenced_widen (offset + 1) (offset' + 1) name).split with
            ⟨_, _, broken, broken', _⟩ | ⟨c, _, read, read', rfl⟩
          · rw [broken, broken']
            exact .error trivial
          · rw [read, read']
            exact (later _ _ behind (by simp; omega)).map fun _ _ widens => widens.same c
      · rw [widen_cons feed, resolveFrom_cons ampersand, resolveFrom_cons ampersand]
        exact (later _ _ rest (by simp)).map fun _ _ widens => widens.same c

private theorem resolve_widen (value : List Char) : Alike AnyFault Widens (resolve value) (resolve (widen value)) :=
  resolveFrom_widen _ _ 0 0 value

/-! ## Attributes -/

private theorem skipBlanks_widen (offset offset' : Nat) (text : List Char) :
    (skipBlanks offset text = none ∧ skipBlanks offset' (widen text) = none) ∨
      ∃ position position' first rest, isBlank first = false ∧ skipBlanks offset text = some (position, first, rest) ∧
        skipBlanks offset' (widen text) = some (position', first, widen rest) := by
  induction text using induction_on_feeds generalizing offset offset' with
  | nil => exact .inl ⟨rfl, rfl⟩
  | feed text ih => exact ih _ _
  | other c text different ih =>
    rw [widen_cons different, skipBlanks, skipBlanks]
    cases blank : isBlank c with
    | true => exact ih _ _
    | false => exact .inr ⟨offset, offset', c, text, blank, rfl, rfl⟩

private theorem length_lt_of_skipBlanks {offset position : Nat} {text rest : List Char} {first : Char}
    (found : skipBlanks offset text = some (position, first, rest)) : rest.length < text.length := by
  induction text generalizing offset with
  | nil => cases found
  | cons c text ih =>
    rw [skipBlanks] at found
    split_ifs at found
    · have := ih found
      rw [List.length_cons]
      omega
    · cases found
      rw [List.length_cons]
      omega

private theorem keyTail_widen (text : List Char) : keyTail (widen text) = keyTail text :=
  takeWhile_widen_of_stops (by decide) text

/-- Keys have no blanks, so both readings find the same one. -/
theorem readKey_widen (size size' offset offset' : Nat) (first : Char) (rest : List Char) :
    Alike AnyFault (fun (key, _, behind) (key', _, behind') => key' = key ∧ behind' = widen behind)
      (readKey size offset first rest) (readKey size' offset' first (widen rest)) := by
  have behind : (widen rest).drop (keyTail rest).length = widen (rest.drop (keyTail rest).length) :=
    drop_takeWhile_widen (by decide) rest
  simp only [readKey, keyTail_widen, behind]
  rcases skipBlanks_widen (offset + byteLength (first :: keyTail rest)) (offset' + byteLength (first :: keyTail rest))
    (rest.drop (keyTail rest).length) with ⟨none, none'⟩ | ⟨_, _, c, rest, _, found, found'⟩
  · rw [none, none']
    exact .error trivial
  · rw [found, found']
    dsimp only
    split_ifs
    · exact .ok ⟨rfl, rfl⟩
    · exact .error trivial

private theorem length_lt_of_readKey {size offset position : Nat} {first : Char} {rest key behind : List Char}
    (found : readKey size offset first rest = .ok (key, position, behind)) : behind.length < rest.length := by
  simp only [readKey] at found
  split at found
  · cases found
  · next skipped =>
    split_ifs at found
    cases found
    have shorter := length_lt_of_skipBlanks skipped
    rw [List.length_drop] at shorter
    omega

private theorem readValue_widen (size size' offset offset' : Nat) (text : List Char) :
    Alike AnyFault (fun (value, _, behind) (value', _, behind') => value' = widen value ∧ behind' = widen behind)
      (readValue size offset text) (readValue size' offset' (widen text)) := by
  rw [readValue, readValue]
  rcases skipBlanks_widen offset offset' text with ⟨none, none'⟩ | ⟨_, _, quote, rest, _, found, found'⟩
  · rw [none, none']
    exact .error trivial
  · rw [found, found']
    dsimp only
    split_ifs with quoting
    · have same : decide ('\r' ≠ quote) = decide ('\n' ≠ quote) := by
        rcases quoting with rfl | rfl <;> rfl
      have closing := List.head?_dropWhile_not (· ≠ quote) rest
      simp only [drop_length_takeWhile]
      rw [takeWhile_widen (· ≠ quote) same, dropWhile_widen (· ≠ quote) same]
      cases left : rest.dropWhile (· ≠ quote) with
      | nil => exact .error trivial
      | cons c behind =>
        have different : c ≠ '\n' := by
          rw [left] at closing
          rintro rfl
          rcases quoting with rfl | rfl <;> simp at closing
        rw [widen_cons different]
        exact .ok ⟨rfl, rfl⟩
    · exact .error trivial

private theorem length_lt_of_readValue {size offset position : Nat} {text value behind : List Char}
    (found : readValue size offset text = .ok (value, position, behind)) : behind.length < text.length := by
  rw [readValue] at found
  split at found
  · cases found
  · next skipped =>
    have shorter := length_lt_of_skipBlanks skipped
    split_ifs at found
    simp only at found
    split at found
    · cases found
    · next left =>
      cases found
      have length := congrArg List.length left
      rw [List.length_drop, List.length_cons] at length
      omega

private theorem valuesFrom_nil (size limit : Nat) (seen : List (List Char × Nat)) (offset : Nat) :
    valuesFrom size limit seen offset [] = .ok [] := by
  cases limit <;> rfl

/-- Only the keys decide whether a key was there before, not their places. -/
theorem declared?_of_keys {seen seen' : List (List Char × Nat)} (keys : seen'.map Prod.fst = seen.map Prod.fst)
    (key : List Char) :
    (declared? seen key = none ∧ declared? seen' key = none) ∨
      ∃ place place', declared? seen key = some place ∧ declared? seen' key = some place' := by
  have fresh : declared? seen key = none ↔ declared? seen' key = none := by
    rw [declared?_eq_none_iff, declared?_eq_none_iff, keys]
  cases before : declared? seen key with
  | none => exact .inl ⟨rfl, fresh.mp before⟩
  | some place =>
    rw [before] at fresh
    cases before' : declared? seen' key with
    | none => cases fresh.mpr before'
    | some place' => exact .inr ⟨place, place', rfl, rfl⟩

/-- The limits are no bound in either reading, since every attribute shortens the rest of the tag. -/
theorem valuesFrom_widen (size size' : Nat) {limit limit' : Nat} {seen seen' : List (List Char × Nat)}
    (keys : seen'.map Prod.fst = seen.map Prod.fst) (offset offset' : Nat) {text : List Char}
    (enough : text.length ≤ limit) (enough' : (widen text).length ≤ limit') :
    Alike AnyFault (List.Forall₂ Widens) (valuesFrom size limit seen offset text)
      (valuesFrom size' limit' seen' offset' (widen text)) := by
  have wider := length_le_length_widen text
  induction limit generalizing limit' seen seen' offset offset' text with
  | zero =>
    obtain rfl : text = [] := List.length_eq_zero_iff.mp (by omega)
    rw [widen_nil, valuesFrom_nil, valuesFrom_nil]
    exact .ok .nil
  | succ limit ih =>
    cases limit' with
    | zero =>
      obtain rfl : text = [] := List.length_eq_zero_iff.mp (by omega)
      exact .ok .nil
    | succ limit' =>
      rw [valuesFrom, valuesFrom]
      rcases skipBlanks_widen offset offset' text with
        ⟨none, none'⟩ | ⟨position, position', first, rest, _, found, found'⟩
      · rw [none, none']
        exact .ok .nil
      rw [found, found']
      dsimp only
      rcases (readKey_widen size size' _ _ first rest).split with
        ⟨_, _, broken, broken', _⟩ | ⟨⟨_, _, rest₁⟩, ⟨key, _, _⟩, read, read', rfl, rfl⟩
      · rw [broken, broken']
        exact .error trivial
      rw [read, read']
      dsimp only
      rcases declared?_of_keys keys key with ⟨fresh, fresh'⟩ | ⟨_, _, taken, taken'⟩
      swap
      · rw [taken, taken']
        exact .error trivial
      rw [fresh, fresh']
      dsimp only
      rcases (readValue_widen size size' _ _ rest₁).split with
        ⟨_, _, broken, broken', _⟩ | ⟨⟨raw, _, rest₂⟩, ⟨_, _, _⟩, value, value', rfl, rfl⟩
      · rw [broken, broken']
        exact .error trivial
      rw [value, value']
      dsimp only
      rcases (resolve_widen raw).split with ⟨_, _, broken, broken', _⟩ | ⟨_, _, resolved, resolved', widens⟩
      · rw [broken, broken']
        exact .error trivial
      rw [resolved, resolved']
      dsimp only
      have later : (seen' ++ [(key, position')]).map Prod.fst = (seen ++ [(key, position)]).map Prod.fst := by
        rw [List.map_append, List.map_append, keys]
        rfl
      have shorter : rest₂.length < text.length :=
        (length_lt_of_readValue value).trans ((length_lt_of_readKey read).trans (length_lt_of_skipBlanks found))
      have shorter' : (widen rest₂).length < (widen text).length :=
        (length_lt_of_readValue value').trans ((length_lt_of_readKey read').trans (length_lt_of_skipBlanks found'))
      have bounded' : (widen rest₂).length ≤ limit' := by omega
      rcases (ih later _ _ (by omega) bounded' (length_le_length_widen rest₂)).split with
        ⟨_, _, broken, broken', _⟩ | ⟨_, _, values, values', related⟩
      · rw [broken, broken']
        exact .error trivial
      · rw [values, values']
        exact .ok (.cons widens related)

theorem tagName_widen (content : List Char) : tagName (widen content) = tagName content :=
  takeWhile_widen_of_stops (by decide) content

/-- A tag has the same attributes, but for the line breaks in their values. -/
theorem attributeValues_widen (content : List Char) :
    Alike AnyFault (List.Forall₂ Widens) (attributeValues content) (attributeValues (widen content)) := by
  have behind : (widen content).drop (tagName content).length = widen (content.drop (tagName content).length) :=
    drop_takeWhile_widen (by decide) content
  simp only [attributeValues, tagName_widen, behind]
  apply valuesFrom_widen _ _ rfl
  · rw [List.length_drop]
    omega
  · rw [← behind, List.length_drop]
    omega

end TextHarvest.Xml
