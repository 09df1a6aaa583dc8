import TextHarvest.Proofs.Text.Pieces
import TextHarvest.Text.Lines

/-! # Line breaks with and without a carriage return

`widen` writes every line feed of a text as a carriage return and a line feed. Whatever stops at both characters or at
neither of them finds the same in the wider text. `Widens` is the weaker relation between texts of which some line feeds
were widened and others were not.
-/

namespace TextHarvest.Text

/-- A text with every line feed written as a carriage return and a line feed. -/
def widen (text : List Char) : List Char :=
  text.flatMap fun c => if c = '\n' then ['\r', '\n'] else [c]

@[simp] theorem widen_nil : widen [] = [] := rfl

@[simp] theorem widen_feed (text : List Char) : widen ('\n' :: text) = '\r' :: '\n' :: widen text := rfl

@[simp] theorem widen_cons {c : Char} (other : c ≠ '\n') (text : List Char) : widen (c :: text) = c :: widen text := by
  simp [widen, other]

@[simp] theorem widen_append (first second : List Char) : widen (first ++ second) = widen first ++ widen second :=
  List.flatMap_append

/-- Induction over a text that tells line feeds from other characters. -/
theorem induction_on_feeds {motive : List Char → Prop} (text : List Char) (nil : motive [])
    (feed : ∀ text, motive text → motive ('\n' :: text))
    (other : ∀ c text, c ≠ '\n' → motive text → motive (c :: text)) : motive text := by
  induction text with
  | nil => exact nil
  | cons c text ih =>
    by_cases break_here : c = '\n'
    · subst break_here
      exact feed text ih
    · exact other c text break_here ih

theorem widen_of_not_mem {text : List Char} (closed : '\n' ∉ text) : widen text = text := by
  induction text using induction_on_feeds with
  | nil => rfl
  | feed text ih => exact absurd List.mem_cons_self closed
  | other c text different ih => rw [widen_cons different, ih (List.not_mem_of_not_mem_cons closed)]

theorem feed_mem_widen {text : List Char} : '\n' ∈ widen text ↔ '\n' ∈ text := by
  induction text using induction_on_feeds with
  | nil => rfl
  | feed text ih => simp
  | other c text different ih => simp [different, ih]

theorem count_widen (text : List Char) : (widen text).count '\n' = text.count '\n' := by
  induction text using induction_on_feeds with
  | nil => rfl
  | feed text ih => simp [ih]
  | other c text different ih => simp [different, ih]

theorem length_le_length_widen (text : List Char) : text.length ≤ (widen text).length := by
  induction text using induction_on_feeds with
  | nil => exact Nat.le_refl 0
  | feed text ih =>
    rw [widen_feed, List.length_cons, List.length_cons, List.length_cons]
    omega
  | other c text different ih =>
    rw [widen_cons different, List.length_cons, List.length_cons]
    omega

/-- A text that is cut at both characters or at neither is cut at the same place. -/
theorem takeWhile_widen (keep : Char → Bool) (same : keep '\r' = keep '\n') (text : List Char) :
    (widen text).takeWhile keep = widen (text.takeWhile keep) := by
  induction text using induction_on_feeds with
  | nil => rfl
  | feed text ih => cases kept : keep '\n' <;> simp [kept, same, ih]
  | other c text different ih => cases kept : keep c <;> simp [kept, different, ih]

theorem dropWhile_widen (keep : Char → Bool) (same : keep '\r' = keep '\n') (text : List Char) :
    (widen text).dropWhile keep = widen (text.dropWhile keep) := by
  induction text using induction_on_feeds with
  | nil => rfl
  | feed text ih => cases kept : keep '\n' <;> simp [kept, same, ih]
  | other c text different ih => cases kept : keep c <;> simp [kept, different, ih]

/-- A piece that ends before both characters is not changed. -/
theorem takeWhile_widen_of_stops {keep : Char → Bool} (stops : keep '\r' = false ∧ keep '\n' = false)
    (text : List Char) : (widen text).takeWhile keep = text.takeWhile keep := by
  induction text using induction_on_feeds with
  | nil => rfl
  | feed text ih => simp [stops]
  | other c text different ih => cases kept : keep c <;> simp [kept, different, ih]

theorem drop_takeWhile_widen {keep : Char → Bool} (stops : keep '\r' = false ∧ keep '\n' = false)
    (text : List Char) :
    (widen text).drop (text.takeWhile keep).length = widen (text.drop (text.takeWhile keep).length) := by
  calc
    (widen text).drop (text.takeWhile keep).length
        = (widen text).drop ((widen text).takeWhile keep).length := by rw [takeWhile_widen_of_stops stops]
    _ = (widen text).dropWhile keep := drop_length_takeWhile keep _
    _ = widen (text.dropWhile keep) := dropWhile_widen keep (stops.1.trans stops.2.symm) text
    _ = widen (text.drop (text.takeWhile keep).length) := by rw [drop_length_takeWhile]

theorem all_widen (keep : Char → Bool) (same : keep '\r' = keep '\n') (text : List Char) :
    (widen text).all keep = text.all keep := by
  induction text using induction_on_feeds with
  | nil => rfl
  | feed text ih => simp [same, ih]
  | other c text different ih => simp [different, ih]

theorem widen_concat {c : Char} (other : c ≠ '\n') (text : List Char) : widen (text ++ [c]) = widen text ++ [c] := by
  simp [other]

theorem getLast?_widen (text : List Char) : (widen text).getLast? = text.getLast? := by
  rcases List.eq_nil_or_concat' text with rfl | ⟨front, c, rfl⟩
  · rfl
  · by_cases feed : c = '\n'
    · simp [feed]
    · simp [feed]

theorem head?_widen {c : Char} (other : c ≠ '\r' ∧ c ≠ '\n') (text : List Char) :
    (widen text).head? = some c ↔ text.head? = some c := by
  induction text using induction_on_feeds with
  | nil => rfl
  | feed text _ => simp [Ne.symm other.1, Ne.symm other.2]
  | other d text different _ => simp [different]

/-! ## Marks -/

/-- A text without line breaks of either kind. -/
def Unbroken (text : List Char) : Prop :=
  '\r' ∉ text ∧ '\n' ∉ text

instance : DecidablePred Unbroken :=
  fun _ => inferInstanceAs (Decidable (_ ∧ _))

theorem unbroken_cons {c : Char} {text : List Char} :
    Unbroken (c :: text) ↔ (c ≠ '\r' ∧ c ≠ '\n') ∧ Unbroken text := by
  simp only [Unbroken, List.mem_cons, not_or, ne_comm]
  tauto

/-- An unbroken mark stands at the front of both texts or of none, also when characters are converted before. -/
theorem isPrefixOf_map_widen {mark : List Char} {convert : Char → Char}
    (absent : convert '\r' ∉ mark ∧ convert '\n' ∉ mark) (text : List Char) :
    mark.isPrefixOf ((widen text).map convert) = mark.isPrefixOf (text.map convert) := by
  induction mark generalizing text with
  | nil => rfl
  | cons m mark ih =>
    simp only [List.mem_cons, not_or] at absent
    induction text using induction_on_feeds with
    | nil => rfl
    | feed text _ =>
      simp [List.isPrefixOf_cons_cons, beq_false_of_ne (Ne.symm absent.1.1), beq_false_of_ne (Ne.symm absent.2.1)]
    | other c text different _ => simp [List.isPrefixOf_cons_cons, different, ih ⟨absent.1.2, absent.2.2⟩]

theorem isPrefixOf_widen {mark : List Char} (unbroken : Unbroken mark) (text : List Char) :
    mark.isPrefixOf (widen text) = mark.isPrefixOf text := by
  have same := @isPrefixOf_map_widen mark id unbroken text
  rwa [List.map_id, List.map_id] at same

/-- Behind a mark at their fronts the two texts go on alike. -/
theorem drop_length_widen {mark : List Char} {convert : Char → Char} (absent : convert '\n' ∉ mark) {text : List Char}
    (found : mark.isPrefixOf (text.map convert) = true) :
    (widen text).drop mark.length = widen (text.drop mark.length) := by
  induction mark generalizing text with
  | nil => rfl
  | cons m mark ih =>
    simp only [List.mem_cons, not_or] at absent
    cases text with
    | nil => rfl
    | cons c text =>
      simp only [List.map_cons, List.isPrefixOf_cons_cons, Bool.and_eq_true, beq_iff_eq] at found
      have different : c ≠ '\n' := by
        rintro rfl
        exact absent.1 found.1.symm
      rw [widen_cons different]
      exact ih absent.2 found.2

theorem isPrefixOf_reverse_widen {mark : List Char} (unbroken : Unbroken mark) (text : List Char) :
    mark.isPrefixOf (widen text).reverse = mark.isPrefixOf text.reverse := by
  induction mark generalizing text with
  | nil => rfl
  | cons m mark ih =>
    obtain ⟨⟨_, no_feed⟩, others⟩ := unbroken_cons.mp unbroken
    rcases List.eq_nil_or_concat' text with rfl | ⟨front, c, rfl⟩
    · rfl
    · by_cases feed : c = '\n'
      · simp [List.isPrefixOf_cons_cons, feed, beq_false_of_ne no_feed]
      · simp [List.isPrefixOf_cons_cons, feed, ih others]

/-! ## Line breaks that were widened in part -/

/-- The second text is the first one with carriage returns before some of its line feeds. -/
inductive Widens : List Char → List Char → Prop
  | nil : Widens [] []
  | same (c : Char) {text wide : List Char} : Widens text wide → Widens (c :: text) (c :: wide)
  | feed {text wide : List Char} : Widens text wide → Widens ('\n' :: text) ('\r' :: '\n' :: wide)

namespace Widens

variable {text wide : List Char}

theorem head? {c : Char} (other : c ≠ '\r' ∧ c ≠ '\n') (widens : Widens text wide) :
    wide.head? = some c ↔ text.head? = some c := by
  cases widens with
  | nil => rfl
  | same d _ => rfl
  | feed _ => simp [Ne.symm other.1, Ne.symm other.2]

theorem tail {c : Char} (other : c ≠ '\n') (widens : Widens text wide) (front : text.head? = some c) :
    Widens text.tail wide.tail := by
  cases widens with
  | nil => cases front
  | same _ later => exact later
  | feed _ =>
    cases front
    exact absurd rfl other

theorem dropWhile {keep : Char → Bool} (stops : keep '\r' = false ∧ keep '\n' = false) (widens : Widens text wide) :
    Widens (text.dropWhile keep) (wide.dropWhile keep) := by
  induction widens with
  | nil => exact .nil
  | same c later ih =>
    cases kept : keep c with
    | false => simpa [kept] using later.same c
    | true => simpa [kept] using ih
  | feed later _ => simpa [stops] using later.feed

end Widens

end TextHarvest.Text
