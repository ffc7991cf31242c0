/-
Text patterns: `*` stands for any text and `?` for any character.  A list of
patterns names a text if one of them matches and none behind a `!` does.
-/
import Mathlib.Data.List.Infix

namespace Pattern

abbrev Text := List Char

inductive Matches : Text → Text → Prop
  | nil : Matches [] []
  | star {pattern text : Text} (front : Text) (h : Matches pattern text) :
      Matches ('*' :: pattern) (front ++ text)
  | one {pattern text : Text} (c : Char) (h : Matches pattern text) :
      Matches ('?' :: pattern) (c :: text)
  | char {pattern text : Text} {c : Char} (hstar : c ≠ '*') (hone : c ≠ '?')
      (h : Matches pattern text) : Matches (c :: pattern) (c :: text)

variable {pattern text : Text}

/-- What the first character of a pattern takes of the text. -/
theorem matches_cons {p : Char} :
    Matches (p :: pattern) text ↔
      (p = '*' ∧ ∃ rest, rest <:+ text ∧ Matches pattern rest) ∨
      (p ≠ '*' ∧ ∃ c rest, text = c :: rest ∧ (p = '?' ∨ p = c) ∧
        Matches pattern rest) := by
  constructor
  · intro h
    cases h with
    | star front h =>
      exact .inl ⟨rfl, _, List.suffix_append front _, h⟩
    | one c h => exact .inr ⟨by decide, c, _, rfl, .inl rfl, h⟩
    | char hstar hone h => exact .inr ⟨hstar, p, _, rfl, .inr rfl, h⟩
  · rintro (⟨rfl, rest, ⟨front, rfl⟩, h⟩ | ⟨hstar, c, rest, rfl, rfl | rfl, h⟩)
    · exact .star front h
    · exact .one c h
    · by_cases hone : p = '?'
      · exact hone ▸ .one p h
      · exact .char hstar hone h

theorem matches_self (text : Text) : Matches text text := by
  induction text with
  | nil => exact .nil
  | cons c rest ih =>
    by_cases hstar : c = '*'
    · exact hstar ▸ .star ['*'] ih
    · by_cases hone : c = '?'
      · exact hone ▸ .one '?' ih
      · exact .char hstar hone ih

/-- A star tries every part of the text that is left. -/
def glob : Text → Text → Bool
  | [], text => text.isEmpty
  | p :: pattern, text =>
    if p = '*' then text.tails.any fun rest => glob pattern rest
    else
      text.head?.any fun c => (p == '?' || p == c) && glob pattern text.tail

theorem glob_eq_true :
    glob pattern text = true ↔ Matches pattern text := by
  induction pattern generalizing text with
  | nil =>
    rw [glob, List.isEmpty_iff]
    constructor
    · rintro rfl
      exact .nil
    · rintro ⟨⟩
      rfl
  | cons p pattern ih =>
    rw [glob, matches_cons]
    by_cases hstar : p = '*'
    · simp [hstar, ih]
    · cases text with
      | nil => simp [hstar]
      | cons c rest =>
        simp only [hstar, ↓reduceIte, List.head?_cons, List.tail_cons,
          Option.any_some, Bool.and_eq_true, Bool.or_eq_true, beq_iff_eq,
          ih, false_and, false_or, ne_eq, not_false_eq_true, true_and]
        constructor
        · exact fun h => ⟨c, rest, rfl, h⟩
        · rintro ⟨c, rest, ⟨⟩, h⟩
          exact h

instance (pattern text : Text) : Decidable (Matches pattern text) :=
  decidable_of_iff (glob pattern text = true) glob_eq_true

variable {M : Text → Text → Prop} {m : Text → Text → Bool}

/-- The text is named by a list of patterns, each of which matches as `M`
says. -/
structure Names (M : Text → Text → Prop) (patterns : List Text) (text : Text) :
    Prop where
  named : ∃ pattern ∈ patterns, pattern.head? ≠ some '!' ∧ M pattern text
  allowed : ∀ pattern, '!' :: pattern ∈ patterns → ¬ M pattern text

/-- The pattern behind the `!` of a negated pattern. -/
def negated : Text → Option Text
  | '!' :: pattern => some pattern
  | _ => none

theorem negated_eq_some {inner : Text} :
    negated pattern = some inner ↔ pattern = '!' :: inner := by
  rw [negated.eq_def]
  split
  · simp
  · rename_i hother
    constructor
    · rintro ⟨⟩
    · intro heq
      exact absurd heq (hother inner)

theorem negated_eq_none :
    negated pattern = none ↔ pattern.head? ≠ some '!' := by
  rw [negated.eq_def]
  split
  · simp
  · rename_i hother
    simp only [ne_eq, true_iff]
    intro hhead
    obtain ⟨rest, heq⟩ := List.head?_eq_some_iff.mp hhead
    exact hother rest heq

/-- The list from left to right; a negated pattern that matches ends the
search. -/
def scan (m : Text → Text → Bool) (text : Text) : Bool → List Text → Bool
  | matched, [] => matched
  | matched, pattern :: rest =>
    match negated pattern with
    | some inner =>
      if m inner text then false else scan m text matched rest
    | none => scan m text (matched || m pattern text) rest

/-- The pattern without the `!` of a negated one. -/
def bare (pattern : Text) : Text :=
  (negated pattern).getD pattern

theorem scan_congr {m' : Text → Text → Bool} {patterns : List Text}
    (h : ∀ pattern ∈ patterns, m (bare pattern) text = m' (bare pattern) text)
    {matched : Bool} :
    scan m text matched patterns = scan m' text matched patterns := by
  induction patterns generalizing matched with
  | nil => rfl
  | cons pattern rest ih =>
    obtain ⟨hpattern, hrest⟩ := List.forall_mem_cons.mp h
    rw [bare] at hpattern
    rw [scan, scan]
    cases hneg : negated pattern with
    | some inner =>
      rw [hneg, Option.getD_some] at hpattern
      simp only [hpattern, ih hrest]
    | none =>
      rw [hneg, Option.getD_none] at hpattern
      simp only [hpattern, ih hrest]

theorem scan_eq_true (hm : ∀ pattern text, m pattern text = true ↔
    M pattern text) {matched : Bool} {patterns : List Text} :
    scan m text matched patterns = true ↔ (matched = true ∨
        ∃ pattern ∈ patterns, pattern.head? ≠ some '!' ∧ M pattern text) ∧
      ∀ pattern, '!' :: pattern ∈ patterns → ¬ M pattern text := by
  induction patterns generalizing matched with
  | nil => simp [scan]
  | cons pattern rest ih =>
    rw [scan]
    cases hneg : negated pattern with
    | some inner =>
      obtain rfl := negated_eq_some.mp hneg
      have hmem : ∀ p, '!' :: p ∈ ('!' :: inner) :: rest ↔
          p = inner ∨ '!' :: p ∈ rest := by simp
      simp only [hmem, List.exists_mem_cons_iff, List.head?_cons, ne_eq,
        not_true_eq_false, false_and, false_or, forall_eq_or_imp]
      by_cases hmatch : m inner text = true
      · have hinner := (hm inner text).mp hmatch
        simp [hmatch, hinner]
      · have hinner : ¬ M inner text := fun h => hmatch ((hm _ _).mpr h)
        simp [hmatch, hinner, ih]
    | none =>
      have hhead := negated_eq_none.mp hneg
      have hmem : ∀ p, '!' :: p ∈ pattern :: rest ↔ '!' :: p ∈ rest := by
        intro p
        rw [List.mem_cons, or_iff_right]
        rintro rfl
        exact hhead rfl
      simp only [ih, hmem, Bool.or_eq_true, hm, List.exists_mem_cons_iff,
        hhead, ne_eq, not_false_eq_true, true_and, or_assoc]

theorem scan_eq_names (hm : ∀ pattern text, m pattern text = true ↔
    M pattern text) {patterns : List Text} :
    scan m text false patterns = true ↔ Names M patterns text := by
  rw [scan_eq_true hm]
  constructor
  · rintro ⟨hmatched | hnamed, hallowed⟩
    · cases hmatched
    · exact ⟨hnamed, hallowed⟩
  · rintro ⟨hnamed, hallowed⟩
    exact ⟨.inr hnamed, hallowed⟩

instance [h : ∀ pattern text, Decidable (M pattern text)]
    (patterns : List Text) (text : Text) : Decidable (Names M patterns text) :=
  have hm : ∀ pattern text, decide (M pattern text) = true ↔ M pattern text :=
    fun _ _ => decide_eq_true_iff
  decidable_of_iff _ (scan_eq_names hm)

end Pattern
