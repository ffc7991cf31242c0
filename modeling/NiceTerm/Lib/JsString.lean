/-
JavaScript strings as lists of UTF-16 code units, with the number of bytes
their UTF-8 encoding takes.  A lone surrogate counts as U+FFFD does.
-/
import Mathlib.Data.List.Basic
import Mathlib.Data.List.Infix

namespace JsString

open List

abbrev JsStr := List UInt16

def isHighSurrogate (unit : UInt16) : Bool :=
  0xD800 ≤ unit.toNat && unit.toNat ≤ 0xDBFF

def isLowSurrogate (unit : UInt16) : Bool :=
  0xDC00 ≤ unit.toNat && unit.toNat ≤ 0xDFFF

/-- `codePointAt(0)`, with 0 on the empty string. -/
def codePoint : JsStr → Nat
  | [] => 0
  | [unit] => unit.toNat
  | high :: low :: _ =>
    if isHighSurrogate high && isLowSurrogate low then
      0x10000 + (high.toNat - 0xD800) * 0x400 + (low.toNat - 0xDC00)
    else high.toNat

/-- Bytes of one code point in UTF-8. -/
def utf8Size (code : Nat) : Nat :=
  if code ≤ 0x7F then 1
  else if code ≤ 0x7FF then 2
  else if code ≤ 0xFFFF then 3
  else 4

def utf8Length : JsStr → Nat
  | [] => 0
  | [unit] => utf8Size unit.toNat
  | high :: low :: rest =>
    if isHighSurrogate high && isLowSurrogate low then 4 + utf8Length rest
    else utf8Size high.toNat + utf8Length (low :: rest)

/-- Code units of the code point at the front. -/
def charLength (text : JsStr) : Nat :=
  if 0xFFFF < codePoint text then 2 else 1

theorem utf8Size_pos (code : Nat) : 0 < utf8Size code := by
  unfold utf8Size
  split_ifs <;> decide

theorem utf8Size_of_lt {code : Nat} (h : 0xFFFF < code) :
    utf8Size code = 4 := by
  have hone : ¬ code ≤ 0x7F := by omega
  have htwo : ¬ code ≤ 0x7FF := by omega
  have hthree : ¬ code ≤ 0xFFFF := by omega
  simp only [utf8Size, hone, htwo, hthree, if_false]

theorem charLength_pos (text : JsStr) : 0 < charLength text := by
  unfold charLength
  split_ifs <;> decide

theorem toNat_le (unit : UInt16) : unit.toNat ≤ 0xFFFF :=
  Nat.le_of_lt_succ unit.toNat_lt

/-- The UTF-8 length is taken one code point at a time. -/
theorem utf8Length_eq {text : JsStr} (h : text ≠ []) :
    utf8Length text =
      utf8Size (codePoint text) + utf8Length (text.drop (charLength text)) := by
  match text with
  | [] => exact absurd rfl h
  | [unit] =>
    have hunit := toNat_le unit
    simp [utf8Length, codePoint, charLength, Nat.not_lt.mpr hunit]
  | high :: low :: rest =>
    by_cases hpair : (isHighSurrogate high && isLowSurrogate low) = true
    · have hcode : 0xFFFF < codePoint (high :: low :: rest) := by
        rw [codePoint, if_pos hpair]
        omega
      have hsize := utf8Size_of_lt hcode
      rw [hsize, charLength, if_pos hcode, utf8Length, if_pos hpair]
      rfl
    · have hcode : codePoint (high :: low :: rest) = high.toNat := by
        rw [codePoint, if_neg hpair]
      have hhigh := toNat_le high
      rw [charLength, hcode, if_neg (Nat.not_lt.mpr hhigh), utf8Length,
        if_neg hpair]
      rfl

theorem length_le_utf8Length (text : JsStr) :
    text.length ≤ utf8Length text := by
  match text with
  | [] => exact Nat.le_refl 0
  | [unit] => exact utf8Size_pos unit.toNat
  | high :: low :: rest =>
    by_cases hpair : (isHighSurrogate high && isLowSurrogate low) = true
    · have ih := length_le_utf8Length rest
      rw [utf8Length, if_pos hpair]
      simp only [length_cons]
      omega
    · have ih := length_le_utf8Length (low :: rest)
      have hhigh := utf8Size_pos high.toNat
      rw [utf8Length, if_neg hpair]
      simp only [length_cons] at ih ⊢
      omega

/-- A text of as many bytes as code units can be cut at every unit. -/
theorem utf8Length_drop_of_eq_length {text : JsStr}
    (h : utf8Length text = text.length) (index : Nat) :
    utf8Length (text.drop index) = text.length - index := by
  induction index generalizing text with
  | zero => simpa using h
  | succ index ih =>
    cases text with
    | nil => simp [utf8Length]
    | cons unit rest =>
      have hcut := utf8Length_eq (cons_ne_nil unit rest)
      have hlong := length_le_utf8Length
        ((unit :: rest).drop (charLength (unit :: rest)))
      rw [h] at hcut
      by_cases hpair : 0xFFFF < codePoint (unit :: rest)
      · -- a surrogate pair has two units and four bytes
        rw [utf8Size_of_lt hpair] at hcut
        rw [charLength, if_pos hpair] at hcut hlong
        simp only [length_cons, length_drop] at hcut hlong
        omega
      · rw [charLength, if_neg hpair] at hcut hlong
        simp only [drop_succ_cons, drop_zero, length_cons] at hcut hlong ⊢
        have hsize := utf8Size_pos (codePoint (unit :: rest))
        have hrest : utf8Length rest = rest.length := by omega
        rw [ih hrest]
        omega

/-- `isWellFormed()`: no surrogate is alone. -/
def isWellFormed : JsStr → Bool
  | [] => true
  | [unit] => !isHighSurrogate unit && !isLowSurrogate unit
  | high :: low :: rest =>
    if isHighSurrogate high && isLowSurrogate low then isWellFormed rest
    else !isHighSurrogate high && !isLowSurrogate high &&
      isWellFormed (low :: rest)

/-- A unit that is no high surrogate is a code point of its own. -/
theorem utf8Length_cons {unit : UInt16} (h : isHighSurrogate unit = false)
    (text : JsStr) :
    utf8Length (unit :: text) = utf8Size unit.toNat + utf8Length text := by
  cases text with
  | nil => rfl
  | cons low rest => simp [utf8Length, h]

theorem isWellFormed_cons {unit : UInt16} (hhigh : isHighSurrogate unit = false)
    (hlow : isLowSurrogate unit = false) (text : JsStr) :
    isWellFormed (unit :: text) = isWellFormed text := by
  cases text with
  | nil => simp [isWellFormed, hhigh, hlow]
  | cons low rest => simp [isWellFormed, hhigh, hlow]

/-- The encodings of two texts can be joined when no pair is cut. -/
theorem utf8Length_append {front : JsStr} (h : isWellFormed front = true)
    (back : JsStr) :
    utf8Length (front ++ back) = utf8Length front + utf8Length back := by
  match front with
  | [] => simp [utf8Length]
  | [unit] =>
    simp only [isWellFormed, Bool.and_eq_true, Bool.not_eq_true'] at h
    exact utf8Length_cons h.1 back
  | high :: low :: rest =>
    by_cases hpair : (isHighSurrogate high && isLowSurrogate low) = true
    · rw [isWellFormed, if_pos hpair] at h
      have ih := utf8Length_append h back
      simp only [cons_append, utf8Length, hpair, if_true, ih]
      omega
    · rw [isWellFormed, if_neg hpair] at h
      simp only [Bool.and_eq_true] at h
      have ih := utf8Length_append h.2 back
      simp only [cons_append] at ih
      simp only [cons_append, utf8Length, hpair, if_false,
        Bool.false_eq_true, ih]
      omega

theorem isWellFormed_append {front : JsStr} (h : isWellFormed front = true)
    (back : JsStr) : isWellFormed (front ++ back) = isWellFormed back := by
  match front with
  | [] => rfl
  | [unit] =>
    simp only [isWellFormed, Bool.and_eq_true, Bool.not_eq_true'] at h
    exact isWellFormed_cons h.1 h.2 back
  | high :: low :: rest =>
    by_cases hpair : (isHighSurrogate high && isLowSurrogate low) = true
    · rw [isWellFormed, if_pos hpair] at h
      simpa only [cons_append, isWellFormed, hpair, if_true] using
        isWellFormed_append h back
    · rw [isWellFormed, if_neg hpair] at h
      simp only [Bool.and_eq_true] at h
      have ih := isWellFormed_append h.2 back
      simp only [cons_append] at ih
      simp only [cons_append, isWellFormed, hpair, if_false,
        Bool.false_eq_true, ih, h.1, Bool.true_and, Bool.and_true]

/-! Cuts: where no surrogate pair lies across one, the UTF-8 lengths of the
parts add up, and what is in front can be read one code point at a time. -/

variable {text front back middle : JsStr}

/-- No surrogate pair lies across the cut. -/
def Uncut (front back : JsStr) : Prop :=
  ∀ high ∈ front.getLast?, ∀ low ∈ back.head?,
    (isHighSurrogate high && isLowSurrogate low) = false

theorem uncut_nil_left (back : JsStr) : Uncut [] back :=
  fun _ hhigh => absurd hhigh (by simp)

theorem uncut_nil_right (front : JsStr) : Uncut front [] :=
  fun _ _ _ hlow => absurd hlow (by simp)

/-- Only the nearest units count. -/
theorem Uncut.append_left (h : Uncut middle back) (hne : middle ≠ [])
    (front : JsStr) : Uncut (front ++ middle) back := by
  intro high hhigh
  rw [getLast?_append_of_ne_nil front hne] at hhigh
  exact h high hhigh

theorem Uncut.of_cons {unit : UInt16} (h : Uncut (unit :: front) back) :
    Uncut front back := by
  intro last hlast
  cases front with
  | nil => cases hlast
  | cons unit others => exact h last (by simpa using hlast)

theorem Uncut.of_append_right (h : Uncut front (middle ++ back))
    (hne : middle ≠ []) : Uncut front middle := by
  intro high hhigh low hlow
  refine h high hhigh low ?_
  rw [head?_append_of_ne_nil middle hne]
  exact hlow

variable {unit : UInt16}

theorem not_low_of_high (h : isHighSurrogate unit = true) :
    isLowSurrogate unit = false := by
  simp only [isHighSurrogate, isLowSurrogate, Bool.and_eq_true,
    decide_eq_true_eq, Bool.and_eq_false_iff, decide_eq_false_iff_not] at *
  omega

theorem uncut_of_head (h : ∀ low ∈ back.head?, isLowSurrogate low = false)
    (front : JsStr) : Uncut front back := by
  intro high _ low hlow
  rw [h low hlow, Bool.and_false]

/-- A well-formed text does not begin with a low surrogate. -/
theorem head_of_isWellFormed (h : isWellFormed text = true) :
    ∀ low ∈ text.head?, isLowSurrogate low = false := by
  intro unit hunit
  match text with
  | [] => cases hunit
  | [only] =>
    obtain rfl := Option.some.inj hunit
    simp only [isWellFormed, Bool.and_eq_true, Bool.not_eq_true'] at h
    exact h.2
  | high :: low :: rest =>
    obtain rfl := Option.some.inj hunit
    by_cases hpair : (isHighSurrogate high && isLowSurrogate low) = true
    · rw [Bool.and_eq_true] at hpair
      exact not_low_of_high hpair.1
    · rw [isWellFormed, if_neg hpair] at h
      simp only [Bool.and_eq_true, Bool.not_eq_true'] at h
      exact h.1.2

theorem uncut_of_isWellFormed (h : isWellFormed back = true)
    (front : JsStr) : Uncut front back :=
  uncut_of_head (head_of_isWellFormed h) front

theorem utf8Length_append_of_uncut {front back : JsStr} (h : Uncut front back) :
    utf8Length (front ++ back) = utf8Length front + utf8Length back := by
  match front with
  | [] => simp [utf8Length]
  | [unit] =>
    cases back with
    | nil => simp [utf8Length]
    | cons low rest =>
      have hpair := h unit rfl low rfl
      simp [utf8Length, hpair]
  | high :: low :: rest =>
    by_cases hpair : (isHighSurrogate high && isLowSurrogate low) = true
    · have ih := utf8Length_append_of_uncut h.of_cons.of_cons
      simp only [cons_append, utf8Length, hpair, if_true, ih]
      omega
    · have ih := utf8Length_append_of_uncut h.of_cons
      simp only [cons_append] at ih
      simp only [cons_append, utf8Length, hpair, if_false,
        Bool.false_eq_true, ih]
      omega

theorem utf8Length_pos (h : text ≠ []) : 0 < utf8Length text := by
  have hlength := length_le_utf8Length text
  have hpos := length_pos_of_ne_nil h
  omega

theorem utf8Size_le (code : Nat) : utf8Size code ≤ 4 := by
  unfold utf8Size
  split_ifs <;> decide

/-- The code point at the front of a text. -/
def firstChar (text : JsStr) : JsStr :=
  text.take (charLength text)

def afterFirst (text : JsStr) : JsStr :=
  text.drop (charLength text)

theorem firstChar_append_afterFirst (text : JsStr) :
    firstChar text ++ afterFirst text = text :=
  take_append_drop _ _

theorem firstChar_ne_nil (h : text ≠ []) : firstChar text ≠ [] := by
  have hpos := charLength_pos text
  have hlength := length_pos_of_ne_nil h
  exact ne_nil_of_length_pos (by
    rw [firstChar, length_take]
    omega)

theorem length_firstChar (h : text ≠ []) :
    (firstChar text).length = charLength text := by
  rw [firstChar, length_take, Nat.min_eq_left]
  match text with
  | [] => exact absurd rfl h
  | [unit] =>
    have hunit := toNat_le unit
    rw [charLength, codePoint, if_neg (Nat.not_lt.mpr hunit)]
    exact Nat.le_refl 1
  | high :: low :: rest =>
    rw [charLength]
    split
    · exact Nat.le_add_left 2 rest.length
    · exact Nat.le_add_left 1 (rest.length + 1)

/-- A code point ends where no pair is cut. -/
theorem uncut_firstChar (text : JsStr) :
    Uncut (firstChar text) (afterFirst text) := by
  match text with
  | [] => exact uncut_nil_left _
  | [unit] =>
    rw [afterFirst, drop_of_length_le (charLength_pos [unit])]
    exact uncut_nil_right _
  | high :: low :: rest =>
    by_cases hpair : (isHighSurrogate high && isLowSurrogate low) = true
    · have hcode : 0xFFFF < codePoint (high :: low :: rest) := by
        rw [codePoint, if_pos hpair]
        omega
      rw [firstChar, afterFirst, charLength, if_pos hcode]
      intro unit hunit other _
      change some low = some unit at hunit
      obtain rfl := Option.some.inj hunit
      rw [Bool.and_eq_true] at hpair
      have hnot : isHighSurrogate low = false := by
        by_contra hhigh
        have hlow := not_low_of_high ((Bool.not_eq_false _).mp hhigh)
        rw [hpair.2] at hlow
        cases hlow
      rw [hnot, Bool.false_and]
    · have hcode : codePoint (high :: low :: rest) = high.toNat := by
        rw [codePoint, if_neg hpair]
      have hhigh := toNat_le high
      rw [firstChar, afterFirst, charLength, hcode,
        if_neg (Nat.not_lt.mpr hhigh)]
      intro unit hunit other hother
      obtain rfl := Option.some.inj hunit
      obtain rfl := Option.some.inj hother
      exact (Bool.not_eq_true _).mp hpair

theorem utf8Length_firstChar (h : text ≠ []) :
    utf8Length (firstChar text) = utf8Size (codePoint text) := by
  have hall := utf8Length_eq h
  have hcut := utf8Length_append_of_uncut (uncut_firstChar text)
  rw [firstChar_append_afterFirst] at hcut
  have hafter : utf8Length (text.drop (charLength text)) =
      utf8Length (afterFirst text) := rfl
  omega

theorem codePoint_of_le {rest : JsStr}
    (h : ¬ 0xFFFF < codePoint (unit :: rest)) :
    codePoint (unit :: rest) = unit.toNat := by
  cases rest with
  | nil => rfl
  | cons low rest =>
    rw [codePoint] at h ⊢
    split
    · next hpair =>
      rw [if_pos hpair] at h
      omega
    · rfl

theorem le_of_utf8Size {code : Nat} (h : utf8Size code = 1) : code ≤ 0x7F := by
  by_contra hlarge
  rw [utf8Size, if_neg hlarge] at h
  split_ifs at h
  · omega
  · omega
  · omega

/-- A text of as many bytes as code units has one byte for each. -/
theorem le_of_eq_length (h : utf8Length text = text.length) :
    ∀ unit ∈ text, unit.toNat ≤ 0x7F := by
  induction text with
  | nil => exact fun unit hmem => absurd hmem not_mem_nil
  | cons unit rest ih =>
    have hrest : utf8Length rest = rest.length := by
      have hdrop := utf8Length_drop_of_eq_length h 1
      simpa using hdrop
    intro other hmem
    rcases mem_cons.mp hmem with rfl | hmem
    · have hcut := utf8Length_eq (cons_ne_nil other rest)
      have hlong := length_le_utf8Length (afterFirst (other :: rest))
      change utf8Length (other :: rest) = utf8Size _ +
        utf8Length (afterFirst (other :: rest)) at hcut
      by_cases hpair : 0xFFFF < codePoint (other :: rest)
      · have hsize := utf8Size_of_lt hpair
        have hafter : (afterFirst (other :: rest)).length + 1 ≥
            rest.length := by
          rw [afterFirst, charLength, if_pos hpair, length_drop, length_cons]
          omega
        rw [length_cons] at h
        omega
      · have hafter : afterFirst (other :: rest) = rest := by
          rw [afterFirst, charLength, if_neg hpair]
          rfl
        rw [hafter, hrest, h, length_cons] at hcut
        have hone : utf8Size (codePoint (other :: rest)) = 1 := by omega
        have hcode := codePoint_of_le hpair
        rw [hcode] at hone
        exact le_of_utf8Size hone
    · exact ih hrest other hmem

theorem not_high_of_le (h : unit.toNat ≤ 0x7F) :
    isHighSurrogate unit = false := by
  simp only [isHighSurrogate, Bool.and_eq_false_iff, decide_eq_false_iff_not]
  omega

theorem utf8Length_of_le (h : ∀ unit ∈ text, unit.toNat ≤ 0x7F) :
    utf8Length text = text.length := by
  induction text with
  | nil => rfl
  | cons unit rest ih =>
    have hunit := h unit mem_cons_self
    have hrest := ih fun other hmem => h other (mem_cons_of_mem _ hmem)
    rw [utf8Length_cons (not_high_of_le hunit), hrest, utf8Size, if_pos hunit,
      length_cons, Nat.add_comm]

theorem uncut_of_le (h : ∀ unit ∈ front, unit.toNat ≤ 0x7F)
    (back : JsStr) : Uncut front back := by
  intro high hhigh low _
  rw [not_high_of_le (h high (mem_of_getLast? hhigh)), Bool.false_and]

theorem firstChar_of_le (h : unit.toNat ≤ 0x7F)
    (rest : JsStr) : firstChar (unit :: rest) = [unit] := by
  have hcode : ¬ 0xFFFF < codePoint (unit :: rest) := by
    cases rest with
    | nil =>
      rw [codePoint]
      omega
    | cons low rest =>
      rw [codePoint, not_high_of_le h, Bool.false_and, if_neg (by simp)]
      omega
  rw [firstChar, charLength, if_neg hcode]
  rfl

/-- A cut that cuts no pair leaves well-formed parts. -/
theorem isWellFormed_of_uncut {front back : JsStr} (hcut : Uncut front back)
    (h : isWellFormed (front ++ back) = true) :
    isWellFormed front = true ∧ isWellFormed back = true := by
  suffices hfront : isWellFormed front = true from
    ⟨hfront, by rw [← isWellFormed_append hfront back, h]⟩
  match front with
  | [] => rfl
  | [unit] =>
    cases back with
    | nil => exact h
    | cons low rest =>
      have hpair := hcut unit rfl low rfl
      simp only [cons_append, nil_append, isWellFormed, hpair,
        Bool.false_eq_true, if_false, Bool.and_eq_true] at h
      simpa only [isWellFormed, Bool.and_eq_true] using h.1
  | high :: low :: rest =>
    by_cases hpair : (isHighSurrogate high && isLowSurrogate low) = true
    · simp only [cons_append, isWellFormed, hpair, if_true] at h ⊢
      exact (isWellFormed_of_uncut hcut.of_cons.of_cons h).1
    · simp only [cons_append, isWellFormed, hpair, if_false,
        Bool.false_eq_true, Bool.and_eq_true] at h ⊢
      have hwhole : isWellFormed ((low :: rest) ++ back) = true := h.2
      exact ⟨h.1, (isWellFormed_of_uncut hcut.of_cons hwhole).1⟩

/-- Cutting before a unit that is no low surrogate leaves both parts well
formed. -/
theorem isWellFormed_of_append {front back : JsStr}
    (hback : ∀ unit ∈ back.head?, isLowSurrogate unit = false)
    (h : isWellFormed (front ++ back) = true) :
    isWellFormed front = true ∧ isWellFormed back = true :=
  isWellFormed_of_uncut (uncut_of_head hback front) h

theorem firstChar_cons_cons (high low : UInt16) (rest : JsStr) :
    firstChar (high :: low :: rest) =
      if isHighSurrogate high && isLowSurrogate low then [high, low]
      else [high] := by
  by_cases hpair : (isHighSurrogate high && isLowSurrogate low) = true
  · have hcode : 0xFFFF < codePoint (high :: low :: rest) := by
      rw [codePoint, if_pos hpair]
      omega
    rw [firstChar, charLength, if_pos hcode, if_pos hpair]
    rfl
  · have hhigh := toNat_le high
    have hcode : codePoint (high :: low :: rest) = high.toNat := by
      rw [codePoint, if_neg hpair]
    rw [firstChar, charLength, hcode, if_neg (Nat.not_lt.mpr hhigh),
      if_neg hpair]
    rfl

theorem firstChar_singleton (unit : UInt16) : firstChar [unit] = [unit] :=
  take_of_length_le (charLength_pos [unit])

/-- One character. -/
structure IsChar (char : JsStr) : Prop where
  ne_nil : char ≠ []
  whole : isWellFormed char = true
  single : firstChar char = char

theorem isChar_firstChar (h : isWellFormed text = true) (hne : text ≠ []) :
    IsChar (firstChar text) := by
  have hwhole := isWellFormed_of_uncut (uncut_firstChar text)
    (by rw [firstChar_append_afterFirst]; exact h)
  refine ⟨firstChar_ne_nil hne, hwhole.1, ?_⟩
  match text with
  | [] => exact absurd rfl hne
  | [unit] => rw [firstChar_singleton, firstChar_singleton]
  | high :: low :: rest =>
    rw [firstChar_cons_cons]
    split
    · next hpair => rw [firstChar_cons_cons, if_pos hpair]
    · exact firstChar_singleton high

/-- The parts of a character are no text of their own. -/
theorem IsChar.low_of_append {front back : JsStr} (h : IsChar (front ++ back))
    (hfront : front ≠ []) (hback : back ≠ []) (rest : JsStr) :
    isWellFormed (back ++ rest) = false := by
  obtain ⟨-, -, hsingle⟩ := h
  cases front with
  | nil => exact absurd rfl hfront
  | cons high front =>
    cases hrest : front ++ back with
    | nil => exact absurd (append_eq_nil_iff.mp hrest).2 hback
    | cons low others =>
      rw [cons_append, hrest, firstChar_cons_cons] at hsingle
      split at hsingle
      · next hpair =>
        obtain rfl : others = [] := by
          simpa using hsingle.symm
        have hlow : back = [low] := by
          cases front with
          | nil => exact hrest
          | cons unit front =>
            have htail := (cons.inj hrest).2
            exact absurd (append_eq_nil_iff.mp htail).2 hback
        rw [hlow, Bool.eq_false_iff]
        intro hwhole
        have hnot := head_of_isWellFormed hwhole low rfl
        rw [Bool.and_eq_true] at hpair
        rw [hpair.2] at hnot
        cases hnot
      · simp at hsingle

end JsString
