/-
Texts taken off a queue in pieces.  Some neighbours in a text belong together;
a cut of the joined texts splits such a bond when the bond lies in one of the
texts, and a queue that never cuts a bond of what it holds never cuts one of
what was put into it.
-/
import Mathlib.Data.List.Infix

namespace Pieces

open List

universe u

variable {α : Type u} {bond : α → α → Prop}

/-- The units next to the cut belong together. -/
def Bonded (bond : α → α → Prop) (front back : List α) : Prop :=
  ∃ left ∈ front.getLast?, ∃ right ∈ back.head?, bond left right

/-- The joined texts are cut after `front`, and that is inside a bond of one of
them. -/
def Splits (bond : α → α → Prop) (texts : List (List α))
    (front : List α) : Prop :=
  ∃ before part rest after, texts = before ++ (part ++ rest) :: after ∧
    Bonded bond part rest ∧ front = before.flatten ++ part

variable {front : List α}

theorem Bonded.ne_nil {back : List α} (h : Bonded bond front back) :
    front ≠ [] ∧ back ≠ [] := by
  obtain ⟨left, hleft, right, hright, -⟩ := h
  constructor
  · rintro rfl
    cases hleft
  · rintro rfl
    cases hright

/-- Only the units next to the cut count. -/
theorem Bonded.of_append {middle back : List α} (hne : middle ≠ [])
    (h : Bonded bond (front ++ middle) back) : Bonded bond middle back := by
  obtain ⟨left, hleft, hright⟩ := h
  rw [getLast?_append_of_ne_nil front hne] at hleft
  exact ⟨left, hleft, hright⟩

theorem not_splits_nil (texts : List (List α)) : ¬ Splits bond texts [] := by
  rintro ⟨before, part, rest, after, -, hbonded, hfront⟩
  exact hbonded.ne_nil.1 (append_eq_nil_iff.mp hfront.symm).2

theorem Splits.append {texts : List (List α)} (h : Splits bond texts front)
    (more : List (List α)) : Splits bond (texts ++ more) front := by
  obtain ⟨before, part, rest, after, rfl, hbonded, hfront⟩ := h
  refine ⟨before, part, rest, after ++ more, ?_, hbonded, hfront⟩
  rw [append_assoc, cons_append]

/-- A new text adds the bonds that lie in it. -/
theorem Splits.of_concat {texts : List (List α)} {text : List α}
    (h : Splits bond (texts ++ [text]) front) :
    Splits bond texts front ∨
      ∃ part rest, text = part ++ rest ∧ Bonded bond part rest ∧
        front = texts.flatten ++ part := by
  obtain ⟨before, part, rest, after, htexts, hbonded, rfl⟩ := h
  rcases eq_nil_or_concat after with rfl | ⟨more, last, rfl⟩
  · obtain ⟨rfl, hlast⟩ := append_inj' htexts rfl
    exact .inr ⟨part, rest, (cons.inj hlast).1, hbonded, rfl⟩
  · rw [concat_eq_append, ← cons_append, ← append_assoc]
      at htexts
    obtain ⟨rfl, -⟩ := append_inj' htexts rfl
    exact .inl ⟨before, part, rest, more, rfl, hbonded, rfl⟩

theorem not_splits_concat {texts : List (List α)}
    (h : ¬ Splits bond texts front) (hfront : front <+: texts.flatten)
    (text : List α) : ¬ Splits bond (texts ++ [text]) front := by
  intro hsplits
  rcases hsplits.of_concat with hold | ⟨part, rest, -, hbonded, rfl⟩
  · exact h hold
  · have hle := hfront.length_le
    rw [length_append] at hle
    have hpos := length_pos_of_ne_nil hbonded.ne_nil.1
    omega

/-- After `taken` the texts of `queue` remain of `texts`; a cut inside a bond
of the texts is a cut inside a bond of the queue. -/
structure Remains (bond : α → α → Prop) (texts : List (List α))
    (taken : List α) (queue : List (List α)) : Prop where
  joined : taken ++ queue.flatten = texts.flatten
  splits : ∀ front, Splits bond texts (taken ++ front) →
    Splits bond queue front

namespace Remains

open List

variable {texts queue : List (List α)} {taken : List α}

theorem refl (texts : List (List α)) : Remains bond texts [] texts :=
  ⟨rfl, fun _ hsplits => hsplits⟩

theorem trans {later : List (List α)} {more : List α}
    (h : Remains bond texts taken queue)
    (hlater : Remains bond queue more later) :
    Remains bond texts (taken ++ more) later where
  joined := by rw [append_assoc, hlater.joined, h.joined]
  splits front hsplits := by
    rw [append_assoc] at hsplits
    exact hlater.splits front (h.splits _ hsplits)

section

variable (h : Remains bond texts taken queue)
include h

theorem isPrefix :
    taken <+: texts.flatten :=
  ⟨queue.flatten, h.joined⟩

theorem not_splits :
    ¬ Splits bond texts taken := by
  intro hsplits
  rw [← append_nil taken] at hsplits
  exact not_splits_nil queue (h.splits [] hsplits)

theorem push (text : List α) :
    Remains bond (texts ++ [text]) taken (queue ++ [text]) where
  joined := by
    rw [flatten_append, flatten_append, ← append_assoc, h.joined]
  splits front hsplits := by
    rcases hsplits.of_concat with hold | ⟨part, rest, rfl, hbonded, hfront⟩
    · exact (h.splits front hold).append _
    · rw [← h.joined, append_assoc] at hfront
      exact ⟨queue, part, rest, [], rfl, hbonded, append_cancel_left hfront⟩

theorem push_nil :
    Remains bond (texts ++ [[]]) taken queue where
  joined := by
    rw [h.joined, flatten_append]
    exact (append_nil _).symm
  splits front hsplits := by
    rcases hsplits.of_concat with hold | ⟨part, rest, hnil, hbonded, -⟩
    · exact h.splits front hold
    · exact absurd (append_eq_nil_iff.mp hnil.symm).1 hbonded.ne_nil.1

end

theorem shift (text : List α) (queue : List (List α)) :
    Remains bond (text :: queue) text queue where
  joined := rfl
  splits front hsplits := by
    obtain ⟨before, part, rest, after, htexts, hbonded, hfront⟩ := hsplits
    cases before with
    | nil =>
      obtain ⟨rfl, rfl⟩ := cons.inj htexts
      have hnil : front ++ rest = [] := by
        rw [flatten_nil, nil_append] at hfront
        have hlength := congrArg List.length hfront
        rw [length_append, length_append] at hlength
        exact eq_nil_of_length_eq_zero (by
          rw [length_append]
          omega)
      exact absurd (append_eq_nil_iff.mp hnil).2 hbonded.ne_nil.2
    | cons first before =>
      obtain ⟨rfl, rfl⟩ := cons.inj htexts
      rw [flatten_cons, append_assoc] at hfront
      exact ⟨before, part, rest, after, rfl, hbonded,
        append_cancel_left hfront⟩

theorem cut {head tail : List α} (h : ¬ Bonded bond head tail)
    (queue : List (List α)) :
    Remains bond ((head ++ tail) :: queue) head (tail :: queue) where
  joined := by
    rw [flatten_cons, flatten_cons, append_assoc]
  splits front hsplits := by
    obtain ⟨before, part, rest, after, htexts, hbonded, hfront⟩ := hsplits
    cases before with
    | nil =>
      rw [flatten_nil, nil_append] at hfront
      subst hfront
      obtain ⟨htext, rfl⟩ := cons.inj htexts
      rw [append_assoc] at htext
      obtain rfl := append_cancel_left htext
      by_cases hnil : front = []
      · subst hnil
        rw [append_nil] at hbonded
        exact absurd hbonded h
      · exact ⟨[], front, rest, queue, rfl, hbonded.of_append hnil, rfl⟩
    | cons first before =>
      obtain ⟨rfl, rfl⟩ := cons.inj htexts
      rw [flatten_cons, append_assoc, append_assoc] at hfront
      refine ⟨tail :: before, part, rest, after, rfl, hbonded, ?_⟩
      rw [flatten_cons, append_assoc]
      exact append_cancel_left hfront

end Remains

end Pieces
