/-
Searching a list for a block: `List.dropInfix?` splits at the first occurrence.
An occurrence is the first one when none is complete before its last element.
-/
import Mathlib.Data.List.Infix

namespace Search

open List

universe u

variable {α : Type u} [DecidableEq α] {needle text before after : List α}

theorem dropPrefix?_eq_some : text.dropPrefix? needle = some after ↔
    text = needle ++ after := by
  simp [dropPrefix?_eq_some_iff]

theorem dropPrefix?_eq_none :
    text.dropPrefix? needle = none ↔ ¬ needle <+: text := by
  constructor
  · rintro hnone ⟨after, hafter⟩
    rw [dropPrefix?_eq_some.mpr hafter.symm] at hnone
    cases hnone
  · intro h
    cases hdrop : text.dropPrefix? needle with
    | none => rfl
    | some after => exact absurd ⟨after, (dropPrefix?_eq_some.mp hdrop).symm⟩ h

theorem dropPrefix?_append (needle after : List α) :
    (needle ++ after).dropPrefix? needle = some after :=
  dropPrefix?_eq_some.mpr rfl

theorem dropSuffix?_eq_some : text.dropSuffix? needle = some before ↔
    text = before ++ needle := by
  simp [dropSuffix?_eq_some_iff]

theorem length_dropLast_lt {α : Type u} {needle : List α} (h : needle ≠ []) :
    needle.dropLast.length < needle.length := by
  have hpos := length_pos_iff.mpr h
  rw [length_dropLast]
  omega

/-- The occurrence after `before` is the first one exactly when the block does
not occur in `before` and the block without its last element. -/
theorem dropInfix?_eq_some (hne : needle ≠ []) :
    text.dropInfix? needle = some (before, after) ↔
      text = before ++ needle ++ after ∧
        ¬ needle <:+: before ++ needle.dropLast := by
  have hlast := length_dropLast_lt hne
  have hpart : needle.dropLast <+: needle := dropLast_prefix needle
  rw [dropInfix?_eq_some_iff]
  simp only [beq_iff_eq, exists_eq_right, ge_iff_le]
  constructor
  · rintro ⟨rfl, hfirst⟩
    refine ⟨rfl, ?_⟩
    rintro ⟨front, back, hsplit⟩
    obtain ⟨last, hneedle⟩ := hpart
    have htext : before ++ needle ++ after =
        front ++ needle ++ (back ++ last ++ after) := by
      calc
        before ++ needle ++ after =
            before ++ (needle.dropLast ++ last) ++ after := by rw [hneedle]
        _ = before ++ needle.dropLast ++ last ++ after := by
          simp only [append_assoc]
        _ = front ++ needle ++ back ++ last ++ after := by rw [hsplit]
        _ = front ++ needle ++ (back ++ last ++ after) := by
          simp only [append_assoc]
    have hle := hfirst front needle _ htext rfl
    have hlength := congrArg List.length hsplit
    simp only [length_append] at hlength
    omega
  · rintro ⟨rfl, hfirst⟩
    refine ⟨rfl, ?_⟩
    intro front block back htext hblock
    rw [hblock] at htext
    by_contra hshorter
    apply hfirst
    have hearly : front ++ needle <+: before ++ needle ++ after :=
      ⟨back, htext.symm⟩
    have hlate : before ++ needle.dropLast <+: before ++ needle ++ after := by
      rw [append_assoc]
      exact (prefix_append_right_inj _).mpr (hpart.trans (prefix_append _ _))
    have hinside : front ++ needle <+: before ++ needle.dropLast := by
      refine prefix_of_prefix_length_le hearly hlate ?_
      simp only [length_append, length_dropLast] at hlast ⊢
      omega
    exact infix_append_right.trans hinside.isInfix

theorem dropInfix?_eq_none :
    text.dropInfix? needle = none ↔ ¬ needle <:+: text := by
  constructor
  · rintro hnone ⟨front, back, rfl⟩
    have hgo : ∀ (text reversed : List α), needle <:+: text →
        (List.dropInfix?.go needle text reversed).isSome = true := by
      intro text
      induction text with
      | nil =>
        intro reversed h
        simp [List.dropInfix?.go, infix_nil.mp h]
      | cons head tail ih =>
        intro reversed h
        unfold List.dropInfix?.go
        split
        · next hdrop =>
          refine ih _ ((infix_cons_iff.mp h).resolve_left ?_)
          rintro ⟨rest, hrest⟩
          rw [← hrest, dropPrefix?_append] at hdrop
          cases hdrop
        · rfl
    have hsome := hgo _ [] ⟨front, back, rfl⟩
    rw [List.dropInfix?] at hnone
    rw [hnone] at hsome
    cases hsome
  · intro habsent
    cases hfind : text.dropInfix? needle with
    | none => rfl
    | some parts =>
      obtain ⟨⟨i, hsplit, heq⟩, -⟩ := dropInfix?_eq_some_iff.mp hfind
      rw [beq_iff_eq] at heq
      exact absurd ⟨parts.1, parts.2, by rw [hsplit, heq]⟩ habsent

/-- What is left after the block is shorter than the text. -/
theorem length_after_lt (hne : needle ≠ [])
    (h : text.dropInfix? needle = some (before, after)) :
    after.length < text.length := by
  obtain ⟨rfl, -⟩ := (dropInfix?_eq_some hne).mp h
  have hpos := length_pos_iff.mpr hne
  simp only [length_append]
  omega

end Search

/-! Where a needle stands in a text, and the occurrences that a search from
the left counts when it goes on behind each one that it has found. -/

namespace Occurrences

open List

universe u

variable {α : Type u} {needle text before after b a : List α}

/-- An occurrence is known by what is before it and after it. -/
def At (needle text before after : List α) : Prop :=
  text = before ++ needle ++ after

structure First (needle text before after : List α) : Prop where
  occurs : At needle text before after
  least : ∀ b a, At needle text b a → before.length ≤ b.length

/-- Each occurrence is the first behind the one counted before it. -/
inductive Counted (needle : List α) : List α → List α → List α → Prop
  | first {text before after : List α} (h : First needle text before after) :
      Counted needle text before after
  | next {text before after b a : List α} (h : First needle text before after)
      (hrest : Counted needle after b a) :
      Counted needle text (before ++ needle ++ b) a

theorem At.eq_of_length (h : At needle text before after)
    (h' : At needle text b a) (hlength : before.length = b.length) :
    before = b ∧ after = a := by
  rw [At, append_assoc] at h h'
  obtain ⟨hbefore, hrest⟩ := append_inj (h.symm.trans h') hlength
  exact ⟨hbefore, append_cancel_left hrest⟩

theorem First.unique (h : First needle text before after)
    (h' : First needle text b a) : before = b ∧ after = a :=
  h.occurs.eq_of_length h'.occurs
    (Nat.le_antisymm (h.least _ _ h'.occurs) (h'.least _ _ h.occurs))

theorem Counted.occurs (h : Counted needle text before after) :
    At needle text before after := by
  induction h with
  | first h => exact h.occurs
  | @next text before after b a h _ ih =>
    have htext : text = before ++ needle ++ after := h.occurs
    have hrest : after = b ++ needle ++ a := ih
    rw [At, htext, hrest]
    simp [append_assoc]

/-- What is counted is the first occurrence or is counted behind it. -/
theorem counted_iff (h : First needle text before after) :
    Counted needle text b a ↔ b = before ∧ a = after ∨
        ∃ c, b = before ++ needle ++ c ∧ Counted needle after c a := by
  constructor
  · intro hcounted
    cases hcounted with
    | first h' =>
      obtain ⟨rfl, rfl⟩ := h.unique h'
      exact .inl ⟨rfl, rfl⟩
    | @next _ before' after' c _ h' hrest =>
      obtain ⟨rfl, rfl⟩ := h.unique h'
      exact .inr ⟨c, rfl, hrest⟩
  · rintro (⟨rfl, rfl⟩ | ⟨c, rfl, hrest⟩)
    · exact .first h
    · exact .next h hrest

theorem not_counted (h : ∀ b a, ¬ At needle text b a) :
    ¬ Counted needle text before after :=
  fun hcounted => h _ _ hcounted.occurs

theorem At.exists_first (h : At needle text b a) :
    ∃ before after, First needle text before after := by
  induction hn : b.length using Nat.strongRecOn generalizing b a with
  | ind n ih =>
    by_cases hearlier : ∃ b' a', At needle text b' a' ∧ b'.length < b.length
    · obtain ⟨b', a', h', hlt⟩ := hearlier
      exact ih b'.length (hn ▸ hlt) h' rfl
    · exact ⟨b, a, h, fun b' a' h' =>
        Nat.le_of_not_lt fun hlt => hearlier ⟨b', a', h', hlt⟩⟩

/-- No occurrence that begins before `b` ends behind it. -/
def Apart (needle text b : List α) : Prop :=
  ∀ before after, At needle text before after → before.length < b.length →
    before.length + needle.length ≤ b.length

/-- No end of the needle is a beginning of it. -/
def Unbordered (needle : List α) : Prop :=
  ∀ k < needle.length, 0 < k → needle.drop k ≠ needle.take (needle.length - k)

instance [DecidableEq α] : Decidable (Unbordered needle) :=
  inferInstanceAs (Decidable (∀ k < needle.length, 0 < k →
    needle.drop k ≠ needle.take (needle.length - k)))

/-- An unbordered needle never overlaps itself. -/
theorem At.apart (hneedle : Unbordered needle) (h : At needle text b a) :
    Apart needle text b := by
  intro before after hat hlt
  have hstart : text.drop before.length = needle ++ after := by
    rw [hat, append_assoc, drop_left]
  have hstart' : text.drop b.length = needle ++ a := by
    rw [h, append_assoc, drop_left]
  by_contra hover
  obtain ⟨k, hk⟩ : ∃ k, b.length = before.length + k :=
    ⟨b.length - before.length, by omega⟩
  apply hneedle k (by omega) (by omega)
  have hshared : (needle ++ after).drop k = needle ++ a := by
    rw [← hstart, drop_drop, ← hk, hstart']
  have htake := congrArg (List.take (needle.length - k)) hshared
  rw [drop_append_of_le_length (by omega), take_append_of_le_length
    (by simp), take_append_of_le_length (by omega)] at htake
  rw [← htake, take_of_length_le (by simp)]

/-- An occurrence behind another one stands in what follows it. -/
theorem At.behind (h : At needle text before after) (h' : At needle text b a)
    (hle : before.length + needle.length ≤ b.length) :
    ∃ c, b = before ++ needle ++ c ∧ At needle after c a := by
  have htext : before ++ needle ++ after = b ++ (needle ++ a) := by
    rw [← append_assoc]
    exact h.symm.trans h'
  rcases append_eq_append_iff.mp htext with
    ⟨c, hb, hrest⟩ | ⟨c, hshort, hrest⟩
  · exact ⟨c, hb, by rw [At, hrest, append_assoc]⟩
  · have hc : c = [] := by
      have hlength := congrArg List.length hshort
      simp only [length_append] at hlength
      exact length_eq_zero_iff.mp (by omega)
    subst hc
    rw [append_nil] at hshort
    refine ⟨[], by rw [append_nil, hshort], ?_⟩
    rw [At, nil_append]
    exact hrest.symm

/-- An occurrence that none before it overlaps is counted. -/
theorem At.counted (hne : needle ≠ []) (h : At needle text b a)
    (hapart : Apart needle text b) : Counted needle text b a := by
  induction hn : b.length using Nat.strongRecOn generalizing text b with
  | ind n ih =>
    obtain ⟨before, after, hfirst⟩ := h.exists_first
    rw [counted_iff hfirst]
    by_cases heq : before.length = b.length
    · obtain ⟨rfl, rfl⟩ := hfirst.occurs.eq_of_length h heq
      exact .inl ⟨rfl, rfl⟩
    · have hle := hfirst.least b a h
      obtain ⟨c, rfl, hrest⟩ := hfirst.occurs.behind h
        (hapart before after hfirst.occurs (by omega))
      have hpos : 0 < needle.length := length_pos_iff.mpr hne
      have hrestApart : Apart needle after c := by
        intro c' a' hat hlt
        have hbehind : At needle text (before ++ needle ++ c') a' := by
          rw [At, hfirst.occurs, hat]
          simp only [append_assoc]
        have hshort := hapart _ _ hbehind (by simp only [length_append]; omega)
        simp only [length_append] at hshort
        omega
      simp only [length_append] at hn
      exact .inr ⟨c, rfl, ih c.length (by omega) hrest hrestApart rfl⟩

end Occurrences
