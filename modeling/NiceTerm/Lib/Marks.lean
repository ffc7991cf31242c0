/-
Marks in a text that comes in pieces.  Where no mark has the first element of a
mark further on, a mark that is complete in the front of a text is found
whatever follows, and only the longest end that may begin a mark must be kept.
-/
import Mathlib.Data.List.Infix

namespace Marks

open List

universe u

variable {α : Type u} {marks : List (List α)} {text x y mark other : List α}
  {i j : Nat}

/-- A mark stands behind the first `i` elements of the text. -/
def At (marks : List (List α)) (text : List α) (i : Nat) (mark : List α) :
    Prop :=
  mark ∈ marks ∧ mark <+: text.drop i

structure First (marks : List (List α)) (text : List α) (i : Nat)
    (mark : List α) : Prop where
  here : At marks text i mark
  least : ∀ j other, At marks text j other → i ≤ j

def Unmarked (marks : List (List α)) (text : List α) : Prop :=
  ∀ i mark, ¬ At marks text i mark

/-- No mark is empty, begins another, or has further on what a mark begins
with. -/
structure Headed (marks : List (List α)) : Prop where
  ne_nil : ∀ mark ∈ marks, mark ≠ []
  head : ∀ mark ∈ marks, ∀ other ∈ marks, ∀ a ∈ mark.tail, other.head? ≠ some a
  eq_of_prefix : ∀ mark ∈ marks, ∀ other ∈ marks, mark <+: other → mark = other

/-- A mark begins in the one text and ends in the other. -/
def Straddles (marks : List (List α)) (x y : List α) : Prop :=
  ∃ i mark, At marks (x ++ y) i mark ∧ i < x.length ∧
    x.length < i + mark.length

instance [DecidableEq α] (x y : List α) : Decidable (Straddles marks x y) :=
  decidable_of_iff (∃ i, i < x.length ∧ ∃ mark ∈ marks,
      mark <+: (x ++ y).drop i ∧ x.length < i + mark.length)
    ⟨fun ⟨i, hlt, mark, hmem, hprefix, hover⟩ =>
        ⟨i, mark, ⟨hmem, hprefix⟩, hlt, hover⟩,
      fun ⟨i, mark, hat, hlt, hover⟩ =>
        ⟨i, hlt, mark, hat.1, hat.2, hover⟩⟩

/-- The text may be the beginning of a mark. -/
def Begun (marks : List (List α)) (text : List α) : Prop :=
  ∃ mark ∈ marks, text <+: mark

/-- The longest end of the text that may begin a mark. -/
structure Longest (marks : List (List α)) (text rest : List α) : Prop where
  isSuffix : rest <:+ text
  begun : Begun marks rest
  longest : ∀ longer, longer <:+ text → Begun marks longer →
    longer.length ≤ rest.length

theorem At.length_le (h : At marks text i mark) :
    mark.length ≤ text.length - i := by
  rw [← length_drop]
  exact h.2.length_le

theorem At.lt_length (hmarks : Headed marks) (h : At marks text i mark) :
    i + mark.length ≤ text.length := by
  have hpos := length_pos_iff.mpr (hmarks.ne_nil mark h.1)
  have hle := h.length_le
  omega

theorem At.append (hmarks : Headed marks) (h : At marks x i mark)
    (y : List α) : At marks (x ++ y) i mark := by
  have hlength := h.lt_length hmarks
  refine ⟨h.1, ?_⟩
  rw [drop_append_of_le_length (by omega)]
  exact h.2.trans (prefix_append _ _)

theorem At.of_append (h : At marks (x ++ y) i mark)
    (hwithin : i + mark.length ≤ x.length) : At marks x i mark := by
  refine ⟨h.1, ?_⟩
  have hprefix := h.2
  rw [drop_append_of_le_length (by omega)] at hprefix
  refine prefix_of_prefix_length_le hprefix (prefix_append _ _) ?_
  rw [length_drop]
  omega

theorem at_append_right {k : Nat} :
    At marks (x ++ y) (x.length + k) mark ↔ At marks y k mark := by
  rw [At, At, drop_append, drop_eq_nil_of_le (by omega),
    nil_append, Nat.add_sub_cancel_left]

/-- A mark that stands where one begins reaches no further than the next. -/
theorem At.apart (hmarks : Headed marks) (h : At marks text i mark)
    (h' : At marks text j other) (hlt : i < j) : i + mark.length ≤ j := by
  by_contra hover
  obtain ⟨k, rfl⟩ : ∃ k, j = i + (k + 1) := ⟨j - i - 1, by omega⟩
  have hk : k + 1 < mark.length := by omega
  have hmark : mark[k + 1]? = text[i + (k + 1)]? := by
    obtain ⟨back, hback⟩ := h.2
    have hdrop : (text.drop i)[k + 1]? = text[i + (k + 1)]? :=
      getElem?_drop
    rw [← hdrop, ← hback, getElem?_append_left hk]
  have hother : other.head? = text[i + (k + 1)]? := by
    obtain ⟨back, hback⟩ := h'.2
    have hpos := length_pos_iff.mpr (hmarks.ne_nil other h'.1)
    have hdrop : (text.drop (i + (k + 1)))[0]? = text[i + (k + 1)]? :=
      getElem?_drop
    rw [head?_eq_getElem?, ← hdrop, ← hback, getElem?_append_left hpos]
  have htail : mark[k + 1] ∈ mark.tail := by
    rw [← drop_one]
    exact mem_of_getElem? (by
      rw [getElem?_drop, Nat.add_comm, getElem?_eq_getElem hk])
  refine hmarks.head mark h.1 other h'.1 _ htail ?_
  rw [hother, ← hmark, getElem?_eq_getElem hk]

theorem First.unique (hmarks : Headed marks) (h : First marks text i mark)
    (h' : First marks text j other) : i = j ∧ mark = other := by
  obtain rfl : i = j :=
    Nat.le_antisymm (h.least _ _ h'.here) (h'.least _ _ h.here)
  refine ⟨rfl, ?_⟩
  rcases prefix_or_prefix_of_prefix h.here.2 h'.here.2 with hle | hle
  · exact hmarks.eq_of_prefix mark h.here.1 other h'.here.1 hle
  · exact (hmarks.eq_of_prefix other h'.here.1 mark h.here.1 hle).symm

/-- The first mark of the front is the first mark of the whole. -/
theorem First.append (hmarks : Headed marks) (h : First marks x i mark)
    (y : List α) : First marks (x ++ y) i mark := by
  refine ⟨h.here.append hmarks y, fun j other hother => ?_⟩
  by_contra hlt
  have hapart := hother.apart hmarks (h.here.append hmarks y)
    (Nat.lt_of_not_le hlt)
  have hlength := h.here.lt_length hmarks
  exact hlt (h.least j other (hother.of_append (by omega)))

/-- A text in front of all marks only moves them. -/
theorem First.behind (hfront : ∀ j other, At marks (x ++ y) j other →
    x.length ≤ j) (h : First marks y i mark) :
    First marks (x ++ y) (x.length + i) mark := by
  refine ⟨at_append_right.mpr h.here, fun j other hother => ?_⟩
  obtain ⟨k, rfl⟩ := Nat.exists_eq_add_of_le (hfront j other hother)
  exact Nat.add_le_add_left (h.least k other (at_append_right.mp hother)) _

theorem unmarked_behind (hfront : ∀ j other, At marks (x ++ y) j other →
    x.length ≤ j) (h : Unmarked marks y) : Unmarked marks (x ++ y) := by
  intro j other hother
  obtain ⟨k, rfl⟩ := Nat.exists_eq_add_of_le (hfront j other hother)
  exact h k other (at_append_right.mp hother)

theorem not_straddles_nil (hmarks : Headed marks) : ¬ Straddles marks x [] := by
  rintro ⟨i, mark, hat, -, hover⟩
  rw [append_nil] at hat
  have hlength := hat.lt_length hmarks
  omega

theorem Straddles.append_left (h : Straddles marks x y) (front : List α) :
    Straddles marks (front ++ x) y := by
  obtain ⟨i, mark, hat, hbefore, hover⟩ := h
  refine ⟨front.length + i, mark, ?_, ?_, ?_⟩
  · rw [append_assoc]
    exact at_append_right.mpr hat
  · rw [length_append]
    omega
  · rw [length_append]
    omega

/-- Where no mark straddles the cut, the marks are those behind it. -/
theorem behind_of_not_straddles (hunmarked : Unmarked marks x)
    (hcut : ¬ Straddles marks x y) :
    ∀ j other, At marks (x ++ y) j other → x.length ≤ j := by
  intro j other hother
  by_contra hlt
  by_cases hwithin : j + other.length ≤ x.length
  · exact hunmarked j other (hother.of_append hwithin)
  · exact hcut ⟨j, other, hother, by omega, by omega⟩

/-- No mark begins in front of the longest end that may begin one. -/
theorem behind_of_longest {rest : List α} (hunmarked : Unmarked marks (x ++ rest))
    (hlongest : Longest marks (x ++ rest) rest) (y : List α) :
    ∀ j other, At marks (x ++ (rest ++ y)) j other → x.length ≤ j := by
  intro j other hother
  rw [← append_assoc] at hother
  by_contra hlt
  by_cases hwithin : j + other.length ≤ (x ++ rest).length
  · exact hunmarked j other (hother.of_append hwithin)
  · have hbegun : Begun marks ((x ++ rest).drop j) := by
      refine ⟨other, hother.1, ?_⟩
      have hprefix := hother.2
      rw [drop_append_of_le_length (by
        rw [length_append]
        omega)] at hprefix
      refine prefix_of_prefix_length_le (prefix_append _ y) hprefix ?_
      rw [length_drop]
      omega
    have hle := hlongest.longest _ (drop_suffix _ _) hbegun
    rw [length_drop, length_append] at hle
    omega

theorem Longest.unique {rest last : List α} (h : Longest marks text rest)
    (h' : Longest marks text last) : rest = last := by
  have hlength : rest.length = last.length :=
    Nat.le_antisymm (h'.longest rest h.isSuffix h.begun)
      (h.longest last h'.isSuffix h'.begun)
  exact (suffix_of_suffix_length_le h.isSuffix h'.isSuffix
    hlength.le).eq_of_length hlength

/-- What must be kept in the end does not depend on what is in front of what was
kept before. -/
theorem Longest.append {rest last : List α}
    (h : Longest marks (x ++ rest) rest) (h' : Longest marks (rest ++ y) last) :
    Longest marks (x ++ (rest ++ y)) last := by
  refine ⟨h'.isSuffix.trans (suffix_append _ _), h'.begun, ?_⟩
  rintro longer hsuffix ⟨mark, hmark, hprefix⟩
  rcases suffix_or_suffix_of_suffix hsuffix
    (suffix_append x (rest ++ y)) with hshort | hlong
  · exact h'.longest longer hshort ⟨mark, hmark, hprefix⟩
  · obtain ⟨front, rfl⟩ := hlong
    have hfront : (front ++ rest).length ≤ rest.length := by
      refine h.longest _ ?_ ⟨mark, hmark, ?_⟩
      · obtain ⟨z, hz⟩ := hsuffix
        refine ⟨z, ?_⟩
        rw [← append_assoc, ← append_assoc, ← append_assoc] at hz
        rw [← append_assoc]
        exact append_cancel_right hz
      · refine IsPrefix.trans ?_ hprefix
        rw [← append_assoc]
        exact prefix_append _ _
    rw [length_append] at hfront
    obtain rfl := length_eq_zero_iff.mp (by omega : front.length = 0)
    exact h'.longest _ suffix_rfl ⟨mark, hmark, hprefix⟩

end Marks
