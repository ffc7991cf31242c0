/-
Spans of positions that tile an initial stretch, in any order, and sequences
written piece by piece at given positions.
-/
import Mathlib.Data.List.Count
import Mathlib.Data.List.Perm.Basic

universe u

structure Span where
  start : Nat
  length : Nat
deriving DecidableEq, Repr

namespace Span

open List

def Covers (span : Span) (i : Nat) : Prop :=
  span.start ≤ i ∧ i < span.start + span.length

instance (span : Span) (i : Nat) : Decidable (span.Covers i) :=
  inferInstanceAs (Decidable (_ ∧ _))

/-- How many of the spans cover a position. -/
def coverage (spans : List Span) (i : Nat) : Nat :=
  spans.countP fun span => decide (span.Covers i)

def totalLength : List Span → Nat
  | [] => 0
  | span :: spans => span.length + totalLength spans

theorem coverage_append (front back : List Span) (i : Nat) :
    coverage (front ++ back) i = coverage front i + coverage back i :=
  countP_append

theorem coverage_cons (span : Span) (spans : List Span) (i : Nat) :
    coverage (span :: spans) i =
      (if span.Covers i then 1 else 0) + coverage spans i := by
  rw [coverage, countP_cons, coverage, Nat.add_comm]
  simp

theorem totalLength_append (front back : List Span) :
    totalLength (front ++ back) = totalLength front + totalLength back := by
  induction front with
  | nil => simp [totalLength]
  | cons span front ih =>
    rw [cons_append, totalLength, totalLength, ih, Nat.add_assoc]

theorem totalLength_perm {front back : List Span} (h : front.Perm back) :
    totalLength front = totalLength back := by
  induction h with
  | nil => rfl
  | cons span _ ih => rw [totalLength, totalLength, ih]
  | swap a b rest => simp only [totalLength]; omega
  | trans _ _ ihFront ihBack => rw [ihFront, ihBack]

/-- The spans fill the stretch from 0 to `stop` without gap and overlap. -/
inductive Tiles : Nat → List Span → Prop where
  | nil : Tiles 0 []
  | concat {stop : Nat} {spans : List Span} (length : Nat) :
      Tiles stop spans → Tiles (stop + length) (spans ++ [⟨stop, length⟩])
  | perm {stop : Nat} {front back : List Span} :
      Tiles stop front → front.Perm back → Tiles stop back

variable {spans : List Span}

theorem Tiles.coverage {stop : Nat} (h : Tiles stop spans) (i : Nat) :
    Span.coverage spans i = if i < stop then 1 else 0 := by
  induction h with
  | nil => rfl
  | @concat stop spans length _ ih =>
    rw [coverage_append, ih, coverage_cons]
    simp only [Covers, Span.coverage, countP_nil]
    grind
  | perm _ hperm ih =>
    rw [← ih]
    exact (hperm.countP_eq _).symm

theorem Tiles.totalLength {stop : Nat}
    (h : Tiles stop spans) : Span.totalLength spans = stop := by
  induction h with
  | nil => rfl
  | concat length _ ih =>
    exact (totalLength_append _ _).trans (congrArg (· + length) ih)
  | perm _ hperm ih => rw [← ih, totalLength_perm hperm]

theorem Tiles.stop_le {stop : Nat} (h : Tiles stop spans) :
    ∀ span ∈ spans, span.start + span.length ≤ stop := by
  induction h with
  | nil => exact fun _ hmem => absurd hmem not_mem_nil
  | concat length _ ih =>
    intro span hmem
    rcases mem_append.mp hmem with hmem | hmem
    · exact Nat.le_add_right_of_le (ih span hmem)
    · obtain rfl := mem_singleton.mp hmem
      exact Nat.le_refl _
  | perm _ hperm ih => exact fun span hmem => ih span (hperm.mem_iff.mpr hmem)

/-- One span and the others have no position in common. -/
theorem Tiles.apart {stop : Nat} {span : Span} {rest : List Span}
    (h : Tiles stop (span :: rest)) {other : Span} (hother : other ∈ rest)
    {i : Nat} (hi : span.Covers i) : ¬ other.Covers i := by
  intro hcovers
  have hcount := h.coverage i
  have hpos : 0 < Span.coverage rest i := by
    rw [Span.coverage, countP_pos_iff]
    exact ⟨other, hother, decide_eq_true hcovers⟩
  rw [Span.coverage, countP_cons_of_pos (by simpa using hi)] at hcount
  rw [Span.coverage] at hpos
  split at hcount <;> omega

end Span

/-- A piece of a sequence and where it belongs. -/
structure Piece (α : Type u) where
  start : Nat
  data : List α
deriving DecidableEq, Repr

namespace Piece

open List

variable {α : Type u}

def span (piece : Piece α) : Span := ⟨piece.start, piece.data.length⟩

/-- The piece stands in the sequence, where it belongs. -/
def In (piece : Piece α) (file : List α) : Prop :=
  ∀ k, k < piece.data.length → file[piece.start + k]? = piece.data[k]?

/-- A gap behind the end of the sequence is filled with `blank`. -/
def writeTo (blank : α) (piece : Piece α) (file : List α) : List α :=
  let padded := file ++ replicate (piece.start - file.length) blank
  padded.take piece.start ++ piece.data ++
    padded.drop (piece.start + piece.data.length)

theorem in_writeTo (blank : α) (piece : Piece α) (file : List α) :
    piece.In (piece.writeTo blank file) := by
  intro k hk
  have hlength : (file ++ replicate (piece.start - file.length) blank).length ≥
        piece.start := by
    simp only [length_append, length_replicate]
    omega
  rw [writeTo, append_assoc, getElem?_append_right]
  · rw [length_take, Nat.min_eq_left hlength, Nat.add_sub_cancel_left,
      getElem?_append_left hk]
  · rw [length_take]
    omega

/-- Positions that the piece does not cover stay as they are. -/
theorem getElem?_writeTo (blank : α) (piece : Piece α) {file : List α} {i : Nat}
    {a : α} (hi : file[i]? = some a) (hcovers : ¬ piece.span.Covers i) :
    (piece.writeTo blank file)[i]? = some a := by
  have hlt : i < file.length := (List.getElem?_eq_some_iff.mp hi).1
  have hpadded : (file ++
      replicate (piece.start - file.length) blank)[i]? = some a := by
    rw [getElem?_append_left hlt, hi]
  generalize hpad : file ++
    replicate (piece.start - file.length) blank = padded at hpadded
  have hlong : piece.start ≤ padded.length := by
    rw [← hpad, length_append, length_replicate]
    omega
  rw [writeTo, hpad]
  by_cases hfront : i < piece.start
  · rw [append_assoc, getElem?_append_left (by rw [length_take]; omega),
      getElem?_take_of_lt hfront, hpadded]
  · have hback : piece.start + piece.data.length ≤ i := by
      by_contra hlow
      exact hcovers ⟨Nat.le_of_not_lt hfront, by simp only [span]; omega⟩
    rw [getElem?_append_right (by
        rw [length_append, length_take]; omega),
      getElem?_drop, length_append, length_take,
      Nat.min_eq_left hlong]
    rw [Nat.add_sub_of_le hback, hpadded]

theorem In.writeTo {blank : α} {piece other : Piece α} {file : List α}
    (h : other.In file)
    (hapart : ∀ i, other.span.Covers i → ¬ piece.span.Covers i) :
    other.In (piece.writeTo blank file) := by
  intro k hk
  have hat := h k hk
  rw [getElem?_eq_getElem hk] at hat ⊢
  exact getElem?_writeTo blank piece hat
    (hapart _ ⟨Nat.le_add_right _ _, Nat.add_lt_add_left hk _⟩)

/-- The pieces follow each other from `start` on and make up the data. -/
inductive Laid (start : Nat) : List (Piece α) → List α → Prop where
  | nil : Laid start [] []
  | concat {pieces : List (Piece α)} {data : List α} (more : List α) :
      Laid start pieces data →
      Laid start (pieces ++ [⟨start + data.length, more⟩]) (data ++ more)

theorem Laid.coverage {start : Nat} {pieces : List (Piece α)} {data : List α}
    (h : Laid start pieces data) (i : Nat) :
    Span.coverage (pieces.map span) i =
      if (Span.mk start data.length).Covers i then 1 else 0 := by
  induction h with
  | nil =>
    rw [if_neg]
    · rfl
    · rintro ⟨hlow, hhigh⟩
      exact absurd hhigh (Nat.not_lt.mpr hlow)
  | @concat pieces data more _ ih =>
    rw [map_append, Span.coverage_append, ih, map_singleton,
      Span.coverage_cons, length_append]
    simp only [Span.Covers, span, Span.coverage, countP_nil]
    grind

theorem Laid.in {start : Nat} {pieces : List (Piece α)} {data file : List α}
    (h : Laid start pieces data) (hin : Piece.In ⟨start, data⟩ file) :
    ∀ piece ∈ pieces, piece.In file := by
  induction h with
  | nil => exact fun _ hmem => absurd hmem not_mem_nil
  | @concat pieces data more _ ih =>
    intro piece hmem
    rcases mem_append.mp hmem with hmem | hmem
    · refine ih ?_ piece hmem
      intro k hk
      have hlong : k < (data ++ more).length := by
        rw [length_append]
        exact Nat.lt_add_right _ hk
      have hat := hin k hlong
      rwa [getElem?_append_left hk] at hat
    · rw [mem_singleton.mp hmem]
      intro k hk
      have hlong : data.length + k < (data ++ more).length := by
        rw [length_append]
        exact Nat.add_lt_add_left hk _
      have hat := hin (data.length + k) hlong
      rw [getElem?_append_right (Nat.le_add_right _ _),
        Nat.add_sub_cancel_left] at hat
      rw [Nat.add_assoc]
      exact hat

end Piece
