/-
A machine that is fed in calls and keeps only a part of its state between two
of them.  The calls do what one call does with everything if what is kept is
enough to go on at each cut.
-/
import Mathlib.Data.List.Infix

universe u v w x

/-- `resume` rebuilds the state of the machine from what `save` has kept. -/
structure Resuming (α : Type u) (ω : Type v) (σ : Type w) (τ : Type x) where
  resume : τ → σ
  save : σ → τ
  step : σ → α → σ × List ω

namespace Resuming

variable {α : Type u} {ω : Type v} {σ : Type w} {τ : Type x}
variable (M : Resuming α ω σ τ)

/-- The state at the end of the input, and what has been put out. -/
def run (s : σ) : List α → σ × List ω
  | [] => (s, [])
  | a :: input =>
    let next := M.step s a
    let rest := run next.1 input
    (rest.1, next.2 ++ rest.2)

variable (t : τ)

/-- One call; a call without input does nothing. -/
def call (input : List α) : τ × List ω :=
  if input.isEmpty then (t, [])
  else
    let done := M.run (M.resume t) input
    (M.save done.1, done.2)

def calls (t : τ) : List (List α) → τ × List ω
  | [] => (t, [])
  | input :: inputs =>
    let first := M.call t input
    let rest := calls first.1 inputs
    (rest.1, first.2 ++ rest.2)

/-- What is kept behind `front` is enough to go on. -/
def ResumesAfter (front : List α) : Prop :=
  front ≠ [] → M.resume (M.call t front).1 = (M.run (M.resume t) front).1

@[simp] theorem call_nil : M.call t [] = (t, []) := rfl

theorem call_of_ne_nil {input : List α} (h : input ≠ []) :
    M.call t input = (M.save (M.run (M.resume t) input).1,
      (M.run (M.resume t) input).2) := by
  cases input with
  | nil => exact absurd rfl h
  | cons a input => rfl

theorem run_append (s : σ) (front back : List α) :
    M.run s (front ++ back) = ((M.run (M.run s front).1 back).1,
      (M.run s front).2 ++ (M.run (M.run s front).1 back).2) := by
  induction front generalizing s with
  | nil => rfl
  | cons a front ih =>
    simp only [List.cons_append, run, ih, List.append_assoc]

theorem calls_append (front back : List (List α)) :
    M.calls t (front ++ back) = ((M.calls (M.calls t front).1 back).1,
      (M.calls t front).2 ++ (M.calls (M.calls t front).1 back).2) := by
  induction front generalizing t with
  | nil => rfl
  | cons input front ih =>
    simp only [List.cons_append, calls, ih, List.append_assoc]

theorem calls_concat (front : List (List α)) (back : List α) :
    M.calls t (front ++ [back]) = ((M.call (M.calls t front).1 back).1,
      (M.calls t front).2 ++ (M.call (M.calls t front).1 back).2) := by
  simp only [calls_append, calls, List.append_nil]

/-- Going on where the machine can go on is one call with both inputs. -/
theorem call_append {t : τ} {front : List α} (h : M.ResumesAfter t front)
    (back : List α) :
    M.call t (front ++ back) = ((M.call (M.call t front).1 back).1,
      (M.call t front).2 ++ (M.call (M.call t front).1 back).2) := by
  by_cases hfront : front = []
  · subst hfront
    rfl
  by_cases hback : back = []
  · subst hback
    simp
  have hne : front ++ back ≠ [] := by simp [hfront]
  rw [M.call_of_ne_nil t hne, M.call_of_ne_nil _ hback, h hfront,
    M.run_append, M.call_of_ne_nil t hfront]

/-- If the calls so far are one call and the machine can go on from there, the
next call is a part of it as well. -/
theorem calls_concat_eq_call {t : τ} {front : List (List α)}
    (hfront : M.calls t front = M.call t front.flatten)
    (hresumes : M.ResumesAfter t front.flatten) (back : List α) :
    M.calls t (front ++ [back]) = M.call t (front ++ [back]).flatten := by
  rw [M.calls_concat, hfront, List.flatten_append, List.flatten_singleton,
    M.call_append hresumes]

end Resuming

/-! Reading a stream that arrives in pieces: a read of `n` items waits for as many
pieces as it takes, so that only what the pieces make together matters. -/

namespace ReadExact

open List

variable {α : Type u}

/-- `read_exact` on the pieces that arrive before the stream ends. -/
def readExact (n : Nat) : List (List α) → Option (List α × List (List α))
  | [] => if n = 0 then some ([], []) else none
  | piece :: pieces =>
    if n ≤ piece.length then some (piece.take n, piece.drop n :: pieces)
    else
      match readExact (n - piece.length) pieces with
      | some (items, rest) => some (piece ++ items, rest)
      | none => none

/-- The same on the stream as a whole. -/
def takeExact (n : Nat) (stream : List α) : Option (List α × List α) :=
  if n ≤ stream.length then some (stream.take n, stream.drop n) else none

theorem takeExact_append (items rest : List α) :
    takeExact items.length (items ++ rest) = some (items, rest) := by
  rw [takeExact, if_pos, take_left, drop_left]
  rw [length_append]
  exact Nat.le_add_right _ _

/-- A read takes the beginning of the stream, or the stream is too short. -/
inductive Read (n : Nat) (pieces : List (List α)) :
    Option (List α × List (List α)) → Prop
  | items {items : List α} {rest : List (List α)} (hlength : items.length = n)
      (hstream : pieces.flatten = items ++ rest.flatten) :
      Read n pieces (some (items, rest))
  | short (hshort : pieces.flatten.length < n) : Read n pieces none

theorem readExact_read (n : Nat) (pieces : List (List α)) :
    Read n pieces (readExact n pieces) := by
  induction pieces generalizing n with
  | nil =>
    by_cases hzero : n = 0
    · rw [readExact, if_pos hzero]
      exact Read.items hzero.symm rfl
    · rw [readExact, if_neg hzero]
      exact Read.short (Nat.pos_of_ne_zero hzero)
  | cons piece pieces ih =>
    by_cases hlength : n ≤ piece.length
    · rw [readExact, if_pos hlength]
      refine Read.items (length_take_of_le hlength) ?_
      rw [flatten_cons, flatten_cons, ← append_assoc, take_append_drop]
    · rw [readExact, if_neg hlength]
      have hrest := ih (n - piece.length)
      generalize readExact (n - piece.length) pieces = read at hrest
      cases hrest with
      | items hitems hstream =>
        refine Read.items ?_ ?_
        · rw [length_append, hitems]
          omega
        · rw [flatten_cons, hstream, append_assoc]
      | short hshort =>
        refine Read.short ?_
        rw [flatten_cons, length_append]
        omega

theorem Read.takeExact_eq {n : Nat} {pieces : List (List α)}
    {read : Option (List α × List (List α))} (h : Read n pieces read) :
    takeExact n pieces.flatten =
      read.map fun read => (read.1, read.2.flatten) := by
  cases h with
  | items hlength hstream =>
    rw [hstream, ← hlength, takeExact_append]
    rfl
  | short hshort => exact if_neg (Nat.not_le.mpr hshort)

theorem eq_four {items : List α} (h : items.length = 4) :
    ∃ a b c d, items = [a, b, c, d] := by
  cases items with
  | nil => exact absurd h (by simp)
  | cons a items =>
    rw [length_cons, Nat.succ_inj] at h
    obtain ⟨b, c, d, rfl⟩ := length_eq_three.mp h
    exact ⟨a, b, c, d, rfl⟩

end ReadExact
