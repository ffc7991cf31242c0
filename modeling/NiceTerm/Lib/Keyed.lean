/-
Lists of records with a key, as a map kept in insertion order: lookup by the
key, assignment to the record that has it, and removal by a test.
-/
import Mathlib.Data.List.Nodup

namespace Keyed

open List

universe u v

variable {α : Type u} {κ : Type v} [DecidableEq κ] {key : α → κ}

/-- The record with the key `k`. -/
def find (key : α → κ) (xs : List α) (k : κ) : Option α :=
  xs.find? fun x => key x == k

/-- Put `x` where the record with its key stands. -/
def replace (key : α → κ) (x : α) (xs : List α) : List α :=
  xs.map fun y => if key y = key x then x else y

variable {xs : List α} {k : κ}

theorem key_of_find {x : α} (h : find key xs k = some x) : key x = k := by
  have hkey := find?_some h
  exact eq_of_beq hkey

theorem mem_of_find {x : α} (h : find key xs k = some x) : x ∈ xs :=
  mem_of_find?_eq_some h

theorem mem_keys_iff :
    k ∈ xs.map key ↔ ∃ x, find key xs k = some x := by
  rw [← Option.isSome_iff_exists, find, find?_isSome]
  simp [mem_map]

theorem find_eq_none (h : k ∉ xs.map key) : find key xs k = none := by
  by_contra hsome
  exact h (mem_keys_iff.mpr (Option.ne_none_iff_exists'.mp hsome))

theorem find_of_mem (hnodup : (xs.map key).Nodup) {x : α}
    (hmem : x ∈ xs) : find key xs (key x) = some x := by
  induction xs with
  | nil => exact absurd hmem not_mem_nil
  | cons y rest ih =>
    rw [map_cons, nodup_cons] at hnodup
    rcases mem_cons.mp hmem with rfl | hrest
    · simp [find]
    · have hne : key y ≠ key x := by
        rintro hsame
        exact hnodup.1 (hsame ▸ mem_map_of_mem hrest)
      have hskip : find key (y :: rest) (key x) = find key rest (key x) :=
        find?_cons_of_neg (by simpa using hne)
      rw [hskip]
      exact ih hnodup.2 hrest

theorem find_eq_some_iff (hnodup : (xs.map key).Nodup)
    {x : α} : find key xs k = some x ↔ x ∈ xs ∧ key x = k := by
  constructor
  · exact fun h => ⟨mem_of_find h, key_of_find h⟩
  · rintro ⟨hmem, rfl⟩
    exact find_of_mem hnodup hmem

@[simp] theorem replace_keys (x : α) (xs : List α) :
    (replace key x xs).map key = xs.map key := by
  rw [replace, map_map]
  apply map_congr_left
  intro y _
  by_cases hkey : key y = key x
  · simp [hkey]
  · simp [hkey]

theorem find_replace (x : α) (xs : List α) (k : κ) :
    find key (replace key x xs) k =
      if k = key x then (find key xs k).map fun _ => x
      else find key xs k := by
  induction xs with
  | nil => simp [find, replace]
  | cons y rest ih =>
    by_cases hsame : key y = key x
    · by_cases hk : k = key x
      · simp [find, replace, hsame, hk]
      · have hne : ¬ key x = k := fun h => hk h.symm
        simp only [find, replace, map_cons, hsame, ↓reduceIte] at ih ⊢
        rw [find?_cons_of_neg (by simpa using hne),
          find?_cons_of_neg (by simpa [hsame] using hne), ih, if_neg hk]
    · by_cases hy : key y = k
      · have hk : k ≠ key x := hy ▸ hsame
        simp [find, replace, hy, hk]
      · simp only [find, replace, map_cons, hsame, ↓reduceIte] at ih ⊢
        rw [find?_cons_of_neg (by simpa using hy),
          find?_cons_of_neg (by simpa using hy), ih]

theorem find_filter (hnodup : (xs.map key).Nodup) (p : α → Bool) (k : κ) :
    find key (xs.filter p) k = (find key xs k).filter p := by
  induction xs with
  | nil => rfl
  | cons y rest ih =>
    rw [map_cons, nodup_cons] at hnodup
    have hrest := ih hnodup.2
    by_cases hy : key y = k
    · have hfound : find key (y :: rest) k = some y :=
        find?_cons_of_pos (by simpa using hy)
      rw [hfound]
      by_cases hp : p y = true
      · rw [filter_cons_of_pos hp, Option.filter_some, if_pos hp]
        exact find?_cons_of_pos (by simpa using hy)
      · rw [filter_cons_of_neg hp, hrest, find_eq_none (hy ▸ hnodup.1)]
        exact (if_neg hp).symm
    · have hskip : find key (y :: rest) k = find key rest k :=
        find?_cons_of_neg (by simpa using hy)
      rw [hskip, ← hrest]
      by_cases hp : p y = true
      · rw [filter_cons_of_pos hp]
        exact find?_cons_of_neg (by simpa using hy)
      · rw [filter_cons_of_neg hp]

theorem find_map {f : α → α} (hf : ∀ x, key (f x) = key x) (xs : List α)
    (k : κ) : find key (xs.map f) k = (find key xs k).map f := by
  rw [find, find?_map]
  have hsame : ((fun x => key x == k) ∘ f) = fun x => key x == k := by
    funext x
    simp [hf]
  rw [hsame, find]

/-- Change the first record with the key `k`. -/
def modify (key : α → κ) (k : κ) (f : α → α) : List α → List α
  | [] => []
  | x :: rest => if key x = k then f x :: rest else x :: modify key k f rest

section

variable {f : α → α} (hf : ∀ x, key x = k → key (f x) = k)
include hf

theorem modify_keys
    (xs : List α) : (modify key k f xs).map key = xs.map key := by
  induction xs with
  | nil => rfl
  | cons x rest ih =>
    by_cases hkey : key x = k
    · simp [modify, hkey, hf x hkey]
    · simp [modify, hkey, ih]

theorem modify_nodup
    (h : (xs.map key).Nodup) : ((modify key k f xs).map key).Nodup := by
  rwa [modify_keys hf]

theorem find_modify (xs : List α) (l : κ) :
    find key (modify key k f xs) l =
      if l = k then (find key xs l).map f else find key xs l := by
  induction xs with
  | nil => simp [find, modify]
  | cons x rest ih =>
    by_cases hkey : key x = k
    · have hnew := hf x hkey
      by_cases hl : l = k
      · simp [find, modify, hkey, hnew, hl]
      · have hne : ¬ k = l := fun h => hl h.symm
        simp [find, modify, hkey, hnew, hl, hne]
    · by_cases hx : key x = l
      · have hl : l ≠ k := hx ▸ hkey
        simp [find, modify, hx, hl]
      · simp only [find, modify, hkey, ↓reduceIte] at ih ⊢
        rw [find?_cons_of_neg (by simpa using hx),
          find?_cons_of_neg (by simpa using hx), ih]

end

theorem find_concat (xs : List α) (x : α) (k : κ) :
    find key (xs ++ [x]) k =
      (find key xs k).or (if key x = k then some x else none) := by
  rw [find, find, find?_append]
  by_cases hkey : key x = k
  · simp [hkey]
  · simp [hkey]

end Keyed

/-! The first items with each key, and the longest part of a list from its start
that a bound admits. -/

namespace Distinct

open List

universe u v

variable {α : Type u} {κ : Type v} [DecidableEq κ] {key : α → κ}

/-- The items that are the first with their key, apart from the keys that have
been seen. -/
def firsts (key : α → κ) (seen : List κ) : List α → List α
  | [] => []
  | x :: rest =>
    if key x ∈ seen then firsts key seen rest
    else x :: firsts key (key x :: seen) rest

/-- The keys of the first items are those of all items. -/
theorem mem_keys_firsts {seen : List κ} {xs : List α} {k : κ} :
    k ∈ (firsts key seen xs).map key ↔ k ∈ xs.map key ∧ k ∉ seen := by
  induction xs generalizing seen with
  | nil => simp [firsts]
  | cons x rest ih =>
    by_cases hseen : key x ∈ seen
    · rw [firsts, if_pos hseen, ih, map_cons, mem_cons]
      constructor
      · exact fun h => ⟨.inr h.1, h.2⟩
      · intro h
        rcases h.1 with rfl | hrest
        · exact absurd hseen h.2
        · exact ⟨hrest, h.2⟩
    · rw [firsts, if_neg hseen, map_cons, mem_cons, ih,
        map_cons, mem_cons, mem_cons]
      constructor
      · intro h
        rcases h with rfl | hrest
        · exact ⟨.inl rfl, hseen⟩
        · exact ⟨.inr hrest.1, fun hk => hrest.2 (.inr hk)⟩
      · intro h
        by_cases hkey : k = key x
        · exact .inl hkey
        · refine .inr ⟨h.1.resolve_left hkey, ?_⟩
          exact fun hk => hk.elim hkey h.2

theorem keys_firsts_nodup (seen : List κ) (xs : List α) :
    ((firsts key seen xs).map key).Nodup := by
  induction xs generalizing seen with
  | nil => exact nodup_nil
  | cons x rest ih =>
    by_cases hseen : key x ∈ seen
    · rw [firsts, if_pos hseen]
      exact ih seen
    · rw [firsts, if_neg hseen, map_cons, nodup_cons]
      refine ⟨?_, ih _⟩
      rw [mem_keys_firsts]
      exact fun h => h.2 mem_cons_self

theorem firsts_sublist (seen : List κ) (xs : List α) :
    (firsts key seen xs).Sublist xs := by
  induction xs generalizing seen with
  | nil => exact Sublist.refl []
  | cons x rest ih =>
    by_cases hseen : key x ∈ seen
    · rw [firsts, if_pos hseen]
      exact (ih seen).cons x
    · rw [firsts, if_neg hseen]
      exact (ih _).cons_cons x

/-- The longest part from the start that a bound admits. -/
structure LongestWithin (fits : List α → Prop) (taken all : List α) : Prop where
  isPrefix : taken <+: all
  admitted : fits taken
  longest : ∀ front, front <+: all → fits front → front <+: taken

namespace LongestWithin

open List

variable {fits : List α → Prop} {taken rest : List α}

theorem whole (h : fits taken) : LongestWithin fits taken taken where
  isPrefix := prefix_rfl
  admitted := h
  longest _ hfront _ := hfront

/-- When the next item is too much for a bound that admits less with more. -/
theorem stopped (closed : ∀ front all, front <+: all → fits all → fits front)
    (h : fits taken) {next : α} (hnext : ¬ fits (taken ++ [next])) :
    LongestWithin fits taken (taken ++ next :: rest) where
  isPrefix := prefix_append taken _
  admitted := h
  longest front hfront hfits := by
    have htaken : taken <+: taken ++ next :: rest := prefix_append taken _
    rcases prefix_or_prefix_of_prefix hfront htaken with hshort | hlong
    · exact hshort
    · obtain ⟨more, rfl⟩ := hlong
      rw [prefix_append_right_inj] at hfront
      cases more with
      | nil =>
        exact ⟨[], by rw [append_nil, append_nil]⟩
      | cons x more =>
        obtain rfl : x = next := by
          obtain ⟨tail, htail⟩ := hfront
          exact (cons.inj htail).1
        refine absurd (closed _ _ ?_ hfits) hnext
        rw [prefix_append_right_inj]
        exact ⟨more, rfl⟩

end LongestWithin

end Distinct
