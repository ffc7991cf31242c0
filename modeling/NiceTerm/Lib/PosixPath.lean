/-
Lexical normal forms of POSIX paths, over any alphabet with a slash and a dot.
What a path names without looking at the file system: `.` and empty parts are
left out and `..` takes back the part in front of it.
-/
import Mathlib.Data.List.Induction
import Mathlib.Data.List.TakeWhile
import NiceTerm.Lib.RustStr

universe u

/-- The characters with a meaning in a path. -/
structure PosixPath (α : Type u) where
  slash : α
  dot : α
  ne : slash ≠ dot

namespace PosixPath

open List

/-- Some steps up, from the root or from the directory of the start, and the
names that lead down again. -/
structure Normal (α : Type u) where
  absolute : Bool
  ups : Nat
  names : List (List α)
deriving Repr, DecidableEq

variable {α : Type u} [DecidableEq α] (S : PosixPath α)

def parts (path : List α) : List (List α) :=
  path.splitOn S.slash

/-- One step on; there is nothing above the root. -/
def advance (place : Normal α) (part : List α) : Normal α :=
  if part = [] ∨ part = [S.dot] then place
  else if part = [S.dot, S.dot] then
    if place.names = [] then
      if place.absolute then place else { place with ups := place.ups + 1 }
    else { place with names := place.names.dropLast }
  else { place with names := place.names ++ [part] }

def normalize (path : List α) : Normal α :=
  (S.parts path).foldl S.advance ⟨path.head? = some S.slash, 0, []⟩

/-- The path names the root, the directory of the start or one above it. -/
def NamesBase (path : List α) : Prop :=
  (S.normalize path).names = []

/-- Some part of the path leads up. -/
def Climbs (path : List α) : Prop :=
  [S.dot, S.dot] ∈ S.parts path

/-- No part of the path leads anywhere. -/
def Stays (path : List α) : Prop :=
  ∀ part ∈ S.parts path, part = [] ∨ part = [S.dot]

instance (path : List α) : Decidable (S.Climbs path) :=
  inferInstanceAs (Decidable (_ ∈ _))

instance (path : List α) : Decidable (S.Stays path) :=
  inferInstanceAs (Decidable (∀ _ ∈ _, _))

/-- Nothing but slashes. -/
def OnlySlashes (path : List α) : Prop :=
  ∀ c ∈ path, c = S.slash

/-- A dot, perhaps with slashes behind it. -/
def SingleDot (path : List α) : Prop :=
  ∃ n, path = S.dot :: replicate n S.slash

/-- `path` without the slashes at its end. -/
def withoutTrailing (path : List α) : List α :=
  (path.reverse.dropWhile (· == S.slash)).reverse

variable {S}

theorem names_foldl {parts : List (List α)}
    (hclimb : [S.dot, S.dot] ∉ parts) (place : Normal α) :
    (parts.foldl S.advance place).names =
      place.names ++ parts.filter fun part => part ≠ [] ∧ part ≠ [S.dot] := by
  induction parts generalizing place with
  | nil => simp
  | cons part parts ih =>
    rw [mem_cons, not_or] at hclimb
    rw [foldl_cons, ih hclimb.2]
    by_cases hstay : part = [] ∨ part = [S.dot]
    · have hskip : S.advance place part = place := if_pos hstay
      rw [hskip, filter_cons_of_neg]
      rcases hstay with rfl | rfl <;> simp
    · have hdown : S.advance place part =
          { place with names := place.names ++ [part] } := by
        rw [advance, if_neg hstay, if_neg (Ne.symm hclimb.1)]
      rw [not_or] at hstay
      rw [hdown, filter_cons_of_pos (by simpa using hstay),
        append_assoc, singleton_append]

variable {path : List α}

/-- Where nothing leads up, a path names a base exactly if nothing leads down
either. -/
theorem namesBase_iff (hclimb : ¬ S.Climbs path) :
    S.NamesBase path ↔ S.Stays path := by
  rw [NamesBase, normalize, names_foldl hclimb, nil_append, filter_eq_nil_iff]
  refine forall₂_congr fun part _ => ?_
  rw [decide_eq_true_eq, not_and_or, not_not, not_not]

theorem parts_replicate (path : List α) (n : Nat) :
    S.parts (path ++ replicate n S.slash) =
      S.parts path ++ replicate n [] := by
  induction n with
  | zero => simp
  | succ n ih =>
    rw [replicate_succ', ← append_assoc, parts,
      splitOn_append_cons_self, ← parts, ih, replicate_succ',
      append_assoc]
    rfl

theorem exists_withoutTrailing (path : List α) :
    ∃ n, path = S.withoutTrailing path ++ replicate n S.slash := by
  refine ⟨(path.reverse.takeWhile (· == S.slash)).length, ?_⟩
  have hslashes : (path.reverse.takeWhile (· == S.slash)).reverse =
      replicate (path.reverse.takeWhile (· == S.slash)).length S.slash := by
    rw [eq_replicate_iff]
    refine ⟨length_reverse, fun c hc => ?_⟩
    simpa using mem_takeWhile_imp (mem_reverse.mp hc)
  rw [← hslashes, withoutTrailing, ← reverse_append,
    takeWhile_append_dropWhile, reverse_reverse]

theorem climbs_replicate {n : Nat} :
    S.Climbs (path ++ replicate n S.slash) ↔ S.Climbs path := by
  rw [Climbs, Climbs, parts_replicate, mem_append, or_iff_left]
  intro hmem
  exact cons_ne_nil _ _ (eq_of_mem_replicate hmem)

theorem stays_replicate {n : Nat} :
    S.Stays (path ++ replicate n S.slash) ↔ S.Stays path := by
  rw [Stays, Stays, parts_replicate]
  constructor
  · exact fun h part hmem => h part (mem_append_left _ hmem)
  · intro h part hmem
    rcases mem_append.mp hmem with hmem | hmem
    · exact h part hmem
    · exact .inl (eq_of_mem_replicate hmem)

theorem climbs_withoutTrailing :
    S.Climbs (S.withoutTrailing path) ↔ S.Climbs path := by
  obtain ⟨n, hpath⟩ := S.exists_withoutTrailing path
  conv_rhs => rw [hpath]
  exact climbs_replicate.symm

theorem stays_withoutTrailing :
    S.Stays (S.withoutTrailing path) ↔ S.Stays path := by
  obtain ⟨n, hpath⟩ := S.exists_withoutTrailing path
  conv_rhs => rw [hpath]
  exact stays_replicate.symm

theorem getLast?_withoutTrailing (path : List α) :
    (S.withoutTrailing path).getLast? ≠ some S.slash := by
  intro h
  rw [withoutTrailing, getLast?_reverse] at h
  have hnot := head?_dropWhile_not (· == S.slash) path.reverse
  rw [h] at hnot
  simp at hnot

theorem withoutTrailing_eq_nil :
    S.withoutTrailing path = [] ↔ S.OnlySlashes path := by
  rw [withoutTrailing, reverse_eq_nil_iff, dropWhile_eq_nil_iff, OnlySlashes]
  simp

theorem withoutTrailing_eq_dot :
    S.withoutTrailing path = [S.dot] ↔ S.SingleDot path := by
  constructor
  · intro h
    obtain ⟨n, hpath⟩ := S.exists_withoutTrailing path
    rw [h] at hpath
    exact ⟨n, hpath⟩
  · rintro ⟨n, rfl⟩
    have hdrop : (replicate n S.slash ++ [S.dot]).dropWhile
        (· == S.slash) = [S.dot] := by
      rw [dropWhile_append_of_pos (by simp)]
      simp [beq_false_of_ne S.ne.symm]
    rw [withoutTrailing, reverse_cons, reverse_replicate, hdrop,
      reverse_singleton]

/-- Characters other than the slash in front belong to the first part. -/
theorem parts_append {front : List α} (hfront : S.slash ∉ front)
    (path : List α) :
    S.parts (front ++ path) = (S.parts path).modifyHead (front ++ ·) := by
  induction front with
  | nil =>
    cases hparts : S.parts path with
    | nil => simp [hparts]
    | cons part rest => simp [hparts]
  | cons c front ih =>
    rw [mem_cons, not_or] at hfront
    have hc : (c == S.slash) = false := beq_false_of_ne (Ne.symm hfront.1)
    have hrest := ih hfront.2
    simp only [parts] at hrest ⊢
    rw [cons_append, splitOn_cons_eq_if_modifyHead, hc,
      if_neg Bool.false_ne_true, hrest]
    cases path.splitOn S.slash <;> rfl

/-- A character that means nothing is no part that leads up or stays. -/
theorem Climbs.of_cons {c : α} (hslash : c ≠ S.slash)
    (hdot : c ≠ S.dot) (h : S.Climbs (c :: path)) : S.Climbs path := by
  have hnot : S.slash ∉ [c] := by simpa using hslash.symm
  rw [Climbs, ← singleton_append, parts_append hnot] at h
  rw [Climbs]
  cases hparts : S.parts path with
  | nil => exact absurd hparts (splitOn_ne_nil _ _)
  | cons part rest =>
    rw [hparts, modifyHead_cons, singleton_append, mem_cons] at h
    rcases h with hpart | hrest
    · exact absurd (cons.inj hpart).1.symm hdot
    · exact mem_cons_of_mem part hrest

theorem exists_last_part {c : α} (hslash : c ≠ S.slash) (path : List α) :
    ∃ front last, S.parts path = front ++ [last] ∧
      S.parts (path ++ [c]) = front ++ [last ++ [c]] := by
  induction path with
  | nil =>
    refine ⟨[], [], by simp [parts], ?_⟩
    rw [nil_append, parts, splitOn_eq_singleton]
    · rfl
    · rw [mem_singleton]
      exact hslash.symm
  | cons b path ih =>
    obtain ⟨front, last, hparts, hconcat⟩ := ih
    simp only [parts] at hparts hconcat
    simp only [parts, cons_append,
      splitOn_cons_eq_if_modifyHead, hparts, hconcat]
    by_cases hb : (b == S.slash) = true
    · exact ⟨[] :: front, last, by simp [hb], by simp [hb]⟩
    · cases front with
      | nil => exact ⟨[], b :: last, by simp [hb], by simp [hb]⟩
      | cons part front =>
        exact ⟨(b :: part) :: front, last, by simp [hb], by simp [hb]⟩

theorem Climbs.of_concat {c : α} (hslash : c ≠ S.slash)
    (hdot : c ≠ S.dot) (h : S.Climbs (path ++ [c])) : S.Climbs path := by
  obtain ⟨front, last, hparts, hconcat⟩ := exists_last_part hslash path
  rw [Climbs, hconcat, mem_append, mem_singleton] at h
  rw [Climbs, hparts]
  rcases h with hfront | hlast
  · exact mem_append_left _ hfront
  · have hend : some S.dot = some c := by
      have := congrArg List.getLast? hlast
      simpa using this
    exact absurd (Option.some.inj hend).symm hdot

/-- What surrounds a path and means nothing takes no step up. -/
theorem Climbs.of_surrounded {front back : List α}
    (hfront : ∀ c ∈ front, c ≠ S.slash ∧ c ≠ S.dot)
    (hback : ∀ c ∈ back, c ≠ S.slash ∧ c ≠ S.dot)
    (h : S.Climbs (front ++ path ++ back)) : S.Climbs path := by
  have hshort : S.Climbs (front ++ path) := by
    induction back using reverseRecOn with
    | nil => simpa using h
    | append_singleton back c ih =>
      rw [← append_assoc] at h
      obtain ⟨hslash, hdot⟩ := hback c (by simp)
      exact ih (fun b hb => hback b (mem_append_left _ hb))
        (h.of_concat hslash hdot)
  clear h
  induction front with
  | nil => exact hshort
  | cons c front ih =>
    obtain ⟨hslash, hdot⟩ := hfront c mem_cons_self
    exact ih (fun b hb => hfront b (mem_cons_of_mem c hb))
      (Climbs.of_cons hslash hdot hshort)

theorem exists_part {c : α} (hslash : c ≠ S.slash)
    (hmem : c ∈ path) : ∃ part ∈ S.parts path, c ∈ part := by
  simp only [parts]
  induction path with
  | nil => exact absurd hmem not_mem_nil
  | cons b path ih =>
    rw [splitOn_cons_eq_if_modifyHead]
    by_cases hb : (b == S.slash) = true
    · have hne : c ≠ b := fun h => hslash (h.trans (beq_iff_eq.mp hb))
      obtain ⟨part, hpart, hc⟩ := ih (mem_of_ne_of_mem hne hmem)
      rw [if_pos hb]
      exact ⟨part, mem_cons_of_mem [] hpart, hc⟩
    · rw [if_neg hb]
      cases hparts : path.splitOn S.slash with
      | nil => exact absurd hparts (splitOn_ne_nil _ _)
      | cons first rest =>
        rw [modifyHead_cons]
        rcases mem_cons.mp hmem with rfl | hmem
        · exact ⟨c :: first, mem_cons_self, mem_cons_self⟩
        · obtain ⟨part, hpart, hc⟩ := ih hmem
          rw [hparts] at hpart
          rcases mem_cons.mp hpart with rfl | hpart
          · exact ⟨b :: part, mem_cons_self, mem_cons_of_mem b hc⟩
          · exact ⟨part, mem_cons_of_mem _ hpart, hc⟩

/-- Every character of a path that stays means something. -/
theorem Stays.mem (h : S.Stays path) : ∀ c ∈ path, c = S.slash ∨ c = S.dot := by
  intro c hc
  by_cases hslash : c = S.slash
  · exact .inl hslash
  · obtain ⟨part, hpart, hmem⟩ := exists_part hslash hc
    rcases h part hpart with rfl | rfl
    · exact absurd hmem not_mem_nil
    · exact .inr (mem_singleton.mp hmem)

theorem Stays.not_climbs (h : S.Stays path) : ¬ S.Climbs path := by
  intro hclimb
  rcases h _ hclimb with hnil | hdot
  · exact cons_ne_nil _ _ hnil
  · exact cons_ne_nil _ _ (cons.inj hdot).2

end PosixPath

/-! Names that stand for a file of a directory, and the paths made of them: a path
is the list of its components. -/

namespace ChildPath

open RustStr (Str)

/-- The names that lead to no file. -/
def dotNames : List Str := [['.'], ['.', '.']]

/-- A name that is one component and leads down. -/
structure Safe (separator : Char → Bool) (name : Str) : Prop where
  nonempty : name ≠ []
  single : ∀ c ∈ name, separator c = false
  not_dots : name ∉ dotNames

/-- A path right below another. -/
def DirectChild (separator : Char → Bool) (parent path : List Str) : Prop :=
  ∃ name, path = parent ++ [name] ∧ Safe separator name

variable {separator : Char → Bool} {parent : List Str} {name : Str}

theorem directChild_concat_iff :
    DirectChild separator parent (parent ++ [name]) ↔ Safe separator name := by
  constructor
  · rintro ⟨other, heq, hsafe⟩
    have hname : name = other := by simpa using heq
    exact hname ▸ hsafe
  · exact fun hsafe => ⟨name, rfl, hsafe⟩

end ChildPath
