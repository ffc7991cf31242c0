/-
Where a received file is saved: under the last part of the announced name, with
what a file name may not contain replaced.
-/
import NiceTerm.Lib.PosixPath
import NiceTerm.Zmodem.Transfer

namespace NiceTerm.Zmodem

open List
open RustStr (Str)
open ChildPath (Safe DirectChild dotNames)

/-- What separates the directories of a name, on either platform. -/
def isPathSeparator (c : Char) : Bool := decide (c = '/') || decide (c = '\\')

variable (name : Str)

/-- The last part of a name leads to no file. -/
def EndsInDots : Prop :=
  name ∈ dotNames ∨ ∃ front separator dots, isPathSeparator separator = true ∧
    dots ∈ dotNames ∧ name = front ++ separator :: dots

def lastPart : Str :=
  (name.reverse.takeWhile fun c => !isPathSeparator c).reverse

/-- A character of a file name, or what stands for it. -/
def replaced (c : Char) : Char :=
  if c ∈ ['<', '>', ':', '"', '|', '?', '*'] || RustStr.isControl c then '_'
  else c

theorem sanitizeFilename_eq :
    sanitizeFilename name =
      if ((lastPart name).map replaced).isEmpty then "zmodem_file".toList
      else (lastPart name).map replaced := by
  have hpredicate : (fun c : Char => decide (c ≠ '/') && decide (c ≠ '\\')) =
      fun c => !isPathSeparator c := by
    funext c
    simp [isPathSeparator]
  rw [sanitizeFilename, hpredicate]
  rfl

theorem not_separator_of_mem_lastPart {name : Str} {c : Char}
    (h : c ∈ lastPart name) : isPathSeparator c = false := by
  have hmem := mem_takeWhile_imp (mem_reverse.mp h)
  simpa using hmem

/-- The last part is the whole name, or a separator stands in front of it. -/
theorem lastPart_spec :
    name = lastPart name ∨ ∃ front separator, isPathSeparator separator = true ∧
      name = front ++ separator :: lastPart name := by
  have hsplit := takeWhile_append_dropWhile
    (p := fun c => !isPathSeparator c) (l := name.reverse)
  cases hrest : name.reverse.dropWhile fun c => !isPathSeparator c with
  | nil =>
    left
    rw [hrest, append_nil] at hsplit
    rw [lastPart, hsplit, reverse_reverse]
  | cons separator rest =>
    right
    have hnot := head?_dropWhile_not (fun c => !isPathSeparator c) name.reverse
    rw [hrest] at hsplit hnot
    refine ⟨rest.reverse, separator, by simpa using hnot, ?_⟩
    have hname := congrArg List.reverse hsplit
    rw [reverse_reverse, reverse_append, reverse_cons, append_assoc] at hname
    exact hname.symm

theorem lastPart_append {front last : Str} {separator : Char}
    (hseparator : isPathSeparator separator = true)
    (hlast : ∀ c ∈ last, isPathSeparator c = false) :
    lastPart (front ++ separator :: last) = last := by
  have hpass : ∀ c ∈ last.reverse, (!isPathSeparator c) = true := by
    intro c hmem
    rw [hlast c (mem_reverse.mp hmem)]
    rfl
  rw [lastPart, reverse_append, reverse_cons, append_assoc,
    takeWhile_append_of_pos hpass, singleton_append, takeWhile_cons_of_neg
    (by simp [hseparator]), append_nil, reverse_reverse]

theorem lastPart_of_single {name : Str}
    (h : ∀ c ∈ name, isPathSeparator c = false) : lastPart name = name := by
  rw [lastPart, takeWhile_eq_self_iff.mpr, reverse_reverse]
  intro c hmem
  rw [h c (mem_reverse.mp hmem)]
  rfl

theorem not_separator_of_dots {dots : Str} (h : dots ∈ dotNames) :
    ∀ c ∈ dots, isPathSeparator c = false := by
  intro c hmem
  simp only [dotNames, mem_cons, not_mem_nil, or_false] at h
  have hdot : c = '.' := by
    rcases h with rfl | rfl <;> simpa using hmem
  rw [hdot]
  rfl

theorem endsInDots_iff :
    EndsInDots name ↔ lastPart name ∈ dotNames := by
  constructor
  · rintro (hdots | ⟨front, separator, dots, hseparator, hdots, rfl⟩)
    · rw [lastPart_of_single (not_separator_of_dots hdots)]
      exact hdots
    · rw [lastPart_append hseparator (not_separator_of_dots hdots)]
      exact hdots
  · intro hdots
    rcases lastPart_spec name with heq | ⟨front, separator, hseparator, heq⟩
    · exact .inl (heq ▸ hdots)
    · exact .inr ⟨front, separator, _, hseparator, hdots, heq⟩

theorem replaced_eq_dot {c : Char} : replaced c = '.' ↔ c = '.' := by
  rw [replaced]
  constructor
  · intro h
    split at h
    · exact absurd h (by decide)
    · exact h
  · rintro rfl
    decide

theorem map_replaced_mem_dotNames {name : Str} :
    name.map replaced ∈ dotNames ↔ name ∈ dotNames := by
  simp only [dotNames, mem_cons, not_mem_nil, or_false]
  rcases name with _ | ⟨a, _ | ⟨b, _ | ⟨c, rest⟩⟩⟩ <;>
    simp [replaced_eq_dot]

theorem not_separator_replaced {c : Char} (h : isPathSeparator c = false) :
    isPathSeparator (replaced c) = false := by
  rw [replaced]
  split
  · rfl
  · exact h

/-- The sanitised name is safe unless the name ends in dots. -/
theorem safe_sanitizeFilename_iff :
    Safe isPathSeparator (sanitizeFilename name) ↔ ¬ EndsInDots name := by
  rw [endsInDots_iff, sanitizeFilename_eq, ← map_replaced_mem_dotNames]
  by_cases hempty : ((lastPart name).map replaced).isEmpty = true
  · rw [if_pos hempty, List.isEmpty_iff.mp hempty]
    refine iff_of_true ⟨by decide, fun c hmem => ?_, by decide⟩ (by decide)
    have hall : ("zmodem_file".toList.all fun c => !isPathSeparator c) =
        true := by decide
    simpa using all_eq_true.mp hall c hmem
  · rw [if_neg hempty]
    constructor
    · exact Safe.not_dots
    · intro hdots
      refine ⟨fun hnil => hempty (List.isEmpty_iff.mpr hnil), ?_, hdots⟩
      intro c hmem
      obtain ⟨d, hd, rfl⟩ := mem_map.mp hmem
      exact not_separator_replaced (not_separator_of_mem_lastPart hd)

/-- The file the receiver opens lies right below the save directory exactly if
the announced name does not end in dots. -/
theorem received_file_direct_child_iff (active : Active Receiving)
    (fileName : Bytes) (fileSize now : Nat) :
    ∃ after file,
      (receiverEvent active (.fileStart fileName fileSize (.ok ()) now)).next =
          some after ∧
        after.session.currentFile = some file ∧
        (DirectChild isPathSeparator active.session.saveDir file.path ↔
          ¬ EndsInDots (Utf8.decodeLossy fileName)) := by
  refine ⟨_, _, rfl, rfl, ?_⟩
  rw [← safe_sanitizeFilename_iff]
  exact ChildPath.directChild_concat_iff

/-- A remote that announces `..` has the receiver open the directory above. -/
theorem parent_directory_opened :
    ∃ after file, (receiverEvent ⟨{ saveDir := ["downloads".toList] }, 0, {}⟩
          (.fileStart [0x2e, 0x2e] 0 (.ok ()) 0)).next = some after ∧
        after.session.currentFile = some file ∧
        file.path = ["downloads".toList, "..".toList] ∧
        ¬ DirectChild isPathSeparator ["downloads".toList] file.path := by
  refine ⟨_, _, rfl, rfl, by decide +kernel, ?_⟩
  rintro ⟨name, heq, hsafe⟩
  have hname : "..".toList = name := by
    have hpath : ["downloads".toList] ++ [sanitizeFilename
        (Utf8.decodeLossy [0x2e, 0x2e])] = ["downloads".toList] ++ [name] := heq
    have hlast := append_cancel_left hpath
    rw [singleton_inj] at hlast
    rw [← hlast]
    decide +kernel
  exact hsafe.not_dots (hname ▸ by decide)

end NiceTerm.Zmodem
