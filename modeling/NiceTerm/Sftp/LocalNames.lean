/-
The local name of a downloaded file: what a file name of the platform may not
contain is percent-encoded, and so the name can be read back from it.
-/
import NiceTerm.Lib.PosixPath
import NiceTerm.Lib.Percent
import NiceTerm.Sftp.Downloads

namespace NiceTerm.Sftp

open List
open RustStr (Str)
open ChildPath (Safe DirectChild dotNames)

/-- The separators of a path of the platform. -/
def isLocalSeparator (windows : Bool) (c : Char) : Bool :=
  c == '/' || (windows && c == '\\')

/-- The classical names of devices on Windows, without those of `COM` and `LPT`
with a superscript digit. -/
def deviceNames : List Str :=
  ["CON", "PRN", "AUX", "NUL", "COM1", "COM2", "COM3", "COM4", "COM5", "COM6",
    "COM7", "COM8", "COM9", "LPT1", "LPT2", "LPT3", "LPT4", "LPT5", "LPT6",
    "LPT7", "LPT8", "LPT9"].map String.toList

/-- A name that Windows takes for a device: in any case, and with or without an
extension. -/
def NamesDevice (name : Str) : Prop :=
  (name.takeWhile (· != '.')).map asciiUpper ∈ deviceNames

/-- A name that is safe as the name of a local file. -/
structure LocallySafe (windows : Bool) (name : Str) : Prop where
  component : Safe (isLocalSeparator windows) name
  noDevice : windows = true → ¬ NamesDevice name

/-! ## The encoding has one reading -/

theorem spells_encodeDownloadChars (windows : Bool) (name : Str) :
    Percent.Spells name (encodeDownloadChars windows name) := by
  induction name with
  | nil => exact .nil
  | cons c rest ih =>
    rw [encodeDownloadChars]
    split
    · exact .encoded c ih
    · next hplain =>
        refine .plain ?_ ih
        rintro rfl
        exact hplain rfl

theorem percentEncodeChar_cons (c : Char) :
    ∃ rest, percentEncodeChar c = '%' :: rest := Percent.encodeChar_cons c

variable {name : Str}

theorem encodeDownloadChars_ne_nil (windows : Bool)
    (hne : name ≠ []) : encodeDownloadChars windows name ≠ [] := by
  cases name with
  | nil => exact absurd rfl hne
  | cons c rest =>
    rw [encodeDownloadChars]
    split
    · obtain ⟨tail, htail⟩ := percentEncodeChar_cons c
      rw [htail]
      exact cons_ne_nil _ _
    · exact cons_ne_nil _ _

/-- A name is encoded, and its first character once more if the result names a
device. -/
theorem sanitize_cases (windows : Bool) (hne : name ≠ []) :
    (sanitizeDownloadFileNameForPlatform name windows =
        encodeDownloadChars windows name ∧
      (windows = true →
        isWindowsReservedDeviceName (encodeDownloadChars windows name) =
          false)) ∨
      ∃ first rest, encodeDownloadChars windows name = first :: rest ∧
        isWindowsReservedDeviceName (first :: rest) = true ∧
        sanitizeDownloadFileNameForPlatform name windows =
          percentEncodeChar first ++ rest := by
  have hresult := encodeDownloadChars_ne_nil windows hne
  rw [sanitizeDownloadFileNameForPlatform,
    if_neg (by rw [List.isEmpty_iff]; exact hne)]
  cases hencoded : encodeDownloadChars windows name with
  | nil => exact absurd hencoded hresult
  | cons first rest =>
    cases windows with
    | false => exact .inl ⟨rfl, fun h => absurd h Bool.false_ne_true⟩
    | true =>
      cases hreserved : isWindowsReservedDeviceName (first :: rest) with
      | false => exact .inl ⟨by simp [hreserved], fun _ => rfl⟩
      | true =>
        exact .inr ⟨first, rest, rfl, hreserved, by simp [hreserved]⟩

theorem isWindowsReservedDeviceName_of_namesDevice
    (h : NamesDevice name) : isWindowsReservedDeviceName name = true := by
  rw [NamesDevice] at h
  rw [isWindowsReservedDeviceName]
  simp only [deviceNames, map_cons, map_nil, mem_cons,
    not_mem_nil, or_false] at h
  generalize (name.takeWhile (· != '.')).map asciiUpper = upper at h ⊢
  rcases h with rfl | rfl | rfl | rfl | rfl | rfl | rfl | rfl | rfl | rfl |
    rfl | rfl | rfl | rfl | rfl | rfl | rfl | rfl | rfl | rfl | rfl | rfl <;>
    decide

/-- No device is named by what begins with a percent sign. -/
theorem not_reserved_percent (rest : Str) :
    isWindowsReservedDeviceName ('%' :: rest) = false := by
  rw [isWindowsReservedDeviceName, takeWhile_cons_of_pos (by decide),
    map_cons, (by decide : asciiUpper '%' = '%')]
  generalize (rest.takeWhile (· != '.')).map asciiUpper = upper
  rcases upper with _ | ⟨a, _ | ⟨b, _ | ⟨c, _ | ⟨d, upper⟩⟩⟩⟩ <;> simp

theorem Spells.tail {first : Char} {name rest : Str}
    (h : Percent.Spells name (first :: rest)) (hfirst : first ≠ '%') :
    ∃ tail, name = first :: tail ∧ Percent.Spells tail rest := by
  generalize htext : first :: rest = text at h
  cases h with
  | nil => cases htext
  | @plain c name text hne htail =>
    obtain ⟨rfl, rfl⟩ := cons.inj htext
    exact ⟨name, rfl, htail⟩
  | @encoded c name text htail =>
    obtain ⟨others, hothers⟩ := Percent.encodeChar_cons c
    rw [hothers, cons_append] at htext
    exact absurd (cons.inj htext).1 hfirst

/-- The name can be read back from the local name. -/
theorem spells_sanitize (windows : Bool) (hne : name ≠ []) :
    Percent.Spells name (sanitizeDownloadFileNameForPlatform name windows) := by
  have hspells := spells_encodeDownloadChars windows name
  rcases sanitize_cases windows hne with ⟨heq, -⟩ |
    ⟨first, rest, hencoded, hreserved, heq⟩
  · rw [heq]
    exact hspells
  · rw [hencoded] at hspells
    have hfirst : first ≠ '%' := by
      rintro rfl
      rw [not_reserved_percent] at hreserved
      exact Bool.false_ne_true hreserved
    obtain ⟨tail, rfl, htail⟩ := Spells.tail hspells hfirst
    rw [heq]
    exact .encoded first htail

/-! ## The local name is safe -/

variable {windows : Bool}

theorem not_separator_of_mem_percentEncodeChar {c d : Char}
    (h : d ∈ percentEncodeChar c) : isLocalSeparator windows d = false := by
  have hall : (('%' :: Percent.hexDigits).all fun d =>
      !isLocalSeparator false d && !isLocalSeparator true d) = true := by decide
  have hmem : d ∈ '%' :: Percent.hexDigits :=
    mem_cons.mpr (Percent.mem_encodeChar h)
  have hd := all_eq_true.mp hall d hmem
  rw [Bool.and_eq_true, Bool.not_eq_true', Bool.not_eq_true'] at hd
  cases windows with
  | false => exact hd.1
  | true => exact hd.2

theorem shouldPercentEncode_of_separator {c : Char}
    (h : isLocalSeparator windows c = true) (isLast : Bool) :
    shouldPercentEncodeDownloadChar c isLast windows = true := by
  rw [isLocalSeparator, Bool.or_eq_true, Bool.and_eq_true, beq_iff_eq,
    beq_iff_eq] at h
  rcases h with rfl | ⟨rfl, rfl⟩
  · rfl
  · rfl

theorem not_separator_of_mem_encode {d : Char}
    (h : d ∈ encodeDownloadChars windows name) :
    isLocalSeparator windows d = false := by
  induction name with
  | nil => exact absurd h not_mem_nil
  | cons c rest ih =>
    rw [encodeDownloadChars] at h
    rcases mem_append.mp h with hmem | hmem
    · split at hmem
      · exact not_separator_of_mem_percentEncodeChar hmem
      · next hplain =>
          rw [mem_singleton] at hmem
          subst hmem
          rw [← Bool.not_eq_true]
          exact fun hseparator =>
            hplain (shouldPercentEncode_of_separator hseparator _)
    · exact ih hmem

theorem not_separator_of_mem_sanitize (hne : name ≠ []) :
    ∀ d ∈ sanitizeDownloadFileNameForPlatform name windows,
      isLocalSeparator windows d = false := by
  intro d hmem
  rcases sanitize_cases windows hne with ⟨heq, -⟩ |
    ⟨first, rest, hencoded, -, heq⟩
  · rw [heq] at hmem
    exact not_separator_of_mem_encode hmem
  · rw [heq] at hmem
    rcases mem_append.mp hmem with hmem | hmem
    · exact not_separator_of_mem_percentEncodeChar hmem
    · have hmem' : d ∈ encodeDownloadChars windows name := by
        rw [hencoded]
        exact mem_cons_of_mem _ hmem
      exact not_separator_of_mem_encode hmem'

theorem not_namesDevice_sanitize (hne : name ≠ []) :
    ¬ NamesDevice (sanitizeDownloadFileNameForPlatform name true) := by
  intro hdevice
  have hreserved := isWindowsReservedDeviceName_of_namesDevice hdevice
  rcases sanitize_cases true hne with ⟨heq, hnot⟩ |
    ⟨first, rest, -, -, heq⟩
  · rw [heq, hnot rfl] at hreserved
    exact Bool.false_ne_true hreserved
  · obtain ⟨others, hothers⟩ := percentEncodeChar_cons first
    rw [heq, hothers, cons_append, not_reserved_percent] at hreserved
    exact Bool.false_ne_true hreserved

theorem spells_dots (h : name ∈ dotNames) : Percent.Spells name name := by
  have hdot : ('.' : Char) ≠ '%' := by decide
  simp only [dotNames, mem_cons, not_mem_nil, or_false] at h
  rcases h with rfl | rfl
  · exact .plain hdot .nil
  · exact .plain hdot (.plain hdot .nil)

/-- Only the two names themselves are left as they are, and not on Windows. -/
theorem sanitize_mem_dotNames_iff (windows : Bool) (hne : name ≠ []) :
    sanitizeDownloadFileNameForPlatform name windows ∈ dotNames ↔
      windows = false ∧ name ∈ dotNames := by
  constructor
  · intro hdots
    have hname : name = sanitizeDownloadFileNameForPlatform name windows :=
      (spells_sanitize windows hne).injective (spells_dots hdots)
    refine ⟨?_, hname ▸ hdots⟩
    rw [← hname] at hdots
    rw [← Bool.not_eq_true]
    rintro rfl
    simp only [dotNames, mem_cons, not_mem_nil, or_false] at hdots
    rcases hdots with rfl | rfl
    · exact absurd hname (by decide +kernel)
    · exact absurd hname (by decide +kernel)
  · rintro ⟨rfl, hdots⟩
    simp only [dotNames, mem_cons, not_mem_nil, or_false] at hdots
    rcases hdots with rfl | rfl <;> decide +kernel

theorem locallySafe_sanitize_iff (hne : name ≠ []) :
    LocallySafe windows (sanitizeDownloadFileNameForPlatform name windows) ↔
      (windows = true ∨ name ∉ dotNames) := by
  have hdots := sanitize_mem_dotNames_iff windows hne
  constructor
  · intro hsafe
    by_contra hnot
    rw [not_or, Bool.not_eq_true, not_not] at hnot
    exact hsafe.component.not_dots (hdots.mpr hnot)
  · intro hor
    refine ⟨⟨?_, not_separator_of_mem_sanitize hne, ?_⟩, ?_⟩
    · intro hnil
      have hspells := spells_sanitize windows hne
      rw [hnil] at hspells
      exact hne (hspells.injective .nil)
    · intro hmem
      obtain ⟨hunix, hname⟩ := hdots.mp hmem
      rcases hor with hwindows | hnot
      · exact absurd (hwindows.symm.trans hunix) (by decide)
      · exact hnot hname
    · rintro rfl
      exact not_namesDevice_sanitize hne

/-- Two names from the server have safe local names, and different ones if they
differ, exactly if on a platform other than Windows neither is one of the two
names that lead to no file. -/
theorem local_names_safe_and_distinct_iff (windows : Bool) (parent : LocalPath)
    (first second : Str) (hfirst : first ≠ []) (hsecond : second ≠ []) :
    (∀ name ∈ [first, second],
        LocallySafe windows (sanitizeDownloadFileNameForPlatform name windows) ∧
          DirectChild (isLocalSeparator windows) parent
            (appendSafeLocalChildPath windows parent name)) ∧
        (first ≠ second → sanitizeDownloadFileNameForPlatform first windows ≠
            sanitizeDownloadFileNameForPlatform second windows) ↔
      (windows = true ∨ first ∉ dotNames ∧ second ∉ dotNames) := by
  have hchild : ∀ name, name ≠ [] →
      (LocallySafe windows (sanitizeDownloadFileNameForPlatform name windows) ∧
        DirectChild (isLocalSeparator windows) parent
          (appendSafeLocalChildPath windows parent name) ↔
        (windows = true ∨ name ∉ dotNames)) := by
    intro name hne
    rw [← locallySafe_sanitize_iff hne, appendSafeLocalChildPath,
      ChildPath.directChild_concat_iff]
    exact and_iff_left_of_imp LocallySafe.component
  have hdistinct : first ≠ second →
      sanitizeDownloadFileNameForPlatform first windows ≠
        sanitizeDownloadFileNameForPlatform second windows := by
    intro hne heq
    have hspells := spells_sanitize windows hsecond
    rw [← heq] at hspells
    exact hne ((spells_sanitize windows hfirst).injective hspells)
  rw [and_iff_left hdistinct, forall_mem_cons, forall_mem_singleton,
    hchild first hfirst, hchild second hsecond, or_and_left]

theorem device_and_folder_names_distinct :
    (∀ name ∈ ["aux.c".toList, "a/b".toList],
        LocallySafe true (sanitizeDownloadFileNameForPlatform name true) ∧
          DirectChild (isLocalSeparator true) ["downloads".toList]
            (appendSafeLocalChildPath true ["downloads".toList] name)) ∧
      ("aux.c".toList ≠ "a/b".toList →
        sanitizeDownloadFileNameForPlatform "aux.c".toList true ≠
          sanitizeDownloadFileNameForPlatform "a/b".toList true) :=
  (local_names_safe_and_distinct_iff true ["downloads".toList] "aux.c".toList
    "a/b".toList (by decide) (by decide)).mpr (.inl rfl)

/-- On a platform other than Windows the name of the parent directory stays. -/
theorem parent_name_unsafe :
    "..".toList ≠ [] ∧ ¬ LocallySafe false
        (sanitizeDownloadFileNameForPlatform "..".toList false) := by
  refine ⟨by decide, fun hsafe => hsafe.component.not_dots ?_⟩
  decide +kernel

end NiceTerm.Sftp
