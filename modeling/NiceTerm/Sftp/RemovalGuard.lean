/-
The guards in front of the recursive deletion of a remote directory, one for
paths and one for the bytes of paths.
-/
import NiceTerm.Lib.PosixPath
import NiceTerm.Lib.RustSplit
import NiceTerm.Lib.Utf8
import NiceTerm.Sftp.Transfers

namespace NiceTerm.Sftp

open List PosixPath RustStr

variable (path : Str)

def normalizeRemoteDirPath : Str :=
  if path = ['/'] then ['/'] else trimEndMatches '/' path

def normalizeRemoteDirPathBytes (path : Bytes) : Bytes :=
  if path = [0x2f] then [0x2f]
  else
    let trimmed :=
      match rposition (fun byte => byte != 0x2f) path with
      | some index => path.take (index + 1)
      | none => path
    if trimmed.isEmpty then path else trimmed

def isSafeRecursiveRemoveTarget : Bool :=
  let trimmed := trim path
  if trimmed = [] ∨ trimmed = ['/'] ∨ trimmed = ['.'] ∨ trimmed = ['.', '.']
  then false
  else
    let normalized := normalizeRemoteDirPath trimmed
    !normalized.isEmpty &&
      !(normalized = ['/'] ∨ normalized = ['.'] ∨ normalized = ['.', '.']) &&
      !(normalized.splitOn '/').any (· = ['.', '.'])

def isSafeRecursiveRemoveTargetBytes (path : Bytes) : Bool :=
  let normalized := normalizeRemoteDirPathBytes path
  if normalized = [] ∨ normalized = [0x2f] ∨ normalized = [0x2e] ∨
      normalized = [0x2e, 0x2e]
  then false
  else !(normalized.splitOn 0x2f).any (· = [0x2e, 0x2e])

/-- A remote path as it is shown, and its bytes if they are known. -/
structure RemotePathRef where
  displayPath : Str
  rawPath : Option Bytes
deriving DecidableEq, Repr

/-- The connection: its encoding, `none` for UTF-8, and what its server does
with a deletion. -/
structure Remote where
  encoding : Option (Str → Bytes)
  execOk : Str → Bool
  removeInventory : Bytes → Except AppError Unit

def isAscii : Bool :=
  path.all fun c => c.toNat < 128

variable (remote : Remote)

def Remote.encodePathForSftp (path : Str) : Bytes :=
  match remote.encoding with
  | none => utf8 path
  | some encode => if isAscii path then utf8 path else encode path

def Remote.remotePathBytes (path : RemotePathRef) : Bytes :=
  path.rawPath.getD (remote.encodePathForSftp path.displayPath)

def rawPathMatchesDisplayPath (path : RemotePathRef) : Bool :=
  match path.rawPath with
  | none => true
  | some raw =>
    normalizeRemoteDirPathBytes raw =
      utf8 (normalizeRemoteDirPath path.displayPath)

/-- A recursive deletion that is started: `rm -rf` of a path, or of what SFTP
lists below the bytes of one. -/
inductive Removal where
  | command (path : Str)
  | inventory (path : Bytes)
deriving DecidableEq, Repr

def refusal (path : RemotePathRef) : AppError :=
  .channel ("Refusing to recursively delete unsafe remote path '".toList ++
    path.displayPath ++ "'".toList)

def Remote.removeInventoryOf (path : RemotePathRef) :
    List Removal × Except AppError Unit :=
  let raw := remote.remotePathBytes path
  if isSafeRecursiveRemoveTargetBytes raw then
    ([.inventory (normalizeRemoteDirPathBytes raw)],
      remote.removeInventory (normalizeRemoteDirPathBytes raw))
  else ([], .error (refusal path))

/-- The deletions that are started and the answer. -/
def Remote.removeDirFastRef (path : RemotePathRef) :
    List Removal × Except AppError Unit :=
  if remote.encoding.isNone && rawPathMatchesDisplayPath path &&
      isSafeRecursiveRemoveTarget path.displayPath then
    let target := normalizeRemoteDirPath path.displayPath
    if remote.execOk target then ([.command target], .ok ())
    else
      let rest := remote.removeInventoryOf path
      (.command target :: rest.1, rest.2)
  else remote.removeInventoryOf path

/-- Every deletion is of a path that a guard has accepted. -/
theorem removeDirFastRef_guarded (path : RemotePathRef) :
    ∀ removal ∈ (remote.removeDirFastRef path).1,
      (∃ shown, isSafeRecursiveRemoveTarget shown = true ∧
        removal = .command (normalizeRemoteDirPath shown)) ∨
      ∃ raw, isSafeRecursiveRemoveTargetBytes raw = true ∧
        removal = .inventory (normalizeRemoteDirPathBytes raw) := by
  have hinventory : ∀ removal ∈ (remote.removeInventoryOf path).1,
      ∃ raw, isSafeRecursiveRemoveTargetBytes raw = true ∧
        removal = .inventory (normalizeRemoteDirPathBytes raw) := by
    intro removal hmem
    rw [Remote.removeInventoryOf] at hmem
    split at hmem
    · rename_i hsafe
      exact ⟨_, hsafe, mem_singleton.mp hmem⟩
    · exact absurd hmem not_mem_nil
  intro removal hmem
  by_cases hfast : (remote.encoding.isNone && rawPathMatchesDisplayPath path &&
      isSafeRecursiveRemoveTarget path.displayPath) = true
  · have hsafe : isSafeRecursiveRemoveTarget path.displayPath = true :=
      (Bool.and_eq_true_iff.mp hfast).2
    rw [Remote.removeDirFastRef, if_pos hfast] at hmem
    by_cases hexec : remote.execOk (normalizeRemoteDirPath path.displayPath) =
        true
    · simp only [hexec, ↓reduceIte, mem_singleton] at hmem
      exact .inl ⟨_, hsafe, hmem⟩
    · simp only [hexec, Bool.false_eq_true, ↓reduceIte, mem_cons] at hmem
      rcases hmem with rfl | hmem
      · exact .inl ⟨_, hsafe, rfl⟩
      · exact .inr (hinventory removal hmem)
  · rw [Remote.removeDirFastRef, if_neg hfast] at hmem
    exact .inr (hinventory removal hmem)

/-- What a path consists of, for characters and for bytes. -/
def charPath : PosixPath Char := ⟨'/', '.', by decide⟩

def bytePath : PosixPath UInt8 := ⟨0x2f, 0x2e, by decide⟩

/-- The spellings that a guard looks for. -/
def Refusable {α : Type} [DecidableEq α] (S : PosixPath α) (path : List α) :
    Prop :=
  S.OnlySlashes path ∨ S.SingleDot path ∨ S.Climbs path

theorem normalizeRemoteDirPath_eq {path : Str} (h : path ≠ ['/']) :
    normalizeRemoteDirPath path = charPath.withoutTrailing path := by
  rw [normalizeRemoteDirPath, if_neg h]
  rfl

theorem any_climbs {α : Type} [DecidableEq α] (S : PosixPath α)
    (path : List α) :
    (path.splitOn S.slash).any (· = [S.dot, S.dot]) = true ↔
      S.Climbs path := by
  simp [PosixPath.Climbs, parts]

theorem refusable_iff {α : Type} [DecidableEq α] (S : PosixPath α)
    (path : List α) :
    Refusable S path ↔ S.withoutTrailing path = [] ∨
      (S.withoutTrailing path = [S.slash] ∨ S.withoutTrailing path = [S.dot] ∨
        S.withoutTrailing path = [S.dot, S.dot]) ∨
      S.Climbs (S.withoutTrailing path) := by
  have hslash : S.withoutTrailing path ≠ [S.slash] := by
    intro h
    have hlast := S.getLast?_withoutTrailing path
    rw [h] at hlast
    exact hlast rfl
  have hdots : S.withoutTrailing path = [S.dot, S.dot] →
      S.Climbs (S.withoutTrailing path) := by
    intro h
    have hnot : S.slash ∉ [S.dot, S.dot] := by simp [S.ne]
    rw [h, PosixPath.Climbs, parts, splitOn_eq_singleton hnot]
    exact mem_singleton_self _
  rw [Refusable, ← withoutTrailing_eq_nil,
    ← withoutTrailing_eq_dot, ← climbs_withoutTrailing]
  grind

/-- The guard accepts what is spelled unlike a base when it is trimmed. -/
theorem isSafeRecursiveRemoveTarget_iff :
    isSafeRecursiveRemoveTarget path = true ↔
      ¬ Refusable charPath (trim path) := by
  rw [isSafeRecursiveRemoveTarget]
  generalize trim path = trimmed
  by_cases hbase : trimmed = [] ∨ trimmed = ['/'] ∨ trimmed = ['.'] ∨
      trimmed = ['.', '.']
  · have hrefused : Refusable charPath trimmed := by
      rcases hbase with rfl | rfl | rfl | rfl
      · exact .inl (forall_mem_nil _)
      · exact .inl (forall_mem_singleton.mpr rfl)
      · exact .inr (.inl ⟨0, rfl⟩)
      · exact .inr (.inr ((any_climbs charPath _).mp (by decide)))
    simp [hbase, hrefused]
  · have hroot : trimmed ≠ ['/'] := fun h => hbase (.inr (.inl h))
    have hclimbs := any_climbs charPath (charPath.withoutTrailing trimmed)
    rw [refusable_iff, ← hclimbs]
    simp only [hbase, ↓reduceIte, normalizeRemoteDirPath_eq hroot,
      Bool.and_eq_true, Bool.not_eq_true', decide_eq_false_iff_not,
      isEmpty_eq_false_iff]
    simp only [charPath, not_or, Bool.not_eq_true, and_assoc]
    rfl

theorem normalizeRemoteDirPathBytes_eq (path : Bytes) :
    normalizeRemoteDirPathBytes path =
      if bytePath.withoutTrailing path = [] then path
      else bytePath.withoutTrailing path := by
  by_cases hroot : path = [0x2f]
  · subst hroot
    rfl
  rw [normalizeRemoteDirPathBytes, if_neg hroot]
  cases hindex : rposition (fun byte => byte != 0x2f) path with
  | none =>
    have honly : bytePath.OnlySlashes path := by
      intro byte hbyte
      simpa [bytePath] using rposition_eq_none.mp hindex byte hbyte
    rw [if_pos (withoutTrailing_eq_nil.mpr honly)]
    exact ite_id _
  | some index =>
    have htake : path.take (index + 1) = bytePath.withoutTrailing path := by
      rw [take_rposition hindex, PosixPath.withoutTrailing]
      simp only [bne, Bool.not_not]
      rfl
    have hnot : ¬ bytePath.OnlySlashes path := by
      intro honly
      have hnone : rposition (fun byte => byte != 0x2f) path = none := by
        rw [rposition_eq_none]
        intro byte hbyte
        simpa [bytePath] using honly byte hbyte
      exact absurd (hnone.symm.trans hindex) (Option.some_ne_none index).symm
    rw [← withoutTrailing_eq_nil] at hnot
    simp [htake, hnot]

/-- The guard for bytes does not see that several slashes are the root. -/
theorem isSafeRecursiveRemoveTargetBytes_iff (path : Bytes) :
    isSafeRecursiveRemoveTargetBytes path = true ↔
      ¬ (path = [] ∨ path = [bytePath.slash] ∨ bytePath.SingleDot path ∨
        bytePath.Climbs path) := by
  have hclimbs := any_climbs bytePath (normalizeRemoteDirPathBytes path)
  have hguard : isSafeRecursiveRemoveTargetBytes path = true ↔
      ¬ (normalizeRemoteDirPathBytes path = [] ∨
        (normalizeRemoteDirPathBytes path = [bytePath.slash] ∨
          normalizeRemoteDirPathBytes path = [bytePath.dot] ∨
          normalizeRemoteDirPathBytes path = [bytePath.dot, bytePath.dot]) ∨
        bytePath.Climbs (normalizeRemoteDirPathBytes path)) := by
    rw [isSafeRecursiveRemoveTargetBytes, ← hclimbs]
    simp only [bytePath]
    grind
  rw [hguard, not_iff_not, normalizeRemoteDirPathBytes_eq]
  by_cases honly : bytePath.withoutTrailing path = []
  · have hsingle : ¬ bytePath.SingleDot path := by
      rw [← withoutTrailing_eq_dot, honly]
      exact (cons_ne_nil _ _).symm
    have hclimb : ¬ bytePath.Climbs path := by
      rw [← climbs_withoutTrailing, honly]
      decide
    have hdot : path ≠ [bytePath.dot] := by
      rintro rfl
      exact hsingle ⟨0, rfl⟩
    have hdots : path ≠ [bytePath.dot, bytePath.dot] := by
      rintro rfl
      exact hclimb (by decide)
    rw [if_pos honly]
    simp only [hsingle, hclimb, hdot, hdots, or_false]
  · rw [if_neg honly, ← refusable_iff, Refusable, ← withoutTrailing_eq_nil]
    have hnil : path ≠ [] := by
      rintro rfl
      exact honly rfl
    have hroot : path ≠ [bytePath.slash] := by
      rintro rfl
      exact honly rfl
    simp only [honly, hnil, hroot, false_or]

/-- The bytes of a path have the parts of the path. -/
theorem parts_utf8 :
    bytePath.parts (utf8 path) = (charPath.parts path).map utf8 := by
  induction path with
  | nil => rfl
  | cons c path ih =>
    by_cases hc : c = '/'
    · subst hc
      have hbytes : bytePath.parts (utf8 ('/' :: path)) =
          [] :: bytePath.parts (utf8 path) :=
        splitOn_cons_eq_if_modifyHead _ _
      have hchars : charPath.parts ('/' :: path) = [] :: charPath.parts path :=
        splitOn_cons_eq_if_modifyHead _ _
      rw [hbytes, hchars, ih]
      rfl
    · have hnot : bytePath.slash ∉ String.utf8EncodeChar c := by
        intro hmem
        have hval := (Utf8.ascii_of_mem hmem (by decide)).1
        exact hc (Char.toNat_inj.mp hval)
      have hchar : charPath.slash ∉ [c] := by
        rw [mem_singleton]
        exact Ne.symm hc
      have hbytes : bytePath.parts (utf8 (c :: path)) =
          (bytePath.parts (utf8 path)).modifyHead
            (String.utf8EncodeChar c ++ ·) :=
        parts_append hnot (utf8 path)
      rw [hbytes, ← singleton_append, parts_append hchar, ih]
      cases charPath.parts path <;> rfl

theorem utf8_inj {a b : Str} (h : utf8 a = utf8 b) : a = b := by
  have hread := congrArg fromUtf8 h
  rw [fromUtf8_utf8, fromUtf8_utf8] at hread
  exact Option.some.inj hread

theorem utf8_slashes (n : Nat) :
    utf8 (replicate n '/') = replicate n bytePath.slash := by
  induction n with
  | zero => rfl
  | succ n ih =>
    rw [replicate_succ, replicate_succ, ← ih]
    rfl

theorem climbs_utf8 {path : Str} :
    bytePath.Climbs (utf8 path) ↔ charPath.Climbs path := by
  rw [PosixPath.Climbs, parts_utf8, mem_map]
  constructor
  · rintro ⟨part, hpart, hbytes⟩
    have hdots : part = ['.', '.'] := utf8_inj hbytes
    rwa [hdots] at hpart
  · exact fun h => ⟨_, h, rfl⟩

theorem singleDot_utf8 {path : Str} :
    bytePath.SingleDot (utf8 path) ↔ charPath.SingleDot path := by
  have hbytes (n : Nat) : utf8 ('.' :: replicate n '/') =
      bytePath.dot :: replicate n bytePath.slash :=
    congrArg (bytePath.dot :: ·) (utf8_slashes n)
  constructor
  · rintro ⟨n, h⟩
    exact ⟨n, utf8_inj (h.trans (hbytes n).symm)⟩
  · rintro ⟨n, rfl⟩
    exact ⟨n, hbytes n⟩

theorem isSafeRecursiveRemoveTargetBytes_utf8 :
    isSafeRecursiveRemoveTargetBytes (utf8 path) = true ↔
      ¬ (path = [] ∨ path = ['/'] ∨ charPath.SingleDot path ∨
        charPath.Climbs path) := by
  have hnil : utf8 path = [] ↔ path = [] :=
    ⟨fun h => utf8_inj (b := []) h, fun h => congrArg utf8 h⟩
  have hroot : utf8 path = [bytePath.slash] ↔ path = ['/'] :=
    ⟨fun h => utf8_inj (b := ['/']) h, fun h => congrArg utf8 h⟩
  rw [isSafeRecursiveRemoveTargetBytes_iff, hnil, hroot, singleDot_utf8,
    climbs_utf8]

theorem not_whitespace_of_sign {c : Char}
    (h : c = charPath.slash ∨ c = charPath.dot) : isWhitespace c = false := by
  rcases h with rfl | rfl <;> decide

theorem trim_of_signs {path : Str}
    (hall : ∀ c ∈ path, c = charPath.slash ∨ c = charPath.dot) :
    trim path = path :=
  trimBoth_of_ends isWhitespace
    (fun c hc => not_whitespace_of_sign (hall c (mem_of_mem_head? hc)))
    (fun c hc => not_whitespace_of_sign (hall c (mem_of_getLast? hc)))

/-- Only a path that is a base when it is trimmed can be one. -/
theorem Refusable.trim (path : Str) (h : Refusable charPath path) :
    Refusable charPath (trim path) := by
  rcases h with honly | hsingle | hclimb
  · rw [trim_of_signs fun c hc => .inl (honly c hc)]
    exact .inl honly
  · obtain ⟨n, rfl⟩ := hsingle
    rw [trim_of_signs]
    · exact .inr (.inl ⟨n, rfl⟩)
    · rw [forall_mem_cons]
      exact ⟨.inr rfl, fun c hc => .inl (eq_of_mem_replicate hc)⟩
  · obtain ⟨front, back, hpath, hfront, hback⟩ := trimBoth_eq isWhitespace path
    have hmeans {c : Char} (hspace : isWhitespace c = true) :
        c ≠ charPath.slash ∧ c ≠ charPath.dot := by
      rw [← not_or]
      intro hsign
      rw [not_whitespace_of_sign hsign] at hspace
      exact absurd hspace Bool.false_ne_true
    rw [hpath] at hclimb
    exact .inr (.inr (hclimb.of_surrounded
      (fun c hc => hmeans (hfront c hc)) fun c hc => hmeans (hback c hc)))

theorem guarded_iff :
    (isSafeRecursiveRemoveTarget path = true →
        ¬ charPath.NamesBase (normalizeRemoteDirPath path)) ↔
      (charPath.Stays path →
        charPath.OnlySlashes path ∨ charPath.SingleDot path) := by
  rw [isSafeRecursiveRemoveTarget_iff]
  by_cases hrefused : Refusable charPath (trim path)
  · refine iff_of_true (fun h => absurd hrefused h) fun hstays => ?_
    rw [trim_of_signs hstays.mem] at hrefused
    rcases hrefused with honly | hsingle | hclimb
    · exact .inl honly
    · exact .inr hsingle
    · exact absurd hclimb hstays.not_climbs
  · have hnot : ¬ Refusable charPath path := fun h => hrefused h.trim
    have hroot : path ≠ ['/'] := by
      rintro rfl
      exact hnot (.inl (forall_mem_singleton.mpr rfl))
    have hclimb : ¬ charPath.Climbs (charPath.withoutTrailing path) := by
      rw [climbs_withoutTrailing]
      exact fun h => hnot (.inr (.inr h))
    rw [normalizeRemoteDirPath_eq hroot, namesBase_iff hclimb,
      stays_withoutTrailing]
    rw [Refusable] at hnot
    grind

theorem guarded_bytes_iff (path : Bytes) :
    (isSafeRecursiveRemoveTargetBytes path = true →
        ¬ bytePath.NamesBase (normalizeRemoteDirPathBytes path)) ↔
      (bytePath.Stays path → path = [] ∨ path = [bytePath.slash] ∨
        bytePath.SingleDot path) := by
  rw [isSafeRecursiveRemoveTargetBytes_iff]
  by_cases hclimb : bytePath.Climbs path
  · have hstays : ¬ bytePath.Stays path := fun h => h.not_climbs hclimb
    simp [hclimb, hstays]
  · have hbase : bytePath.NamesBase (normalizeRemoteDirPathBytes path) ↔
        bytePath.Stays path := by
      rw [normalizeRemoteDirPathBytes_eq]
      split
      · exact namesBase_iff hclimb
      · rw [namesBase_iff, stays_withoutTrailing]
        rwa [climbs_withoutTrailing]
    rw [hbase]
    grind

theorem onlySlashes_iff :
    charPath.OnlySlashes path ↔ path = [] ∨ path = ['/'] ∨
      charPath.OnlySlashes path ∧ 2 ≤ path.length := by
  constructor
  · intro honly
    match path with
    | [] => exact .inl rfl
    | [c] =>
      have hc : c = '/' := honly c mem_cons_self
      exact .inr (.inl (congrArg (fun b => [b]) hc))
    | a :: b :: rest => exact .inr (.inr ⟨honly, Nat.le_add_left 2 _⟩)
  · rintro (rfl | rfl | ⟨honly, -⟩)
    · exact forall_mem_nil _
    · exact forall_mem_singleton.mpr rfl
    · exact honly

/-- Several slashes are all that the guard for bytes lets through of what the
other one looks for. -/
theorem not_single_of_slashes (honly : charPath.OnlySlashes path)
    (hlength : 2 ≤ path.length) :
    ¬ (path = [] ∨ path = ['/'] ∨ charPath.SingleDot path ∨
      charPath.Climbs path) := by
  rintro (rfl | rfl | ⟨n, rfl⟩ | hclimb)
  · exact absurd hlength (by decide)
  · exact absurd hlength (by decide)
  · exact absurd (honly '.' mem_cons_self) (by decide)
  · rw [← climbs_withoutTrailing,
      withoutTrailing_eq_nil.mpr honly] at hclimb
    exact absurd hclimb (by decide)

theorem guards_agree_iff :
    isSafeRecursiveRemoveTarget path =
        isSafeRecursiveRemoveTargetBytes (utf8 path) ↔
      ¬ (charPath.OnlySlashes path ∧ 2 ≤ path.length) ∧
        (Refusable charPath (trim path) → Refusable charPath path) := by
  have honly := onlySlashes_iff path
  have hslashes := not_single_of_slashes path
  have htrim := Refusable.trim path
  rw [Bool.eq_iff_iff, isSafeRecursiveRemoveTarget_iff,
    isSafeRecursiveRemoveTargetBytes_utf8, not_iff_not]
  generalize Refusable charPath (trim path) = trimmed at htrim ⊢
  rw [Refusable] at htrim ⊢
  grind

/-- What the guards let through, and where they disagree: paths without names
in which dots and slashes take turns, several slashes as bytes, and bases
with whitespace around them. -/
theorem removal_guards_iff (path : Str) (bytes : Bytes) :
    ((isSafeRecursiveRemoveTarget path = true →
          ¬ charPath.NamesBase (normalizeRemoteDirPath path)) ↔
        (charPath.Stays path →
          charPath.OnlySlashes path ∨ charPath.SingleDot path)) ∧
      ((isSafeRecursiveRemoveTargetBytes bytes = true →
          ¬ bytePath.NamesBase (normalizeRemoteDirPathBytes bytes)) ↔
        (bytePath.Stays bytes → bytes = [] ∨ bytes = [bytePath.slash] ∨
          bytePath.SingleDot bytes)) ∧
      (isSafeRecursiveRemoveTarget path =
          isSafeRecursiveRemoveTargetBytes (utf8 path) ↔
        ¬ (charPath.OnlySlashes path ∧ 2 ≤ path.length) ∧
          (Refusable charPath (trim path) → Refusable charPath path)) :=
  ⟨guarded_iff path, guarded_bytes_iff bytes, guards_agree_iff path⟩

/-- `/.` passes both guards, and `//` the one for bytes only. -/
theorem root_passes_guards :
    (isSafeRecursiveRemoveTarget "/.".toList = true ∧
        charPath.NamesBase (normalizeRemoteDirPath "/.".toList)) ∧
      (isSafeRecursiveRemoveTargetBytes [0x2f, 0x2f] = true ∧
        bytePath.NamesBase (normalizeRemoteDirPathBytes [0x2f, 0x2f])) ∧
      isSafeRecursiveRemoveTarget "//".toList ≠
        isSafeRecursiveRemoveTargetBytes (utf8 "//".toList) := by
  simp only [PosixPath.NamesBase]
  decide +kernel

end NiceTerm.Sftp
