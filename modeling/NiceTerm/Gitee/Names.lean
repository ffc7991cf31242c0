/-
The names of the files of a snippet.  A path of the sync directory has a
readable name, which does not say where that directory is; every other path has
its text encoded in the name, as in the past all paths had.
-/
import Mathlib.Data.Char
import NiceTerm.Lib.Base64
import NiceTerm.Lib.RustSplit
import NiceTerm.Lib.Search

namespace NiceTerm.Gitee

open RustStr

def syncSnapshotFile : Str := "sync/niceterm-snapshot.redb.enc".toList
def syncCurrentFile : Str := "sync/current.redb.enc".toList
def syncLatestFile : Str := "sync/latest.redb".toList
def syncSnapshotsDir : Str := "sync/snapshots/".toList

def remoteFilePrefix : Str := "niceterm-".toList
def remoteFileSuffix : Str := ".blob".toList
def syncLatestFilename : Str := "niceterm-latest.redb".toList
def syncCurrentFilename : Str := "niceterm-current.redb.enc".toList
def syncSnapshotFilename : Str := "niceterm-snapshot.redb.enc".toList
def syncSnapshotFilePrefix : Str := "niceterm-snapshot-".toList
def syncSnapshotFileSuffix : Str := ".redb.enc".toList
def readmeFilename : Str := "niceterm-readme.txt".toList

def remotePath (baseRoot child : Str) : Str :=
  let root := trimMatches '/' (trim baseRoot)
  let child := trimStartMatches '/' (trim child)
  if root.isEmpty then child
  else if child.isEmpty then root
  else root ++ ['/'] ++ child

/-- The path ends with the file, in a directory. -/
def endsInDirectory (normalized file : Str) : Bool :=
  match normalized.dropSuffix? file with
  | some front => ['/'].isSuffixOf front
  | none => false

variable (path : Str)

def giteeSyncPath : Option Str :=
  let normalized := trimMatches '/' (trim path)
  if normalized = syncLatestFile ∨ normalized = syncCurrentFile ∨
      normalized = syncSnapshotFile ∨
      syncSnapshotsDir.isPrefixOf normalized = true then some normalized
  else if endsInDirectory normalized syncLatestFile then some syncLatestFile
  else if endsInDirectory normalized syncCurrentFile then some syncCurrentFile
  else if endsInDirectory normalized syncSnapshotFile = true ∨
      normalized.dropSuffix? syncSnapshotFile = some [] then
    some syncSnapshotFile
  else
    (rfind ('/' :: syncSnapshotsDir) normalized).map fun index =>
      normalized.drop (index + 1)

/-- A revision that can stand in a file name. -/
def plainRevision (revision : Str) : Bool :=
  !(revision.isEmpty || revision.contains '/' || revision.contains '\\')

def giteeSemanticRemoteFilename : Option Str := do
  let syncPath ← giteeSyncPath path
  if syncPath = syncLatestFile then some syncLatestFilename
  else if syncPath = syncCurrentFile then some syncCurrentFilename
  else if syncPath = syncSnapshotFile then some syncSnapshotFilename
  else
    let snapshot ← syncPath.dropPrefix? syncSnapshotsDir
    let revision ← snapshot.dropSuffix? syncSnapshotFileSuffix
    if plainRevision revision then
      some (syncSnapshotFilePrefix ++ revision ++ syncSnapshotFileSuffix)
    else none

def giteeLegacyRemoteFilename : Str :=
  remoteFilePrefix ++ Base64.urlSafeNoPad.encode (utf8 path) ++ remoteFileSuffix

def giteeRemoteFilename : Str :=
  (giteeSemanticRemoteFilename path).getD (giteeLegacyRemoteFilename path)

def giteeRemoteFilenames : List Str :=
  let primary := giteeRemoteFilename path
  let legacy := giteeLegacyRemoteFilename path
  if primary = legacy then [primary] else [primary, legacy]

def giteeSemanticRemotePath (filename : Str) : Option Str :=
  if filename = syncLatestFilename then some syncLatestFile
  else if filename = syncCurrentFilename then some syncCurrentFile
  else if filename = syncSnapshotFilename then some syncSnapshotFile
  else do
    let back ← filename.dropPrefix? syncSnapshotFilePrefix
    let revision ← back.dropSuffix? syncSnapshotFileSuffix
    if plainRevision revision then
      some (syncSnapshotsDir ++ revision ++ syncSnapshotFileSuffix)
    else none

def giteeScopedRemotePath (scopePath syncPath : Str) : Str :=
  let scope := trimMatches '/' (trim scopePath)
  if scope.isEmpty = true ∨ scope = "sync".toList ∨
      "sync/".toList.isPrefixOf scope = true then syncPath
  else
    match rfind "/sync".toList scope with
    | some index =>
      let suffix := scope.drop index
      if suffix = "/sync".toList ∨ "/sync/".toList.isPrefixOf suffix = true
      then remotePath (scope.take index) syncPath
      else remotePath scope syncPath
    | none => remotePath scope syncPath

def giteeLegacyRemotePath (filename : Str) : Option Str := do
  let back ← filename.dropPrefix? remoteFilePrefix
  let encoded ← back.dropSuffix? remoteFileSuffix
  let bytes ← Base64.urlSafeNoPad.decode encoded
  fromUtf8 bytes

def giteeRemotePath (filename scopePath : Str) : Option Str :=
  match giteeSemanticRemotePath filename with
  | some syncPath => some (giteeScopedRemotePath scopePath syncPath)
  | none => giteeLegacyRemotePath filename

end NiceTerm.Gitee

/-! Names and paths belong together: a readable name is the name of its path
in every sync directory, and an encoded name of the path that is encoded in
it. -/

namespace NiceTerm.Gitee

open List Option RustStr

/-- The readable names, and the paths below the sync directory that they stand
for. -/
inductive SyncName : Str → Str → Prop
  | latest : SyncName syncLatestFilename syncLatestFile
  | current : SyncName syncCurrentFilename syncCurrentFile
  | snapshot : SyncName syncSnapshotFilename syncSnapshotFile
  | revision {revision : Str} (h : plainRevision revision = true) :
      SyncName (syncSnapshotFilePrefix ++ revision ++ syncSnapshotFileSuffix)
        (syncSnapshotsDir ++ revision ++ syncSnapshotFileSuffix)

theorem plainRevision_iff {revision : Str} : plainRevision revision = true ↔
    revision ≠ [] ∧ '/' ∉ revision ∧ '\\' ∉ revision := by
  simp [plainRevision, and_assoc]

/-- A text with a plain revision between `front` and the suffix is made into
another one from the revision. -/
theorem renamed_eq_some {front text result : Str} {make : Str → Str} :
    (do
      let back ← text.dropPrefix? front
      let revision ← back.dropSuffix? syncSnapshotFileSuffix
      if plainRevision revision then some (make revision) else none) =
        some result ↔
      ∃ revision, plainRevision revision = true ∧ text = front ++ revision ++
        syncSnapshotFileSuffix ∧ result = make revision := by
  constructor
  · intro h
    obtain ⟨back, hback, hbind⟩ := bind_eq_some_iff.mp h
    obtain ⟨revision, hrevision, hmade⟩ := bind_eq_some_iff.mp hbind
    by_cases hplain : plainRevision revision = true
    · rw [if_pos hplain, some.injEq] at hmade
      rw [Search.dropPrefix?_eq_some] at hback
      rw [Search.dropSuffix?_eq_some] at hrevision
      refine ⟨revision, hplain, ?_, hmade.symm⟩
      rw [hback, hrevision, append_assoc]
    · rw [if_neg hplain] at hmade
      cases hmade
  · rintro ⟨revision, hplain, rfl, rfl⟩
    have hsuffix : (revision ++ syncSnapshotFileSuffix).dropSuffix?
        syncSnapshotFileSuffix = some revision :=
      Search.dropSuffix?_eq_some.mpr rfl
    rw [append_assoc, Search.dropPrefix?_append]
    simp only [bind_eq_bind, bind_some, hsuffix, hplain, ↓reduceIte]

theorem revision_ne {front revision other : Str} (h : ¬ front <+: other) :
    front ++ revision ++ syncSnapshotFileSuffix ≠ other := by
  rintro rfl
  rw [append_assoc] at h
  exact h (prefix_append _ _)

theorem semanticPath_eq_some {filename syncPath : Str} :
    giteeSemanticRemotePath filename = some syncPath ↔
      SyncName filename syncPath := by
  rw [giteeSemanticRemotePath]
  constructor
  · intro h
    by_cases hlatest : filename = syncLatestFilename
    · rw [if_pos hlatest, some.injEq] at h
      exact hlatest ▸ h ▸ .latest
    · by_cases hcurrent : filename = syncCurrentFilename
      · rw [if_neg hlatest, if_pos hcurrent, some.injEq] at h
        exact hcurrent ▸ h ▸ .current
      · by_cases hsnapshot : filename = syncSnapshotFilename
        · rw [if_neg hlatest, if_neg hcurrent, if_pos hsnapshot,
            some.injEq] at h
          exact hsnapshot ▸ h ▸ .snapshot
        · rw [if_neg hlatest, if_neg hcurrent, if_neg hsnapshot] at h
          obtain ⟨revision, hplain, rfl, rfl⟩ := renamed_eq_some.mp h
          exact .revision hplain
  · intro h
    cases h with
    | latest => decide
    | current => decide
    | snapshot => decide
    | @revision revision hplain =>
      rw [if_neg (revision_ne (by decide)), if_neg (revision_ne (by decide)),
        if_neg (revision_ne (by decide))]
      exact renamed_eq_some.mpr ⟨revision, hplain, rfl, rfl⟩

/-- A path has the readable name of its part below the sync directory. -/
theorem semanticFilename_eq_some {path filename : Str} :
    giteeSemanticRemoteFilename path = some filename ↔
      ∃ syncPath, giteeSyncPath path = some syncPath ∧
        SyncName filename syncPath := by
  rw [giteeSemanticRemoteFilename, bind_eq_bind, bind_eq_some_iff]
  refine exists_congr fun syncPath => and_congr_right fun _ => ?_
  constructor
  · intro h
    by_cases hlatest : syncPath = syncLatestFile
    · rw [if_pos hlatest, some.injEq] at h
      exact hlatest ▸ h ▸ .latest
    · by_cases hcurrent : syncPath = syncCurrentFile
      · rw [if_neg hlatest, if_pos hcurrent, some.injEq] at h
        exact hcurrent ▸ h ▸ .current
      · by_cases hsnapshot : syncPath = syncSnapshotFile
        · rw [if_neg hlatest, if_neg hcurrent, if_pos hsnapshot,
            some.injEq] at h
          exact hsnapshot ▸ h ▸ .snapshot
        · rw [if_neg hlatest, if_neg hcurrent, if_neg hsnapshot] at h
          obtain ⟨revision, hplain, rfl, rfl⟩ := renamed_eq_some.mp h
          exact .revision hplain
  · intro h
    cases h with
    | latest => decide
    | current => decide
    | snapshot => decide
    | @revision revision hplain =>
      rw [if_neg (revision_ne (by decide)), if_neg (revision_ne (by decide)),
        if_neg (revision_ne (by decide))]
      exact renamed_eq_some.mpr ⟨revision, hplain, rfl, rfl⟩

/-- No encoded name is readable. -/
theorem SyncName.ne_legacy {filename syncPath : Str}
    (h : SyncName filename syncPath) (path : Str) :
    filename ≠ giteeLegacyRemoteFilename path := by
  intro heq
  have hblob : remoteFileSuffix <:+ filename := by
    rw [heq]
    exact suffix_append _ _
  cases h with
  | latest => exact absurd hblob (by decide)
  | current => exact absurd hblob (by decide)
  | snapshot => exact absurd hblob (by decide)
  | @revision revision hplain =>
    have hboth := suffix_of_suffix_length_le hblob
      (suffix_append (syncSnapshotFilePrefix ++ revision)
        syncSnapshotFileSuffix) (by decide)
    exact absurd hboth (by decide)

theorem semanticPath_legacy (path : Str) :
    giteeSemanticRemotePath (giteeLegacyRemoteFilename path) = none := by
  rw [eq_none_iff_forall_not_mem]
  exact fun syncPath h => (semanticPath_eq_some.mp h).ne_legacy path rfl

theorem legacyPath_legacy (path : Str) :
    giteeLegacyRemotePath (giteeLegacyRemoteFilename path) = some path := by
  have hsuffix : (Base64.urlSafeNoPad.encode (utf8 path) ++
      remoteFileSuffix).dropSuffix? remoteFileSuffix =
        some (Base64.urlSafeNoPad.encode (utf8 path)) :=
    Search.dropSuffix?_eq_some.mpr rfl
  rw [giteeLegacyRemotePath, giteeLegacyRemoteFilename, append_assoc,
    Search.dropPrefix?_append]
  simp only [bind_eq_bind, bind_some, hsuffix,
    Base64.Engine.decode_encoded, fromUtf8_utf8]

theorem legacy_injective : Function.Injective giteeLegacyRemoteFilename := by
  intro first second heq
  have hboth := congrArg giteeLegacyRemotePath heq
  rw [legacyPath_legacy, legacyPath_legacy] at hboth
  exact some.inj hboth

theorem remotePath_legacy (path scope : Str) :
    giteeRemotePath (giteeLegacyRemoteFilename path) scope = some path := by
  rw [giteeRemotePath, semanticPath_legacy]
  exact legacyPath_legacy path

theorem remotePath_readme (scope : Str) :
    giteeRemotePath readmeFilename scope = none := by
  have hsemantic : giteeSemanticRemotePath readmeFilename = none := by decide
  have hlegacy : giteeLegacyRemotePath readmeFilename = none := by decide
  rw [giteeRemotePath, hsemantic]
  exact hlegacy

end NiceTerm.Gitee
