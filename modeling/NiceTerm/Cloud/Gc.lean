/-
The cleanup behind a push, a pull or a recovery.  It runs on the files of the
remote by their paths: first everything of the old layout is deleted, then the
snapshots that are left are planned for deletion.
-/
import Mathlib.Data.List.Sort
import NiceTerm.Cloud.Push
import NiceTerm.Lib.RustSplit

namespace NiceTerm.Cloud

open List RustStr

variable {Content Payload : Type} (S : Portable Content Payload)

/-- The files of a remote by their paths. -/
abbrev Store (Payload : Type) := List (Str × RemoteObject Payload)

namespace Store

variable (store : Store Payload)

def readIfExists (path : Str) : Option (RemoteObject Payload) :=
  (store.find? fun file => file.1 == path).map Prod.snd

def delete (path : Str) : Store Payload :=
  store.filter fun file => file.1 != path

def write (path : Str) (object : RemoteObject Payload) : Store Payload :=
  (path, object) :: store.delete path

def listFiles (base : Str) : List Str :=
  (store.map Prod.fst).filter fun path => base.isPrefixOf path

def deleteAll (paths : List Str) : Store Payload :=
  paths.foldl delete store

end Store

def syncSnapshotsDir : Str := "sync/snapshots/".toList

def snapshotExtension : Str := ".redb.enc".toList

def remotePath (baseRoot child : Str) : Str :=
  let root := trimMatches '/' (trim baseRoot)
  let child := trimStartMatches '/' (trim child)
  if root.isEmpty then child
  else if child.isEmpty then root
  else root ++ '/' :: child

def legacySyncSnapshotFile (revision : Str) : Str :=
  syncSnapshotsDir ++ revision ++ snapshotExtension

def SyncFile.name : SyncFile → Str
  | .snapshot => "sync/niceterm-snapshot.redb.enc".toList
  | .current => "sync/current.redb.enc".toList
  | .latest => "sync/latest.redb".toList
  | .legacySnapshot revision => legacySyncSnapshotFile revision

variable (store : Store Payload) (root : Str)

/-- The remote as the sync operations read it. -/
def Store.remote : Remote Payload :=
  fun file => store.readIfExists (remotePath root file.name)

def isLegacySyncSnapshotPath (path root : Str) : Bool :=
  (remotePath root syncSnapshotsDir).isPrefixOf path &&
    snapshotExtension.isSuffixOf path

def snapshotRevisionFromPath (path : Str) : Option Str :=
  let filename := (rsplitOnce '/' path).elim path Prod.snd
  if snapshotExtension.isSuffixOf filename then
    some (filename.take (filename.length - snapshotExtension.length)) |>.filter
      fun revision => !revision.isEmpty
  else none

structure SnapshotGcEntry where
  path : Str
  revisionId : Str
  createdAtMs : Nat
  deletable : Bool
deriving Repr, DecidableEq

def Portable.readSnapshotForGc (remote : Remote Payload) (revision : Str) :
    Except SyncError (Nat × Str) :=
  match remote (S.syncSnapshotFile revision) with
  | none => .ok (0, [])
  | some object =>
    match object.decode? with
    | none => .error .undecodable
    | some decoded =>
      if decoded.snapshot.revisionId != revision then
        .error (.revisionMismatch revision decoded.snapshot.revisionId)
      else
        .ok (decoded.snapshot.createdAtMs, decoded.snapshot.payloadHash)

/-- The entry of one file; a file that cannot be read is kept. -/
def Portable.gcEntry (remote : Remote Payload) (path : Str) : SnapshotGcEntry :=
  match snapshotRevisionFromPath path with
  | none => ⟨path, [], 0, false⟩
  | some revisionId =>
    match S.readSnapshotForGc remote revisionId with
    | .ok (createdAtMs, payloadHash) =>
      ⟨path, revisionId, createdAtMs, !payloadHash.isEmpty⟩
    | .error _ => ⟨path, revisionId, 0, false⟩

def Portable.collectSnapshots :
    List SnapshotGcEntry :=
  ((store.listFiles (remotePath root syncSnapshotsDir)).filter
    fun path => isLegacySyncSnapshotPath path root).map
      (S.gcEntry (store.remote root))

def byCreation (snapshots : List SnapshotGcEntry) : List SnapshotGcEntry :=
  snapshots.mergeSort fun first second =>
    first.createdAtMs ≤ second.createdAtMs

/-- The entries that were created last. -/
def newest (keepRecent : Nat) (snapshots : List SnapshotGcEntry) :
    List SnapshotGcEntry :=
  (byCreation snapshots).reverse.take keepRecent

def planSnapshotGc (snapshots : List SnapshotGcEntry)
    (latestRevision : Option Str) (nowMs keepRecent graceMs : Nat) : List Str :=
  let kept := latestRevision.toList ++
    (newest keepRecent snapshots).map SnapshotGcEntry.revisionId
  ((byCreation snapshots).filter fun snapshot =>
    snapshot.deletable && !kept.contains snapshot.revisionId &&
      decide (graceMs < nowMs - snapshot.createdAtMs)).map SnapshotGcEntry.path

def syncSnapshotKeepRecent : Nat := 5

/-- `SYNC_SNAPSHOT_GC_GRACE_PERIOD`, in milliseconds. -/
def syncSnapshotGcGraceMs : Nat := 24 * 60 * 60 * 1000

variable (latest : Option RemoteSyncPointer) (nowMs : Nat)

def Portable.cleanupSyncSnapshots : Store Payload :=
  store.deleteAll (planSnapshotGc (S.collectSnapshots store root)
    (latest.map RemoteSyncPointer.revisionId) nowMs syncSnapshotKeepRecent
    syncSnapshotGcGraceMs)

def cleanupLegacySyncObjects :
    Store Payload :=
  let store := store.deleteAll [remotePath root SyncFile.current.name,
      remotePath root SyncFile.latest.name]
  store.deleteAll (store.listFiles (remotePath root syncSnapshotsDir))

/-- The work of `schedule_sync_snapshot_gc`. -/
def Portable.syncSnapshotGc : Store Payload :=
  S.cleanupSyncSnapshots (cleanupLegacySyncObjects store root) root latest nowMs

/-- The snapshot to which the head of the remote resolves. -/
def Portable.live (remote : Remote Payload) :
    Option (PortableSnapshot Payload) :=
  match loadSyncPointer remote with
  | .ok (some pointer) =>
    match (S.resolveRemoteSnapshot true remote pointer).1 with
    | .ok (.current snapshot) => some snapshot
    | .ok (.legacyMigrated snapshot) => some snapshot
    | _ => none
  | _ => none

/-- What a cleanup is not to delete among the snapshots it finds. -/
def SnapshotGcEntry.Protected (snapshots : List SnapshotGcEntry)
    (latest : Option RemoteSyncPointer) (nowMs : Nat)
    (entry : SnapshotGcEntry) : Prop :=
  latest.map RemoteSyncPointer.revisionId = some entry.revisionId ∨
    entry ∈ newest syncSnapshotKeepRecent snapshots ∨
    nowMs - entry.createdAtMs ≤ syncSnapshotGcGraceMs

/-- The plan spares what is protected, whatever is on the remote. -/
theorem planSnapshotGc_spares {snapshots : List SnapshotGcEntry}
    {latest : Option RemoteSyncPointer} {nowMs : Nat} {path : Str}
    (h : path ∈ planSnapshotGc snapshots
      (latest.map RemoteSyncPointer.revisionId) nowMs syncSnapshotKeepRecent
      syncSnapshotGcGraceMs) :
    ∃ entry ∈ snapshots, entry.path = path ∧
      ¬ entry.Protected snapshots latest nowMs := by
  obtain ⟨entry, hentry, hpath⟩ := mem_map.mp h
  obtain ⟨hmem, hplanned⟩ := mem_filter.mp hentry
  simp only [Bool.and_eq_true, Bool.not_eq_true', decide_eq_true_eq] at hplanned
  obtain ⟨⟨-, hkept⟩, hold⟩ := hplanned
  rw [← Bool.not_eq_true, contains_iff_mem, mem_append, not_or] at hkept
  refine ⟨entry, mem_mergeSort.mp hmem, hpath, ?_⟩
  rintro (hlatest | hnewest | hyoung)
  · exact hkept.1 (Option.mem_toList.mpr hlatest)
  · exact hkept.2 (mem_map_of_mem hnewest)
  · omega

namespace Store

variable {store : Store Payload}

theorem readIfExists_filter (p : Str → Bool) (path : Str) :
    readIfExists (store.filter fun file => p file.1) path =
      if p path then store.readIfExists path else none := by
  unfold readIfExists
  rw [find?_filter]
  cases hp : p path with
  | true =>
    congr 2
    funext file
    by_cases hpath : file.1 = path
    · simp [hpath, hp]
    · simp [hpath]
  | false =>
    rw [find?_eq_none.mpr]
    · rfl
    · intro file _
      by_cases hpath : file.1 = path
      · simp [hpath, hp]
      · simp [hpath]

theorem deleteAll_eq (paths : List Str) :
    store.deleteAll paths =
      store.filter fun file => !paths.contains file.1 := by
  induction paths generalizing store with
  | nil => simp [deleteAll]
  | cons path rest ih =>
    change (store.delete path).deleteAll rest = _
    rw [ih, delete, filter_filter]
    congr 1
    funext file
    rw [contains_cons, Bool.not_or, Bool.and_comm]
    rfl

theorem readIfExists_deleteAll (paths : List Str) (path : Str) :
    (store.deleteAll paths).readIfExists path =
      if path ∈ paths then none else store.readIfExists path := by
  rw [deleteAll_eq, readIfExists_filter fun path => !paths.contains path]
  by_cases hmem : path ∈ paths
  · simp [hmem]
  · simp [hmem]

theorem readIfExists_eq_none {path : Str}
    (h : ∀ object, (path, object) ∉ store) :
    store.readIfExists path = none := by
  rw [readIfExists, find?_eq_none.mpr]
  · rfl
  · rintro ⟨found, object⟩ hmem hpath
    obtain rfl := eq_of_beq hpath
    exact h object hmem

theorem mem_listFiles {base path : Str} :
    path ∈ store.listFiles base ↔
      base <+: path ∧ ∃ object, (path, object) ∈ store := by
  simp [listFiles, and_comm]

theorem mem_deleteAll {paths : List Str} {file : Str × RemoteObject Payload} :
    file ∈ store.deleteAll paths ↔ file ∈ store ∧ file.1 ∉ paths := by
  rw [deleteAll_eq]
  simp

end Store

/-- What stands before the child in a path of the remote. -/
def rootPrefix : Str :=
  if (trimMatches '/' (trim root)).isEmpty then []
  else trimMatches '/' (trim root) ++ ['/']

theorem remotePath_of_plain {child : Str}
    (htrim : trimStartMatches '/' (trim child) = child) (hne : child ≠ []) :
    remotePath root child = rootPrefix root ++ child := by
  rw [remotePath, rootPrefix]
  simp only [htrim]
  split
  · rfl
  · rw [if_neg (by simpa using hne), append_assoc]
    rfl

theorem trim_of_ends {child : Str} {first last : Char}
    (hfirst : child.head? = some first) (hlast : child.getLast? = some last)
    (hspace : isWhitespace first = false) (hslash : first ≠ '/')
    (hend : isWhitespace last = false) :
    trimStartMatches '/' (trim child) = child := by
  have htrim : trim child = child := by
    refine trimBoth_of_ends isWhitespace (fun c hc => ?_) fun c hc => ?_
    · rw [← Option.some.inj (hfirst.symm.trans hc)]
      exact hspace
    · rw [← Option.some.inj (hlast.symm.trans hc)]
      exact hend
  rw [htrim]
  cases child with
  | nil => cases hfirst
  | cons c rest =>
    cases hfirst
    exact dropWhile_cons_of_neg (by simpa using hslash)

theorem SyncFile.trim_name (file : SyncFile) :
    trimStartMatches '/' (trim file.name) = file.name := by
  cases file with
  | snapshot => decide
  | current => decide
  | latest => decide
  | legacySnapshot revision =>
    have hfirst : (legacySyncSnapshotFile revision).head? = some 's' := rfl
    have hlast : (legacySyncSnapshotFile revision).getLast? = some 'c' := by
      rw [legacySyncSnapshotFile, getLast?_append]
      rfl
    exact trim_of_ends hfirst hlast (by decide) (by decide) (by decide)

theorem remotePath_name (file : SyncFile) :
    remotePath root file.name = rootPrefix root ++ file.name := by
  refine remotePath_of_plain root file.trim_name ?_
  cases file with
  | snapshot => decide
  | current => decide
  | latest => decide
  | legacySnapshot revision => exact cons_ne_nil _ _

theorem remotePath_snapshotsDir :
    remotePath root syncSnapshotsDir = rootPrefix root ++ syncSnapshotsDir :=
  remotePath_of_plain root (by decide) (by decide)

theorem readIfExists_cleanupLegacySyncObjects (path : Str) :
    (cleanupLegacySyncObjects store root).readIfExists path =
      if remotePath root syncSnapshotsDir <+: path ∨
          path = remotePath root SyncFile.current.name ∨
          path = remotePath root SyncFile.latest.name then none
      else store.readIfExists path := by
  rw [cleanupLegacySyncObjects, Store.readIfExists_deleteAll]
  by_cases hdir : remotePath root syncSnapshotsDir <+: path
  · rw [if_pos (Or.inl hdir)]
    split
    · rfl
    · next hlisted =>
      refine Store.readIfExists_eq_none fun object hmem => hlisted ?_
      exact Store.mem_listFiles.mpr ⟨hdir, object, hmem⟩
  · have hlisted : ∀ listed : Store Payload,
        path ∉ listed.listFiles (remotePath root syncSnapshotsDir) :=
      fun _ hmem => hdir (Store.mem_listFiles.mp hmem).1
    rw [if_neg (hlisted _), Store.readIfExists_deleteAll]
    simp only [hdir, false_or, mem_cons, not_mem_nil, or_false]

theorem listFiles_cleanupLegacySyncObjects :
    (cleanupLegacySyncObjects store root).listFiles
      (remotePath root syncSnapshotsDir) = [] := by
  refine eq_nil_iff_forall_not_mem.mpr fun path hmem => ?_
  obtain ⟨hdir, object, hobject⟩ := Store.mem_listFiles.mp hmem
  obtain ⟨hbefore, hkept⟩ := Store.mem_deleteAll.mp hobject
  exact hkept (Store.mem_listFiles.mpr ⟨hdir, object, hbefore⟩)

theorem planSnapshotGc_nil (latestRevision : Option Str)
    (nowMs keepRecent graceMs : Nat) :
    planSnapshotGc [] latestRevision nowMs keepRecent graceMs = [] := by
  rw [planSnapshotGc, byCreation, mergeSort_nil]
  rfl

theorem Portable.syncSnapshotGc_eq :
    S.syncSnapshotGc store root latest nowMs =
      cleanupLegacySyncObjects store root := by
  rw [Portable.syncSnapshotGc, Portable.cleanupSyncSnapshots,
    Portable.collectSnapshots, listFiles_cleanupLegacySyncObjects,
    filter_nil, map_nil, planSnapshotGc_nil]
  rfl

/-- Only the stable file is left of a remote. -/
def Remote.stableOnly (remote : Remote Payload) : Remote Payload
  | .snapshot => remote .snapshot
  | _ => none

theorem Portable.remote_syncSnapshotGc :
    (S.syncSnapshotGc store root latest nowMs).remote root =
      (store.remote root).stableOnly := by
  funext file
  rw [Portable.syncSnapshotGc_eq, Store.remote,
    readIfExists_cleanupLegacySyncObjects]
  simp only [remotePath_name, remotePath_snapshotsDir,
    prefix_append_right_inj, append_cancel_left_eq]
  cases file with
  | snapshot =>
    rw [if_neg (by decide)]
    exact congrArg store.readIfExists (remotePath_name root .snapshot).symm
  | current => exact if_pos (.inr (.inl rfl))
  | latest => exact if_pos (.inr (.inr rfl))
  | legacySnapshot revision =>
    refine if_pos (.inl ?_)
    exact (prefix_append _ _).trans (prefix_append _ _)

variable {remote : Remote Payload} {object : RemoteObject Payload}

theorem loadSyncPointer_stableOnly (h : remote .snapshot = some object) :
    loadSyncPointer remote.stableOnly = loadSyncPointer remote := by
  rw [loadSyncPointer, loadSyncPointer, Remote.stableOnly, h]

/-- Without old snapshots, a remote with a stable file resolves its pointers
from that file alone. -/
theorem Portable.resolve_stableOnly (hstable : remote .snapshot = some object)
    (hlegacy : ∀ revision, remote (.legacySnapshot revision) = none)
    (pointer : RemoteSyncPointer) :
    (S.resolveRemoteSnapshot true remote.stableOnly pointer).1 =
      (S.resolveRemoteSnapshot true remote pointer).1 := by
  have hfile : ∀ revision, remote.stableOnly (S.syncSnapshotFile revision) =
      remote (S.syncSnapshotFile revision) := by
    intro revision
    rw [Portable.syncSnapshotFile]
    split
    · rfl
    · exact (hlegacy revision).symm
  have hread : S.readSnapshotForPointer true remote.stableOnly pointer =
      S.readSnapshotForPointer true remote pointer := by
    rw [Portable.readSnapshotForPointer, Portable.readSnapshotForPointer, hfile]
  have hcurrent : readCurrentSyncSnapshotCompatDecoded true remote.stableOnly =
      readCurrentSyncSnapshotCompatDecoded true remote := by
    rw [readCurrentSyncSnapshotCompatDecoded,
      readCurrentSyncSnapshotCompatDecoded, Remote.stableOnly, hstable]
  have hmigrate : ∀ snapshot,
      (S.migrateLegacySnapshot true remote.stableOnly pointer snapshot).1 =
        (S.migrateLegacySnapshot true remote pointer snapshot).1 := by
    intro snapshot
    simp only [Portable.migrateLegacySnapshot, Portable.readSnapshotForPointer,
      Remote.write, Function.update_apply, hfile]
  rw [Portable.resolveRemoteSnapshot, Portable.resolveRemoteSnapshot, hread]
  cases S.readSnapshotForPointer true remote pointer with
  | ok snapshot => rfl
  | error error =>
    simp only
    split
    · rw [Portable.resolveFromCompatibleCurrent,
        Portable.resolveFromCompatibleCurrent, hcurrent]
      split
      · rfl
      · rfl
      · rfl
      · split
        · simp only [hmigrate]
        · rfl
    · rfl

theorem exists_stable_of_live {snapshot : PortableSnapshot Payload}
    (h : S.live remote.stableOnly = some snapshot) :
    ∃ object, remote .snapshot = some object := by
  cases hstable : remote .snapshot with
  | some object => exact ⟨object, rfl⟩
  | none =>
    have hload : loadSyncPointer remote.stableOnly = .ok none := by
      rw [loadSyncPointer, Remote.stableOnly, hstable]
      rfl
    rw [Portable.live, hload] at h
    cases h

theorem newest_ne_nil {snapshots : List SnapshotGcEntry}
    (h : snapshots ≠ []) : ∃ entry, entry ∈ newest syncSnapshotKeepRecent
      snapshots := by
  have hlength : 0 < (byCreation snapshots).length := by
    rw [byCreation, length_mergeSort]
    exact length_pos_iff.mpr h
  have hnewest : 0 < (newest syncSnapshotKeepRecent snapshots).length := by
    rw [newest, length_take, length_reverse]
    exact Nat.lt_min.mpr ⟨by decide, hlength⟩
  exact exists_mem_of_length_pos hnewest

theorem path_gcEntry (remote : Remote Payload) (path : Str) :
    (S.gcEntry remote path).path = path := by
  unfold Portable.gcEntry
  split
  · rfl
  · split <;> rfl

theorem mem_collectSnapshots {store : Store Payload} {root : Str}
    {entry : SnapshotGcEntry} (h : entry ∈ S.collectSnapshots store root) :
    isLegacySyncSnapshotPath entry.path root = true ∧
      ∃ object, (entry.path, object) ∈ store := by
  obtain ⟨path, hpath, rfl⟩ := mem_map.mp h
  obtain ⟨hlisted, hold⟩ := mem_filter.mp hpath
  rw [path_gcEntry]
  exact ⟨hold, (Store.mem_listFiles.mp hlisted).2⟩

theorem collectSnapshots_ne_nil {store : Store Payload} {root : Str}
    {file : Str × RemoteObject Payload} (hfile : file ∈ store)
    (hold : isLegacySyncSnapshotPath file.1 root = true) :
    S.collectSnapshots store root ≠ [] := by
  have hdir := (Bool.and_eq_true_iff.mp hold).1
  have hlisted : file.1 ∈ store.listFiles (remotePath root syncSnapshotsDir) :=
    Store.mem_listFiles.mpr ⟨List.isPrefixOf_iff_prefix.mp hdir, file.2, hfile⟩
  exact ne_nil_of_mem (mem_map_of_mem (mem_filter.mpr ⟨hlisted, hold⟩))

theorem isLegacySyncSnapshotPath_name (revision : Str) :
    isLegacySyncSnapshotPath
      (remotePath root (SyncFile.legacySnapshot revision).name) root =
        true := by
  rw [isLegacySyncSnapshotPath, remotePath_name, remotePath_snapshotsDir,
    Bool.and_eq_true, isPrefixOf_iff_prefix, isSuffixOf_iff_suffix]
  refine ⟨prefix_append_right_inj _ |>.mpr ?_, ?_⟩
  · exact (prefix_append _ _).trans (prefix_append _ _)
  · exact (suffix_append _ _).trans (suffix_append _ _)

/-- A snapshot of the old layout does not outlive the cleanup. -/
theorem readIfExists_syncSnapshotGc_of_legacy
    {root path : Str} (h : isLegacySyncSnapshotPath path root = true)
    (latest : Option RemoteSyncPointer) (nowMs : Nat) :
    (S.syncSnapshotGc store root latest nowMs).readIfExists path = none := by
  have hdir := (Bool.and_eq_true_iff.mp h).1
  rw [S.syncSnapshotGc_eq, readIfExists_cleanupLegacySyncObjects]
  exact if_pos (.inl (List.isPrefixOf_iff_prefix.mp hdir))

theorem Portable.live_stableOnly (hstable : remote .snapshot = some object)
    (hlegacy : ∀ revision, remote (.legacySnapshot revision) = none) :
    S.live remote.stableOnly = S.live remote := by
  rw [Portable.live, Portable.live, loadSyncPointer_stableOnly hstable]
  split
  · rw [S.resolve_stableOnly hstable hlegacy]
  · rfl

/-- A cleanup behind a head that resolves keeps what it resolves to, and the
snapshots that are latest, recent or young, exactly if the head is in the
stable file and no snapshot of the old layout is left. -/
theorem gc_keeps_iff {store : Store Payload} {root : Str}
    {snapshot : PortableSnapshot Payload}
    (hlive : S.live (store.remote root) = some snapshot)
    (latest : Option RemoteSyncPointer) (nowMs : Nat) :
    (S.live ((S.syncSnapshotGc store root latest nowMs).remote root) =
        some snapshot ∧
      ∀ entry ∈ S.collectSnapshots store root,
        entry.Protected (S.collectSnapshots store root) latest nowMs →
          ((S.syncSnapshotGc store root latest nowMs).readIfExists
            entry.path).isSome = true) ↔
      (store.readIfExists (remotePath root SyncFile.snapshot.name)).isSome =
          true ∧
        ∀ file ∈ store, isLegacySyncSnapshotPath file.1 root = false := by
  rw [S.remote_syncSnapshotGc]
  constructor
  · rintro ⟨hafter, hkept⟩
    obtain ⟨object, hobject⟩ := exists_stable_of_live S hafter
    refine ⟨?_, ?_⟩
    · change (store.remote root .snapshot).isSome = true
      rw [hobject]
      rfl
    · intro file hfile
      by_contra hold
      rw [Bool.not_eq_false] at hold
      obtain ⟨entry, hnewest⟩ :=
        newest_ne_nil (collectSnapshots_ne_nil S hfile hold)
      have hentry : entry ∈ S.collectSnapshots store root :=
        mem_mergeSort.mp (mem_reverse.mp (mem_of_mem_take hnewest))
      have hread := hkept entry hentry (.inr (.inl hnewest))
      rw [readIfExists_syncSnapshotGc_of_legacy S store
        (mem_collectSnapshots S hentry).1] at hread
      cases hread
  · rintro ⟨hstable, hlegacy⟩
    obtain ⟨object, hobject⟩ := Option.isSome_iff_exists.mp hstable
    refine ⟨?_, fun entry hentry => ?_⟩
    · rw [S.live_stableOnly hobject, hlive]
      intro revision
      refine Store.readIfExists_eq_none fun object hmem => ?_
      have hold := hlegacy _ hmem
      rw [isLegacySyncSnapshotPath_name] at hold
      cases hold
    · obtain ⟨hold, object, hmem⟩ := mem_collectSnapshots S hentry
      rw [hlegacy _ hmem] at hold
      cases hold

def savedSnapshot (revision : Str) : PortableSnapshot Nat :=
  { schemaVersion := 3, snapshotKind := .sync, revisionId := revision
    deviceId := "laptop".toList, createdAtMs := 1, payloadHash := "h7".toList
    appVersion := "1.0.0".toList, payload := 7 }

def rootName : Str := "niceterm".toList

/-- A stable file beside the pointer and the current file of an older push. -/
def pushedStore : Store Nat :=
  [(remotePath rootName SyncFile.latest.name,
      .pointer (pointerFromSnapshot (savedSnapshot "r1".toList))),
    (remotePath rootName SyncFile.current.name,
      plain.encoded (savedSnapshot "r1".toList)),
    (remotePath rootName SyncFile.snapshot.name,
      plain.encoded (savedSnapshot firstRevision))]

/-- The older objects are deleted, and the head resolves as before. -/
theorem pushed_snapshot_kept :
    (plain.syncSnapshotGc pushedStore rootName
        (some (pointerFromSnapshot (savedSnapshot firstRevision))) 2).map
          Prod.fst = [remotePath rootName SyncFile.snapshot.name] ∧
      plain.live ((plain.syncSnapshotGc pushedStore rootName
        (some (pointerFromSnapshot (savedSnapshot firstRevision))) 2).remote
          rootName) = some (savedSnapshot firstRevision) := by
  have hlegacy : ∀ file ∈ pushedStore,
      isLegacySyncSnapshotPath file.1 rootName = false := by
    intro file hfile
    simp only [pushedStore, mem_cons, not_mem_nil, or_false] at hfile
    rcases hfile with rfl | rfl | rfl <;> decide
  have hkept := (gc_keeps_iff plain rfl
    (some (pointerFromSnapshot (savedSnapshot firstRevision))) 2).mpr
    ⟨rfl, hlegacy⟩
  refine ⟨?_, hkept.1⟩
  rw [Portable.syncSnapshotGc_eq]
  rfl

/-- A pull from a remote of the old layout writes the current file, and the
cleanup deletes that file, the snapshot it comes from, and the pointer. -/
theorem pulled_snapshot_deleted :
    ¬ ∀ (before : Store Nat) (root : Str) (latest : RemoteSyncPointer)
        (snapshot : PortableSnapshot Nat) (nowMs : Nat),
      loadSyncPointer (before.remote root) = .ok (some latest) →
      (plain.resolveRemoteSnapshot true (before.remote root) latest).1 =
        .ok (.current snapshot) →
      plain.live ((plain.syncSnapshotGc (before.write (remotePath root
              (plain.currentSnapshotFile snapshot.revisionId).name)
            (plain.encoded snapshot)) root (some latest) nowMs).remote root) =
        some snapshot := by
  intro hkept
  let pulled := savedSnapshot "r1".toList
  have hlive := hkept [(remotePath rootName SyncFile.latest.name,
        .pointer (pointerFromSnapshot pulled)),
      (remotePath rootName (SyncFile.legacySnapshot "r1".toList).name,
        plain.encoded pulled)]
    rootName (pointerFromSnapshot pulled) pulled 2 rfl rfl
  rw [Portable.remote_syncSnapshotGc] at hlive
  change none = some pulled at hlive
  cases hlive

end NiceTerm.Cloud
