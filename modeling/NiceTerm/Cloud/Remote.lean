/-
The remote side of cloud sync: a store of files that the devices read and
write one at a time.  An encrypted file stands for what decrypting and decoding
it gives.
-/
import NiceTerm.Lib.RustStr

namespace NiceTerm.Cloud

open RustStr

inductive PortableSnapshotKind where
  | sync
  | backup
deriving Repr, DecidableEq

structure PortableSnapshot (Payload : Type) where
  schemaVersion : Nat
  snapshotKind : PortableSnapshotKind
  revisionId : Str
  deviceId : Str
  createdAtMs : Nat
  payloadHash : Str
  appVersion : Str
  payload : Payload
deriving Repr, DecidableEq

/-- What cloud sync takes from the rest of the program: the payload of
`build_portable_snapshot` and its hash, what `apply_portable_snapshot` makes of
the local content, the length of an encoded and encrypted snapshot, and
`uuid::Uuid::parse_str(..).is_ok()`. -/
structure Portable (Content Payload : Type) where
  build : Content → Payload
  payloadHash : Payload → Str
  apply : PortableSnapshot Payload → Content → Content
  encryptedBytes : PortableSnapshot Payload → Nat
  isUuid : Str → Bool

structure DecodedPortableSnapshot (Payload : Type) where
  snapshot : PortableSnapshot Payload
  sourcePayloadHash : Str
deriving Repr, DecidableEq

structure RemoteSyncPointer where
  schemaVersion : Nat
  revisionId : Str
  createdAtMs : Nat
  payloadHash : Str
  deviceId : Str
  appVersion : Str
deriving Repr, DecidableEq

inductive SyncError where
  | snapshotMissing (revision : Str)
  | corruptedSnapshot (revision : Str)
  | revisionMismatch (pointerRevision snapshotRevision : Str)
  | hashMismatch (expected actual : Str)
  | undecodable
  | config (message : Str)
deriving Repr, DecidableEq

/-- The files below the remote root. -/
inductive SyncFile where
  | snapshot
  | current
  | latest
  | legacySnapshot (revision : Str)
deriving Repr, DecidableEq

/-- What a remote file decodes to: an encrypted snapshot of `rawBytes` bytes, a
pointer, or nothing. -/
inductive RemoteObject (Payload : Type) where
  | encoded (rawBytes : Nat) (decoded : DecodedPortableSnapshot Payload)
  | pointer (pointer : RemoteSyncPointer)
  | damaged
deriving Repr, DecidableEq

abbrev Remote (Payload : Type) := SyncFile → Option (RemoteObject Payload)

variable {Content Payload : Type}

def RemoteObject.decode? :
    RemoteObject Payload → Option (DecodedPortableSnapshot Payload)
  | .encoded _ decoded => some decoded
  | _ => none

def RemoteObject.pointer? : RemoteObject Payload → Option RemoteSyncPointer
  | .pointer head => some head
  | _ => none

def remoteSyncPointerSchemaVersion : Nat := 2

def pointerFromSnapshot (snapshot : PortableSnapshot Payload) :
    RemoteSyncPointer :=
  { schemaVersion := remoteSyncPointerSchemaVersion
    revisionId := snapshot.revisionId
    createdAtMs := snapshot.createdAtMs
    payloadHash := snapshot.payloadHash
    deviceId := snapshot.deviceId
    appVersion := snapshot.appVersion }

/-- The revisions `load_sync_pointer` refuses in a legacy pointer. -/
def unusableRevision (revision : Str) : Bool :=
  trim revision != revision || (trim revision).isEmpty || len revision > 128 ||
    revision == ['.'] || revision == ['.', '.'] || revision.contains '/' ||
    revision.contains '\\' || revision.contains (Char.ofNat 0)

/-- `load_sync_pointer`: the head of the remote. -/
def loadSyncPointer (remote : Remote Payload) :
    Except SyncError (Option RemoteSyncPointer) :=
  match remote .snapshot with
  | some object =>
    match object.decode? with
    | some decoded => .ok (some (pointerFromSnapshot decoded.snapshot))
    | none => .error .undecodable
  | none =>
    match remote .latest with
    | none => .ok none
    | some object =>
      match object.pointer? with
      | none => .error .undecodable
      | some pointer =>
        if unusableRevision pointer.revisionId then
          .error (.corruptedSnapshot pointer.revisionId)
        else .ok (some pointer)

variable (S : Portable Content Payload)

def Portable.syncSnapshotFile (revision : Str) : SyncFile :=
  if S.isUuid revision then .snapshot else .legacySnapshot revision

/-- The file `write_current_sync_snapshot_compat` writes. -/
def Portable.currentSnapshotFile (revision : Str) : SyncFile :=
  if S.isUuid revision then .snapshot else .current

/-- What `encode_portable_snapshot` and the encryption write. -/
def Portable.encoded (S : Portable Content Payload)
    (snapshot : PortableSnapshot Payload) : RemoteObject Payload :=
  .encoded (S.encryptedBytes snapshot) ⟨snapshot, snapshot.payloadHash⟩

/-- `remote.write` -/
def Remote.write (remote : Remote Payload) (file : SyncFile)
    (object : RemoteObject Payload) : Remote Payload :=
  Function.update remote file (some object)

def Portable.validateDecodedSnapshotAgainstPointer
    (pointer : RemoteSyncPointer)
    (decoded : DecodedPortableSnapshot Payload) : Except SyncError Unit :=
  if !S.isUuid pointer.revisionId &&
      decoded.snapshot.revisionId != pointer.revisionId then
    .error (.revisionMismatch pointer.revisionId decoded.snapshot.revisionId)
  else if decoded.sourcePayloadHash != pointer.payloadHash then
    .error (.hashMismatch pointer.payloadHash decoded.sourcePayloadHash)
  else .ok ()

def minEncryptedSnapshotBytes : Nat := 13

def maxEncryptedSnapshotBytes : Nat := 64 * 1024 * 1024

/-- `validate_remote_snapshot_size`, then `decode_remote_sync_snapshot`: the
helper process decodes the file, and whatever goes wrong in it is reported as
corruption.  `helper` says whether the process itself does its work. -/
def decodeRemoteSyncSnapshot (helper : Bool) (object : RemoteObject Payload)
    (revision : Str) : Except SyncError (DecodedPortableSnapshot Payload) :=
  match helper, object with
  | true, .encoded rawBytes decoded =>
    if rawBytes < minEncryptedSnapshotBytes ||
        rawBytes > maxEncryptedSnapshotBytes then
      .error (.corruptedSnapshot revision)
    else .ok decoded
  | _, _ => .error (.corruptedSnapshot revision)

def Portable.readSnapshotForPointer
    (helper : Bool) (remote : Remote Payload) (pointer : RemoteSyncPointer) :
    Except SyncError (PortableSnapshot Payload) :=
  match remote (S.syncSnapshotFile pointer.revisionId) with
  | none => .error (.snapshotMissing pointer.revisionId)
  | some object => do
    let decoded ← decodeRemoteSyncSnapshot helper object pointer.revisionId
    S.validateDecodedSnapshotAgainstPointer pointer decoded
    return decoded.snapshot

def readCurrentSyncSnapshotCompatDecoded (helper : Bool)
    (remote : Remote Payload) :
    Except SyncError (Option (DecodedPortableSnapshot Payload)) :=
  match remote .snapshot with
  | some object =>
    (decodeRemoteSyncSnapshot helper object "snapshot".toList).map some
  | none =>
    match remote .current with
    | none => .ok none
    | some object =>
      (decodeRemoteSyncSnapshot helper object "current".toList).map some

def SyncError.isRecoverablePointerSnapshotError : SyncError → Bool
  | .snapshotMissing _ | .corruptedSnapshot _ => true
  | .revisionMismatch _ _ | .hashMismatch _ _ => true
  | .undecodable | .config _ => false

def SyncError.isMissingRemoteSnapshotError : SyncError → Bool
  | .snapshotMissing _ => true
  | _ => false

end NiceTerm.Cloud

/-! `resolve_remote_snapshot`: the snapshot a pointer stands for. Where the
file of the pointer is not usable, the compatible current file is tried, and
moved to where the pointer expects it. -/

namespace NiceTerm.Cloud

open RustStr

inductive RemoteSnapshotResolution (Payload : Type) where
  | current (snapshot : PortableSnapshot Payload)
  | legacyMigrated (snapshot : PortableSnapshot Payload)
  | inconsistent (pointer : RemoteSyncPointer)
      (recoveryCandidate : PortableSnapshot Payload)
deriving Repr, DecidableEq

variable {Content Payload : Type} (S : Portable Content Payload)

def Portable.migrateLegacySnapshot (helper : Bool) (remote : Remote Payload)
    (pointer : RemoteSyncPointer) (snapshot : PortableSnapshot Payload) :
    Except SyncError Unit × Remote Payload :=
  let uploaded := remote.write (S.syncSnapshotFile snapshot.revisionId)
    (S.encoded snapshot)
  ((S.readSnapshotForPointer helper uploaded pointer).map fun _ => (), uploaded)

def Portable.resolveFromCompatibleCurrent (helper : Bool)
    (remote : Remote Payload) (pointer : RemoteSyncPointer)
    (pointerError : SyncError) :
    Except SyncError (RemoteSnapshotResolution Payload) × Remote Payload :=
  match readCurrentSyncSnapshotCompatDecoded helper remote with
  | .ok none => (.error pointerError, remote)
  | .error (.corruptedSnapshot _) => (.error pointerError, remote)
  | .error error => (.error error, remote)
  | .ok (some current) =>
    match S.validateDecodedSnapshotAgainstPointer pointer current with
    | .ok _ =>
      let (migrated, remote) :=
        S.migrateLegacySnapshot helper remote pointer current.snapshot
      (migrated.map fun _ => .legacyMigrated current.snapshot, remote)
    | .error _ => (.ok (.inconsistent pointer current.snapshot), remote)

def Portable.resolveRemoteSnapshot (helper : Bool) (remote : Remote Payload)
    (pointer : RemoteSyncPointer) :
    Except SyncError (RemoteSnapshotResolution Payload) × Remote Payload :=
  match S.readSnapshotForPointer helper remote pointer with
  | .ok snapshot => (.ok (.current snapshot), remote)
  | .error error =>
    if error.isRecoverablePointerSnapshotError then
      S.resolveFromCompatibleCurrent helper remote pointer error
    else (.error error, remote)

variable {remote : Remote Payload} {pointer : RemoteSyncPointer}

/-- Only the file of the pointer itself counts as current. -/
theorem Portable.resolve_current_iff {helper : Bool}
    {snapshot : PortableSnapshot Payload} :
    (S.resolveRemoteSnapshot helper remote pointer).1 =
        .ok (.current snapshot) ↔
      S.readSnapshotForPointer helper remote pointer = .ok snapshot := by
  rw [Portable.resolveRemoteSnapshot]
  cases hread : S.readSnapshotForPointer helper remote pointer with
  | ok found => simp
  | error error =>
    have hcompat : (S.resolveFromCompatibleCurrent helper remote pointer
        error).1 ≠ .ok (.current snapshot) := by
      rw [Portable.resolveFromCompatibleCurrent]
      split
      · simp
      · simp
      · simp
      · split
        · rw [Portable.migrateLegacySnapshot]
          cases S.readSnapshotForPointer helper _ pointer <;>
            simp [Except.map]
        · simp
    by_cases hrecoverable : error.isRecoverablePointerSnapshotError = true
    · simpa [hrecoverable] using hcompat
    · simp [hrecoverable]

theorem Portable.validate_pointer_of_uuid
    (huuid : S.isUuid pointer.revisionId = true)
    (decoded : DecodedPortableSnapshot Payload) :
    S.validateDecodedSnapshotAgainstPointer pointer decoded = .ok () ↔
      decoded.sourcePayloadHash = pointer.payloadHash := by
  rw [Portable.validateDecodedSnapshotAgainstPointer, huuid]
  by_cases hhash : decoded.sourcePayloadHash = pointer.payloadHash <;>
    simp [hhash]

theorem decodeRemoteSyncSnapshot_ok {rawBytes : Nat}
    {decoded found : DecodedPortableSnapshot Payload} {revision : Str} :
    decodeRemoteSyncSnapshot true (.encoded rawBytes decoded) revision =
        .ok found ↔
      (minEncryptedSnapshotBytes ≤ rawBytes ∧
        rawBytes ≤ maxEncryptedSnapshotBytes) ∧ decoded = found := by
  rw [decodeRemoteSyncSnapshot]
  by_cases hsize : (rawBytes < minEncryptedSnapshotBytes ||
      rawBytes > maxEncryptedSnapshotBytes) = true
  · rw [if_pos hsize]
    simp only [Bool.or_eq_true, decide_eq_true_eq] at hsize
    simp only [reduceCtorEq, false_iff, not_and]
    omega
  · rw [if_neg hsize, Except.ok.injEq]
    simp only [Bool.or_eq_true, decide_eq_true_eq, not_or] at hsize
    simp only [iff_and_self]
    omega

theorem Portable.readSnapshotForPointer_stable {rawBytes : Nat}
    {decoded : DecodedPortableSnapshot Payload}
    {snapshot : PortableSnapshot Payload}
    (huuid : S.isUuid pointer.revisionId = true)
    (hfile : remote .snapshot = some (.encoded rawBytes decoded)) :
    S.readSnapshotForPointer true remote pointer = .ok snapshot ↔
      (minEncryptedSnapshotBytes ≤ rawBytes ∧
        rawBytes ≤ maxEncryptedSnapshotBytes) ∧
      decoded.sourcePayloadHash = pointer.payloadHash ∧
      decoded.snapshot = snapshot := by
  rw [Portable.readSnapshotForPointer, Portable.syncSnapshotFile,
    if_pos huuid, hfile]
  constructor
  · intro h
    cases hread : decodeRemoteSyncSnapshot true (.encoded rawBytes decoded)
        pointer.revisionId with
    | error error =>
      simp [hread, bind, Except.bind] at h
    | ok found =>
      obtain ⟨hsize, rfl⟩ := decodeRemoteSyncSnapshot_ok.mp hread
      cases hcheck : S.validateDecodedSnapshotAgainstPointer pointer
          decoded with
      | error error => simp [hread, hcheck, bind, Except.bind] at h
      | ok done =>
        refine ⟨hsize, (S.validate_pointer_of_uuid huuid decoded).mp hcheck, ?_⟩
        simpa [hread, hcheck, bind, Except.bind, pure, Except.pure] using h
  · rintro ⟨hsize, hhash, rfl⟩
    simp only [decodeRemoteSyncSnapshot_ok.mpr ⟨hsize, rfl⟩, bind,
      Except.bind, (S.validate_pointer_of_uuid huuid decoded).mpr hhash]
    rfl

/-- A stable file whose hash is not the one of the pointer is only offered for
recovery. -/
theorem Portable.resolve_stable_mismatch
    (rawBytes : Nat)
    (decoded : DecodedPortableSnapshot Payload)
    (huuid : S.isUuid pointer.revisionId = true)
    (hfile : remote .snapshot = some (.encoded rawBytes decoded))
    (hsize : minEncryptedSnapshotBytes ≤ rawBytes ∧
      rawBytes ≤ maxEncryptedSnapshotBytes)
    (hhash : decoded.sourcePayloadHash ≠ pointer.payloadHash) :
    S.resolveRemoteSnapshot true remote pointer =
      (.ok (.inconsistent pointer decoded.snapshot), remote) := by
  have hcheck : S.validateDecodedSnapshotAgainstPointer pointer decoded =
      .error (.hashMismatch pointer.payloadHash
        decoded.sourcePayloadHash) := by
    simp [Portable.validateDecodedSnapshotAgainstPointer, huuid, hhash]
  have hread : ∀ revision, decodeRemoteSyncSnapshot true
      (.encoded rawBytes decoded) revision = .ok decoded :=
    fun revision => decodeRemoteSyncSnapshot_ok.mpr ⟨hsize, rfl⟩
  have hpointer : S.readSnapshotForPointer true remote pointer =
      .error (.hashMismatch pointer.payloadHash
        decoded.sourcePayloadHash) := by
    rw [Portable.readSnapshotForPointer, Portable.syncSnapshotFile,
      if_pos huuid, hfile]
    simp only [hread, hcheck, bind, Except.bind]
  have hcompat : readCurrentSyncSnapshotCompatDecoded true remote =
      .ok (some decoded) := by
    rw [readCurrentSyncSnapshotCompatDecoded, hfile]
    simp only [hread, Except.map]
  rw [Portable.resolveRemoteSnapshot, hpointer]
  simp only [SyncError.isRecoverablePointerSnapshotError, if_true]
  rw [Portable.resolveFromCompatibleCurrent, hcompat]
  simp only [hcheck]

end NiceTerm.Cloud
