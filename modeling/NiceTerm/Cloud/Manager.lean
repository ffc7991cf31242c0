/-
The operations of `CloudSyncManager` on any number of devices that share one
remote.  An operation is cut at its awaits: one step reads or writes one remote
file, applies a snapshot, or publishes the device's sync state.
-/
import NiceTerm.Cloud.Remote
import NiceTerm.Lib.Transition

namespace NiceTerm.Cloud

open RustStr

structure CloudSyncState where
  deviceId : Str := []
  lastSyncedPayloadHash : Option Str := none
  lastAppliedRemoteRevision : Option Str := none
deriving Repr, DecidableEq

inductive RemoteCheckDecision where
  | upToDate
  | localChanged
  | autoPull
  | remoteAvailable
  | conflict
deriving Repr, DecidableEq

def decideRemoteCheck (state : CloudSyncState) (localHash : Str)
    (remote : RemoteSyncPointer) (allowAutoPull : Bool) : RemoteCheckDecision :=
  if remote.payloadHash = localHash then .upToDate
  else
    let localChanged :=
      state.lastSyncedPayloadHash.elim true fun hash => hash != localHash
    let remoteChanged :=
      state.lastAppliedRemoteRevision.elim true fun revision =>
        revision != remote.revisionId
    match remoteChanged, localChanged, allowAutoPull with
    | true, true, _ => .conflict
    | true, false, true => .autoPull
    | true, false, false => .remoteAvailable
    | false, true, _ => .localChanged
    | false, false, _ => .upToDate

/-- How an operation ended. -/
inductive Outcome where
  | noRemote
  | upToDate
  | localChanged
  | remoteAvailable
  | contentConflict
  | remoteInconsistent
  | uploaded
  | downloaded
  | recovered
  | failed (error : SyncError)
deriving Repr, DecidableEq

/-- The operation that waits for `resolve_remote_snapshot`. -/
inductive Caller (Payload : Type) where
  | push (force : Bool) (envelope : PortableSnapshot Payload)
  | check (localHash : Str) (allowAutoPull : Bool)
  | pull (auto : Bool) (localHash : Str)
deriving Repr, DecidableEq

/-- Where the holder of a device's `operation_lock` is, and what it has read. -/
inductive Phase (Payload : Type) where
  | idle (outcome : Option Outcome)
  | checkLoad (localHash : Str) (allowAutoPull : Bool)
  | pushLoad (force : Bool) (envelope : PortableSnapshot Payload)
  | pushUpload (force : Bool) (envelope : PortableSnapshot Payload)
  | pushVerify (force : Bool) (envelope : PortableSnapshot Payload)
  | pushCommit (force : Bool) (envelope : PortableSnapshot Payload)
  | pushCompat (force : Bool) (envelope : PortableSnapshot Payload)
  | pushRecord (force : Bool) (envelope : PortableSnapshot Payload)
  | resolveRead (caller : Caller Payload) (pointer : RemoteSyncPointer)
  | resolveCurrent (caller : Caller Payload) (pointer : RemoteSyncPointer)
      (pointerError : SyncError)
  | resolveMigrate (caller : Caller Payload) (pointer : RemoteSyncPointer)
      (snapshot : PortableSnapshot Payload)
  | resolveVerify (caller : Caller Payload) (pointer : RemoteSyncPointer)
      (snapshot : PortableSnapshot Payload)
  | pullLoad (auto : Bool)
  | pullBuild (auto : Bool) (latest : RemoteSyncPointer)
  | pullApply (auto : Bool) (latest : RemoteSyncPointer)
      (envelope : PortableSnapshot Payload)
  | pullCompat (envelope : PortableSnapshot Payload)
  | pullRecord (envelope : PortableSnapshot Payload)
  | recoverRead
  | recoverUpload (snapshot : PortableSnapshot Payload)
  | recoverVerify (snapshot : PortableSnapshot Payload)
  | recoverCommit (snapshot : PortableSnapshot Payload)
  | recoverApply (snapshot : PortableSnapshot Payload)
  | recoverRecord (snapshot : PortableSnapshot Payload)
deriving Repr, DecidableEq

/-- What a step does besides moving on.  `publish` is the write of a push of
the device's own content, `write` any other write; `record` sets
`last_synced_payload_hash` and `last_applied_remote_revision`. -/
inductive Effect (Payload : Type) where
  | none
  | publish (snapshot : PortableSnapshot Payload)
  | write (file : SyncFile) (object : RemoteObject Payload)
  | apply (snapshot : PortableSnapshot Payload)
  | record (payloadHash revision : Str)
deriving Repr, DecidableEq

variable {Content Payload : Type} (S : Portable Content Payload)

/-- What each operation does with a snapshot that `resolve_remote_snapshot`
returns as current or migrated. -/
def resolved (state : CloudSyncState) (caller : Caller Payload)
    (pointer : RemoteSyncPointer) (snapshot : PortableSnapshot Payload) :
    Effect Payload × Phase Payload :=
  match caller with
  | .push _ envelope =>
    (.record envelope.payloadHash pointer.revisionId, .idle (some .upToDate))
  | .check localHash allowAutoPull =>
    match decideRemoteCheck state localHash pointer allowAutoPull with
    | .upToDate =>
      (.record localHash pointer.revisionId, .idle (some .upToDate))
    | .conflict => (.none, .idle (some .contentConflict))
    | .autoPull => (.none, .pullLoad true)
    | .remoteAvailable => (.none, .idle (some .remoteAvailable))
    | .localChanged => (.none, .idle (some .localChanged))
  | .pull auto localHash =>
    if pointer.payloadHash = localHash then
      (.record pointer.payloadHash pointer.revisionId, .idle (some .upToDate))
    else (.none, .pullApply auto pointer snapshot)

/-- What each operation does with an error of `resolve_remote_snapshot`.  A
forced push takes a missing snapshot for an up-to-date one. -/
def unresolved (caller : Caller Payload) (pointer : RemoteSyncPointer)
    (error : SyncError) : Effect Payload × Phase Payload :=
  match caller with
  | .push true envelope =>
    if error.isMissingRemoteSnapshotError then
      (.record envelope.payloadHash pointer.revisionId, .idle (some .upToDate))
    else (.none, .idle (some (.failed error)))
  | _ => (.none, .idle (some (.failed error)))

/-- `write_current_sync_snapshot_compat`; a failure is only logged. -/
def writeCurrent (works : Bool) (snapshot : PortableSnapshot Payload) :
    Effect Payload :=
  if works then
    .write (S.currentSnapshotFile snapshot.revisionId) (S.encoded snapshot)
  else .none

def commitSyncPointer (snapshot : PortableSnapshot Payload) : Effect Payload :=
  if S.isUuid snapshot.revisionId then .none
  else .write .latest (.pointer (pointerFromSnapshot snapshot))

/-- The next step of the operation that holds the lock.  `works` says whether
the decoding helper, or a write whose failure is only logged, does its work. -/
def next (works : Bool) (remote : Remote Payload) (state : CloudSyncState)
    (content : Content) : Phase Payload → Effect Payload × Phase Payload
  | .idle outcome => (.none, .idle outcome)
  | .checkLoad localHash allowAutoPull =>
    match loadSyncPointer remote with
    | .error error => (.none, .idle (some (.failed error)))
    | .ok none => (.none, .idle (some .noRemote))
    | .ok (some pointer) =>
      (.none, .resolveRead (.check localHash allowAutoPull) pointer)
  | .pushLoad force envelope =>
    match loadSyncPointer remote with
    | .error error => (.none, .idle (some (.failed error)))
    | .ok none => (.none, .pushUpload force envelope)
    | .ok (some pointer) =>
      if pointer.payloadHash = envelope.payloadHash then
        (.none, .resolveRead (.push force envelope) pointer)
      else (.none, .pushUpload force envelope)
  | .pushUpload force envelope =>
    (.publish envelope, .pushVerify force envelope)
  | .pushVerify force envelope =>
    match S.readSnapshotForPointer works remote
        (pointerFromSnapshot envelope) with
    | .error error => (.none, .idle (some (.failed error)))
    | .ok _ => (.none, .pushCommit force envelope)
  | .pushCommit force envelope =>
    (commitSyncPointer S envelope, .pushCompat force envelope)
  | .pushCompat force envelope =>
    (writeCurrent S works envelope, .pushRecord force envelope)
  | .pushRecord _ envelope =>
    (.record envelope.payloadHash envelope.revisionId, .idle (some .uploaded))
  | .resolveRead caller pointer =>
    match S.readSnapshotForPointer works remote pointer with
    | .ok snapshot => resolved state caller pointer snapshot
    | .error error =>
      if error.isRecoverablePointerSnapshotError then
        (.none, .resolveCurrent caller pointer error)
      else unresolved caller pointer error
  | .resolveCurrent caller pointer pointerError =>
    match readCurrentSyncSnapshotCompatDecoded works remote with
    | .error _ | .ok none => unresolved caller pointer pointerError
    | .ok (some current) =>
      match S.validateDecodedSnapshotAgainstPointer pointer current with
      | .ok _ => (.none, .resolveMigrate caller pointer current.snapshot)
      | .error _ => (.none, .idle (some .remoteInconsistent))
  | .resolveMigrate caller pointer snapshot =>
    (.write (S.syncSnapshotFile snapshot.revisionId) (S.encoded snapshot),
      .resolveVerify caller pointer snapshot)
  | .resolveVerify caller pointer snapshot =>
    match S.readSnapshotForPointer works remote pointer with
    | .ok _ => resolved state caller pointer snapshot
    | .error error => unresolved caller pointer error
  | .pullLoad auto =>
    match loadSyncPointer remote with
    | .error error => (.none, .idle (some (.failed error)))
    | .ok none =>
      (.none, .idle (some (.failed
        (.config "No remote sync snapshot found".toList))))
    | .ok (some latest) => (.none, .pullBuild auto latest)
  | .pullBuild auto latest =>
    (.none, .resolveRead (.pull auto (S.payloadHash (S.build content))) latest)
  | .pullApply _ _ envelope => (.apply envelope, .pullCompat envelope)
  | .pullCompat envelope => (writeCurrent S works envelope, .pullRecord envelope)
  | .pullRecord envelope =>
    (.record envelope.payloadHash envelope.revisionId,
      .idle (some .downloaded))
  | .recoverRead =>
    match readCurrentSyncSnapshotCompatDecoded works remote with
    | .error error => (.none, .idle (some (.failed error)))
    | .ok none =>
      (.none, .idle (some (.failed (.config
        "No current cloud sync snapshot is available for recovery".toList))))
    | .ok (some current) => (.none, .recoverUpload current.snapshot)
  | .recoverUpload snapshot =>
    (.write (S.syncSnapshotFile snapshot.revisionId) (S.encoded snapshot),
      .recoverVerify snapshot)
  | .recoverVerify snapshot =>
    match S.readSnapshotForPointer works remote
        (pointerFromSnapshot snapshot) with
    | .error error => (.none, .idle (some (.failed error)))
    | .ok _ => (.none, .recoverCommit snapshot)
  | .recoverCommit snapshot =>
    (commitSyncPointer S snapshot, .recoverApply snapshot)
  | .recoverApply snapshot => (.apply snapshot, .recoverRecord snapshot)
  | .recoverRecord snapshot =>
    (.record snapshot.payloadHash snapshot.revisionId, .idle (some .recovered))

/-- A device.  The last two fields record history only: the hashes of the
payloads the device has pushed, applied, or recorded as applied when its own
content already was that payload; and its content when the last remote check
built the local snapshot. -/
structure Device (Content Payload : Type) where
  content : Content
  state : CloudSyncState := {}
  appVersion : Str := []
  phase : Phase Payload := .idle none
  known : List Str := []
  checked : Content := content

/-- The devices and their remote.  `issued` records history only: the revision
and the payload hash of every snapshot built or found on the remote. -/
structure World (Id Content Payload : Type) where
  remote : Remote Payload
  devices : Id → Device Content Payload
  issued : List (Str × Str)

/-- The operations that take the lock.  A push draws a new revision id. -/
inductive Operation where
  | check (allowAutoPull : Bool)
  | push (force : Bool) (revision : Str) (createdAtMs : Nat)
  | pull
  | recover
deriving Repr, DecidableEq

/-- `advance` is the next step of a device's operation and `abort` its end at an
await (a timeout, or a remote call that fails); `breakApply` is an apply step
that fails with `content` saved so far.  `lose` is a remote file that is
deleted or damaged behind the devices' backs. -/
inductive Event (Id Content : Type) where
  | edit (device : Id) (content : Content)
  | begin (device : Id) (operation : Operation)
  | advance (device : Id) (works : Bool)
  | abort (device : Id)
  | breakApply (device : Id) (content : Content)
  | lose (file : SyncFile) (damaged : Bool)
deriving Repr, DecidableEq

def portableSnapshotSchemaVersion : Nat := 3

variable (device : Device Content Payload)

def Device.buildPortableSnapshot
    (revision : Str) (createdAtMs : Nat) : PortableSnapshot Payload :=
  { schemaVersion := portableSnapshotSchemaVersion
    snapshotKind := .sync
    revisionId := revision
    deviceId := device.state.deviceId
    createdAtMs := createdAtMs
    payloadHash := S.payloadHash (S.build device.content)
    appVersion := device.appVersion
    payload := S.build device.content }

/-- The hash of the snapshot that a check or a pull builds. -/
def Device.localHash : Str :=
  S.payloadHash (S.build device.content)

def Device.begin :
    Operation → Device Content Payload
  | .check allowAutoPull =>
    { device with
      phase := .checkLoad (device.localHash S) allowAutoPull
      checked := device.content }
  | .push force revision createdAtMs =>
    { device with
      phase := .pushLoad force
        (device.buildPortableSnapshot S revision createdAtMs) }
  | .pull => { device with phase := .pullLoad false }
  | .recover => { device with phase := .recoverRead }

/-- The effect of a step on the device. -/
def Device.perform :
    Effect Payload → Device Content Payload
  | .none | .write _ _ => device
  | .publish snapshot =>
    { device with known := snapshot.payloadHash :: device.known }
  | .apply snapshot =>
    { device with
      content := S.apply snapshot device.content
      known := snapshot.payloadHash :: device.known }
  | .record payloadHash revision =>
    { device with
      state := { device.state with
        lastSyncedPayloadHash := some payloadHash
        lastAppliedRemoteRevision := some revision }
      known := payloadHash :: device.known }

/-- The effect of a step on the remote. -/
def Remote.perform (remote : Remote Payload) :
    Effect Payload → Remote Payload
  | .none | .apply _ | .record _ _ => remote
  | .publish snapshot =>
    remote.write (S.syncSnapshotFile snapshot.revisionId) (S.encoded snapshot)
  | .write file object => remote.write file object

variable {Id : Type} [DecidableEq Id]

def World.setDevice (w : World Id Content Payload) (i : Id)
    (device : Device Content Payload) : World Id Content Payload :=
  { w with devices := Function.update w.devices i device }

def World.advance (w : World Id Content Payload) (i : Id) (works : Bool) :
    World Id Content Payload :=
  let device := w.devices i
  let result := next S works w.remote device.state device.content device.phase
  { w.setDevice i { device.perform S result.1 with phase := result.2 } with
    remote := w.remote.perform S result.1 }

def Phase.isIdle : Phase Payload → Bool
  | .idle _ => true
  | _ => false

def Phase.applies : Phase Payload → Bool
  | .pullApply _ _ _ | .recoverApply _ => true
  | _ => false

/-- The snapshot an operation builds is registered under its new revision. -/
def Operation.issues :
    Operation → List (Str × Str)
  | .push _ revision _ => [(revision, device.localHash S)]
  | _ => []

/-- A revision id is a UUID, and no snapshot has it yet. -/
def Operation.fresh (issued : List (Str × Str)) : Operation → Bool
  | .push _ revision _ =>
    S.isUuid revision && !(issued.map Prod.fst).contains revision
  | _ => true

def World.step (w : World Id Content Payload) :
    Event Id Content → Option (World Id Content Payload)
  | .edit i content =>
    some (w.setDevice i { w.devices i with content := content })
  | .begin i operation =>
    if (w.devices i).phase.isIdle && operation.fresh S w.issued then
      some { w.setDevice i ((w.devices i).begin S operation) with
        issued := operation.issues S (w.devices i) ++ w.issued }
    else none
  | .advance i works =>
    if (w.devices i).phase.isIdle then none
    else some (w.advance S i works)
  | .abort i =>
    some (w.setDevice i { w.devices i with phase := .idle none })
  | .breakApply i content =>
    if (w.devices i).phase.applies then
      some (w.setDevice i
        { w.devices i with content := content, phase := .idle none })
    else none
  | .lose file damaged =>
    some { w with
      remote := Function.update w.remote file
        (if damaged then some .damaged else none) }

/-- A revision names one payload, and `object` is what this version writes. -/
def Registered (issued : List (Str × Str)) : RemoteObject Payload → Prop
  | .encoded _ decoded =>
    (decoded.snapshot.revisionId, decoded.snapshot.payloadHash) ∈ issued ∧
      decoded.sourcePayloadHash = decoded.snapshot.payloadHash
  | .pointer pointer => (pointer.revisionId, pointer.payloadHash) ∈ issued
  | .damaged => True

/-- Devices that have not synced yet, and a remote on which every revision
names one payload. -/
structure World.Fresh (w : World Id Content Payload) : Prop where
  devices : ∀ i, (w.devices i).state.lastSyncedPayloadHash = none ∧
    (w.devices i).state.lastAppliedRemoteRevision = none ∧
    (w.devices i).phase.isIdle = true
  remote : ∀ file object, w.remote file = some object →
    Registered w.issued object
  functional : ∀ r h h', (r, h) ∈ w.issued → (r, h') ∈ w.issued → h = h'

/-- Any number of devices that share one remote. -/
def cloudSync (Id : Type) [DecidableEq Id] :
    Transition.System (World Id Content Payload) (Event Id Content) where
  init := World.Fresh
  step := World.step S

end NiceTerm.Cloud
