/-
Revisions name payloads.  Every snapshot and pointer on the remote or in the
hands of an operation is registered under its revision, and what a device has
recorded as synced is a payload it has pushed or applied.
-/
import NiceTerm.Cloud.Manager

namespace NiceTerm.Cloud

open List Option RustStr Transition

variable {Content Payload : Type} {S : Portable Content Payload}
variable {issued : List (Str × Str)} {remote : Remote Payload}

def PortableSnapshot.Registered (issued : List (Str × Str))
    (snapshot : PortableSnapshot Payload) : Prop :=
  (snapshot.revisionId, snapshot.payloadHash) ∈ issued

def RemoteSyncPointer.Registered (issued : List (Str × Str))
    (pointer : RemoteSyncPointer) : Prop :=
  (pointer.revisionId, pointer.payloadHash) ∈ issued

/-- A push that waits for the remote snapshot has the remote payload. -/
def Caller.Matches (pointer : RemoteSyncPointer) : Caller Payload → Prop
  | .push _ envelope => envelope.payloadHash = pointer.payloadHash
  | _ => True

/-- What an operation holds is registered, and what it pushes has a UUID. -/
def Phase.Registered (S : Portable Content Payload)
    (issued : List (Str × Str)) : Phase Payload → Prop
  | .idle _ | .checkLoad _ _ | .pullLoad _ | .recoverRead => True
  | .pushLoad _ envelope | .pushUpload _ envelope | .pushVerify _ envelope
  | .pushCommit _ envelope | .pushCompat _ envelope
  | .pushRecord _ envelope =>
    S.isUuid envelope.revisionId = true ∧ envelope.Registered issued
  | .resolveRead caller pointer | .resolveCurrent caller pointer _ =>
    caller.Matches pointer ∧ pointer.Registered issued
  | .resolveMigrate caller pointer snapshot
  | .resolveVerify caller pointer snapshot =>
    caller.Matches pointer ∧ pointer.Registered issued ∧
      snapshot.Registered issued
  | .pullBuild _ pointer => pointer.Registered issued
  | .pullApply _ _ snapshot | .pullCompat snapshot | .pullRecord snapshot
  | .recoverUpload snapshot | .recoverVerify snapshot
  | .recoverCommit snapshot | .recoverApply snapshot
  | .recoverRecord snapshot => snapshot.Registered issued

/-- A step writes what is registered, and records a registered payload or what
the state records already. -/
def Effect.Registered (issued : List (Str × Str)) (state : CloudSyncState) :
    Effect Payload → Prop
  | .none | .apply _ => True
  | .publish snapshot => snapshot.Registered issued
  | .write _ object => Cloud.Registered issued object
  | .record payloadHash revision =>
    (revision, payloadHash) ∈ issued ∨
      (state.lastSyncedPayloadHash = some payloadHash ∧
        state.lastAppliedRemoteRevision = some revision)

def Remote.Registered (issued : List (Str × Str)) (remote : Remote Payload) :
    Prop :=
  ∀ file object, remote file = some object → Cloud.Registered issued object

variable {snapshot : PortableSnapshot Payload}

theorem registered_encoded (h : snapshot.Registered issued) :
    Registered issued (S.encoded snapshot) :=
  ⟨h, rfl⟩

variable {object : RemoteObject Payload}
    {decoded : DecodedPortableSnapshot Payload}

open RemoteObject

theorem Registered.decode? (h : Registered issued object)
    (hdecode : object.decode? = some decoded) :
    decoded.snapshot.Registered issued := by
  cases object with
  | encoded rawBytes found =>
    obtain rfl : found = decoded := by
      simpa [decode?] using hdecode
    exact h.1
  | pointer _ => simp [decode?] at hdecode
  | damaged => simp [decode?] at hdecode

theorem Registered.pointer? (h : Registered issued object)
    {pointer : RemoteSyncPointer} (hpointer : object.pointer? = some pointer) :
    pointer.Registered issued := by
  cases object with
  | encoded _ _ => simp [pointer?] at hpointer
  | pointer found =>
    obtain rfl : found = pointer := by
      simpa [pointer?] using hpointer
    exact h
  | damaged => simp [pointer?] at hpointer

theorem decodeRemoteSyncSnapshot_eq_ok {helper : Bool} {revision : Str}
    (h : decodeRemoteSyncSnapshot helper object revision = .ok decoded) :
    object.decode? = some decoded := by
  unfold decodeRemoteSyncSnapshot at h
  split at h
  · split at h
    · cases h
    · simpa [decode?] using h
  · cases h

/-- The head of the remote is registered. -/
theorem loadSyncPointer_registered (hremote : remote.Registered issued)
    {pointer : RemoteSyncPointer}
    (h : loadSyncPointer remote = .ok (some pointer)) :
    pointer.Registered issued := by
  unfold loadSyncPointer at h
  split at h
  · next object hobject =>
      split at h
      · next decoded hdecode =>
          obtain rfl : pointerFromSnapshot decoded.snapshot = pointer := by
            simpa using h
          exact (hremote _ _ hobject).decode? hdecode
      · cases h
  · split at h
    · cases h
    · next object hobject =>
        split at h
        · cases h
        · next found hfound =>
            split at h
            · cases h
            · obtain rfl : found = pointer := by simpa using h
              exact (hremote _ _ hobject).pointer? hfound

theorem readSnapshotForPointer_registered (hremote : remote.Registered issued)
    {helper : Bool} {pointer : RemoteSyncPointer}
    (h : S.readSnapshotForPointer helper remote pointer = .ok snapshot) :
    snapshot.Registered issued := by
  unfold Portable.readSnapshotForPointer at h
  split at h
  · cases h
  · next object hobject =>
      cases hdecode : decodeRemoteSyncSnapshot helper object
          pointer.revisionId with
      | error error => simp [hdecode, bind, Except.bind] at h
      | ok decoded =>
        cases hvalid : S.validateDecodedSnapshotAgainstPointer pointer
            decoded with
        | error error => simp [hdecode, hvalid, bind, Except.bind] at h
        | ok _ =>
          obtain rfl : decoded.snapshot = snapshot := by
            simpa [hdecode, hvalid, bind, Except.bind, pure, Except.pure]
              using h
          exact (hremote _ _ hobject).decode?
            (decodeRemoteSyncSnapshot_eq_ok hdecode)

theorem readCurrentSyncSnapshotCompatDecoded_registered
    (hremote : remote.Registered issued) {helper : Bool}
    (h : readCurrentSyncSnapshotCompatDecoded helper remote =
      .ok (some decoded)) :
    decoded.snapshot.Registered issued := by
  have hread : ∀ file object name, remote file = some object →
      (decodeRemoteSyncSnapshot helper object name).map some =
        .ok (some decoded) → decoded.snapshot.Registered issued := by
    intro file object name hobject hmap
    cases hdecode : decodeRemoteSyncSnapshot helper object name with
    | error error => simp [hdecode, Except.map] at hmap
    | ok found =>
      obtain rfl : found = decoded := by
        simpa [hdecode, Except.map] using hmap
      exact (hremote _ _ hobject).decode?
        (decodeRemoteSyncSnapshot_eq_ok hdecode)
  unfold readCurrentSyncSnapshotCompatDecoded at h
  split at h
  · next object hobject => exact hread _ _ _ hobject h
  · split at h
    · cases h
    · next object hobject => exact hread _ _ _ hobject h

/-- `decide_remote_check` reports a device up to date when the payloads agree,
or when the state records this revision and this local hash. -/
theorem decideRemoteCheck_upToDate {state : CloudSyncState} {localHash : Str}
    {pointer : RemoteSyncPointer} {allowAutoPull : Bool}
    (h : decideRemoteCheck state localHash pointer allowAutoPull = .upToDate) :
    pointer.payloadHash = localHash ∨
      (state.lastSyncedPayloadHash = some localHash ∧
        state.lastAppliedRemoteRevision = some pointer.revisionId) := by
  unfold decideRemoteCheck at h
  by_cases hhash : pointer.payloadHash = localHash
  · exact .inl hhash
  · simp only [hhash, ↓reduceIte] at h
    right
    split at h <;> simp at h
    next hremote hlocal =>
      cases hsynced : state.lastSyncedPayloadHash <;>
        cases happlied : state.lastAppliedRemoteRevision <;>
        simp_all

variable {state : CloudSyncState} {caller : Caller Payload}
variable {pointer : RemoteSyncPointer}

theorem resolved_registered (hcaller : caller.Matches pointer)
    (hpointer : pointer.Registered issued)
    (hsnapshot : snapshot.Registered issued) :
    (resolved state caller pointer snapshot).1.Registered issued state ∧
      (resolved state caller pointer snapshot).2.Registered S issued := by
  cases caller with
  | push force envelope =>
    refine ⟨.inl ?_, trivial⟩
    rw [show envelope.payloadHash = pointer.payloadHash from hcaller]
    exact hpointer
  | check localHash allowAutoPull =>
    unfold resolved
    dsimp only
    split
    · next hdecision =>
        refine ⟨?_, trivial⟩
        rcases decideRemoteCheck_upToDate hdecision with hhash | hsame
        · exact .inl (hhash ▸ hpointer)
        · exact .inr hsame
    all_goals exact ⟨trivial, trivial⟩
  | pull auto localHash =>
    unfold resolved
    dsimp only
    split
    · exact ⟨.inl hpointer, trivial⟩
    · exact ⟨trivial, hsnapshot⟩

theorem unresolved_registered (hcaller : caller.Matches pointer)
    (hpointer : pointer.Registered issued) (error : SyncError) :
    (unresolved caller pointer error).1.Registered issued state ∧
      (unresolved caller pointer error).2.Registered S issued := by
  unfold unresolved
  split
  · next envelope =>
      split
      · refine ⟨.inl ?_, trivial⟩
        rw [show envelope.payloadHash = pointer.payloadHash from hcaller]
        exact hpointer
      · exact ⟨trivial, trivial⟩
  · exact ⟨trivial, trivial⟩

theorem writeCurrent_registered (works : Bool)
    (h : snapshot.Registered issued) :
    (writeCurrent S works snapshot).Registered issued state := by
  unfold writeCurrent
  split
  · exact registered_encoded (S := S) h
  · trivial

theorem commitSyncPointer_registered (h : snapshot.Registered issued) :
    (commitSyncPointer S snapshot).Registered issued state := by
  unfold commitSyncPointer
  split
  · trivial
  · exact h

/-- One step of an operation writes and records registered payloads only. -/
theorem next_registered (hremote : remote.Registered issued)
    {works : Bool} {content : Content} {phase : Phase Payload}
    (hphase : phase.Registered S issued) :
    (next S works remote state content phase).1.Registered issued state ∧
      (next S works remote state content phase).2.Registered S issued := by
  cases phase with
  | idle outcome => exact ⟨trivial, trivial⟩
  | checkLoad localHash allowAutoPull =>
    unfold next
    dsimp only
    split
    · exact ⟨trivial, trivial⟩
    · exact ⟨trivial, trivial⟩
    · next pointer hload =>
        exact ⟨trivial, trivial, loadSyncPointer_registered hremote hload⟩
  | pushLoad force envelope =>
    unfold next
    dsimp only
    split
    · exact ⟨trivial, trivial⟩
    · exact ⟨trivial, hphase⟩
    · next pointer hload =>
        split
        · next hhash =>
            exact ⟨trivial, hhash.symm,
              loadSyncPointer_registered hremote hload⟩
        · exact ⟨trivial, hphase⟩
  | pushUpload force envelope => exact ⟨hphase.2, hphase⟩
  | pushVerify force envelope =>
    unfold next
    dsimp only
    split
    · exact ⟨trivial, trivial⟩
    · exact ⟨trivial, hphase⟩
  | pushCommit force envelope =>
    exact ⟨commitSyncPointer_registered hphase.2, hphase⟩
  | pushCompat force envelope =>
    exact ⟨writeCurrent_registered works hphase.2, hphase⟩
  | pushRecord force envelope => exact ⟨.inl hphase.2, trivial⟩
  | resolveRead caller pointer =>
    unfold next
    dsimp only
    split
    · next snapshot hread =>
        exact resolved_registered hphase.1 hphase.2
          (readSnapshotForPointer_registered hremote hread)
    · split
      · exact ⟨trivial, hphase⟩
      · exact unresolved_registered hphase.1 hphase.2 _
  | resolveCurrent caller pointer pointerError =>
    unfold next
    dsimp only
    split
    · exact unresolved_registered hphase.1 hphase.2 _
    · exact unresolved_registered hphase.1 hphase.2 _
    · next current hcurrent =>
        split
        · exact ⟨trivial, hphase.1, hphase.2,
            readCurrentSyncSnapshotCompatDecoded_registered hremote
              hcurrent⟩
        · exact ⟨trivial, trivial⟩
  | resolveMigrate caller pointer snapshot =>
    exact ⟨registered_encoded (S := S) hphase.2.2, hphase⟩
  | resolveVerify caller pointer snapshot =>
    unfold next
    dsimp only
    split
    · exact resolved_registered hphase.1 hphase.2.1 hphase.2.2
    · exact unresolved_registered hphase.1 hphase.2.1 _
  | pullLoad auto =>
    unfold next
    dsimp only
    split
    · exact ⟨trivial, trivial⟩
    · exact ⟨trivial, trivial⟩
    · next pointer hload =>
        exact ⟨trivial, loadSyncPointer_registered hremote hload⟩
  | pullBuild auto latest => exact ⟨trivial, trivial, hphase⟩
  | pullApply auto latest envelope => exact ⟨trivial, hphase⟩
  | pullCompat envelope =>
    exact ⟨writeCurrent_registered works hphase, hphase⟩
  | pullRecord envelope => exact ⟨.inl hphase, trivial⟩
  | recoverRead =>
    unfold next
    dsimp only
    split
    · exact ⟨trivial, trivial⟩
    · exact ⟨trivial, trivial⟩
    · next current hcurrent =>
        exact ⟨trivial,
          readCurrentSyncSnapshotCompatDecoded_registered hremote hcurrent⟩
  | recoverUpload snapshot =>
    exact ⟨registered_encoded (S := S) hphase, hphase⟩
  | recoverVerify snapshot =>
    unfold next
    dsimp only
    split
    · exact ⟨trivial, trivial⟩
    · exact ⟨trivial, hphase⟩
  | recoverCommit snapshot =>
    exact ⟨commitSyncPointer_registered hphase, hphase⟩
  | recoverApply snapshot => exact ⟨trivial, hphase⟩
  | recoverRecord snapshot => exact ⟨.inl hphase, trivial⟩

theorem remote_write_registered (hremote : remote.Registered issued)
    {file : SyncFile} (hobject : Registered issued object) :
    (remote.write file object).Registered issued := by
  intro other found hfound
  by_cases hfile : other = file
  · subst hfile
    obtain rfl : object = found := by simpa [Remote.write] using hfound
    exact hobject
  · exact hremote other found (by simpa [Remote.write, hfile] using hfound)

theorem remote_perform_registered (hremote : remote.Registered issued)
    {effect : Effect Payload} (heffect : effect.Registered issued state) :
    (remote.perform S effect).Registered issued := by
  cases effect with
  | none => exact hremote
  | publish snapshot =>
    exact remote_write_registered hremote (registered_encoded heffect)
  | write file object => exact remote_write_registered hremote heffect
  | apply snapshot => exact hremote
  | record payloadHash revision => exact hremote

/-- What a device has recorded as synced is a payload it knows, and the
revision recorded with it names such a payload. -/
structure Device.Recorded (issued : List (Str × Str))
    (device : Device Content Payload) : Prop where
  synced : ∀ h, device.state.lastSyncedPayloadHash = some h → h ∈ device.known
  applied : ∀ r, device.state.lastAppliedRemoteRevision = some r →
    ∃ h ∈ device.known, (r, h) ∈ issued

variable {device : Device Content Payload}

theorem perform_recorded
    (hdevice : device.Recorded issued) {effect : Effect Payload}
    (heffect : effect.Registered issued device.state) :
    (device.perform S effect).Recorded issued := by
  have hlearn : ∀ h : Str, Device.Recorded issued
      { device with known := h :: device.known } := by
    intro h
    refine ⟨fun h' hsome => mem_cons_of_mem h (hdevice.synced h' hsome),
      fun r hsome => ?_⟩
    obtain ⟨h', hmem, hpair⟩ := hdevice.applied r hsome
    exact ⟨h', mem_cons_of_mem h hmem, hpair⟩
  cases effect with
  | none => exact hdevice
  | publish snapshot => exact hlearn _
  | write file object => exact hdevice
  | apply snapshot => exact ⟨(hlearn _).synced, (hlearn _).applied⟩
  | record payloadHash revision =>
    refine ⟨fun h hsome => ?_, fun r hsome => ?_⟩
    · obtain rfl : payloadHash = h := by
        simpa [Device.perform] using hsome
      exact mem_cons_self
    · obtain rfl : revision = r := by
        simpa [Device.perform] using hsome
      rcases heffect with hpair | ⟨-, happlied⟩
      · exact ⟨payloadHash, mem_cons_self, hpair⟩
      · obtain ⟨h', hmem, hpair⟩ := hdevice.applied revision happlied
        exact ⟨h', mem_cons_of_mem _ hmem, hpair⟩

variable {Id : Type}

/-- The invariant of the devices and their remote. -/
structure World.Consistent (S : Portable Content Payload)
    (w : World Id Content Payload) : Prop where
  functional : ∀ r h h', (r, h) ∈ w.issued → (r, h') ∈ w.issued → h = h'
  remote : w.remote.Registered w.issued
  phases : ∀ i, (w.devices i).phase.Registered S w.issued
  devices : ∀ i, (w.devices i).Recorded w.issued

variable {w : World Id Content Payload}

theorem World.Fresh.consistent (h : w.Fresh) : w.Consistent S := by
  refine ⟨h.functional, h.remote, fun i => ?_, fun i => ⟨?_, ?_⟩⟩
  · have hidle := (h.devices i).2.2
    cases hphase : (w.devices i).phase <;> simp_all [Phase.isIdle]
    trivial
  · simp [(h.devices i).1]
  · simp [(h.devices i).2.1]

variable {issued' : List (Str × Str)}

theorem Phase.Registered.mono
    {phase : Phase Payload} (h : phase.Registered S issued)
    (hsub : issued ⊆ issued') : phase.Registered S issued' := by
  cases phase <;> simp only [Phase.Registered] at h ⊢
  all_goals first
    | exact ⟨h.1, hsub h.2⟩
    | exact hsub h
    | exact ⟨h.1, hsub h.2.1, hsub h.2.2⟩

theorem Registered.mono (h : Registered issued object)
    (hsub : issued ⊆ issued') : Registered issued' object := by
  cases object with
  | encoded rawBytes decoded => exact ⟨hsub h.1, h.2⟩
  | pointer pointer => exact hsub h
  | damaged => trivial

theorem Device.Recorded.mono (h : device.Recorded issued)
    (hsub : issued ⊆ issued') : device.Recorded issued' := by
  refine ⟨h.synced, fun r hsome => ?_⟩
  obtain ⟨h', hmem, hpair⟩ := h.applied r hsome
  exact ⟨h', hmem, hsub hpair⟩

variable [DecidableEq Id]

/-- Changing one device keeps the invariant when the device keeps its part. -/
theorem World.Consistent.setDevice (h : w.Consistent S) {i : Id}
    (hphase : device.phase.Registered S w.issued)
    (hdevice : device.Recorded w.issued) :
    (w.setDevice i device).Consistent S := by
  refine ⟨h.functional, h.remote, fun j => ?_, fun j => ?_⟩
  all_goals
    by_cases hj : j = i
  · subst hj
    simpa [World.setDevice] using hphase
  · simpa [World.setDevice, hj] using h.phases j
  · subst hj
    simpa [World.setDevice] using hdevice
  · simpa [World.setDevice, hj] using h.devices j

/-- A snapshot that is built gets a revision of its own. -/
theorem issues_functional
    {operation : Operation} (hfresh : operation.fresh S issued = true)
    (h : ∀ r h h', (r, h) ∈ issued → (r, h') ∈ issued → h = h') :
    ∀ r h h', (r, h) ∈ operation.issues S device ++ issued →
      (r, h') ∈ operation.issues S device ++ issued → h = h' := by
  cases operation with
  | push force revision createdAtMs =>
    have hnew : ∀ h, (revision, h) ∉ issued := by
      simp [Operation.fresh] at hfresh
      exact hfresh.2
    intro r a b ha hb
    simp only [Operation.issues, singleton_append,
      mem_cons, Prod.mk.injEq] at ha hb
    rcases ha with ⟨rfl, rfl⟩ | ha
    · rcases hb with ⟨-, rfl⟩ | hb
      · rfl
      · exact absurd hb (hnew b)
    · rcases hb with ⟨rfl, -⟩ | hb
      · exact absurd ha (hnew a)
      · exact h r a b ha hb
  | check allowAutoPull => exact h
  | pull => exact h
  | recover => exact h

theorem begin_registered
    {operation : Operation} (hfresh : operation.fresh S issued = true) :
    (device.begin S operation).phase.Registered S
      (operation.issues S device ++ issued) := by
  cases operation with
  | push force revision createdAtMs =>
    have huuid : S.isUuid revision = true := by
      simp [Operation.fresh] at hfresh
      exact hfresh.1
    exact ⟨huuid, mem_cons_self⟩
  | check allowAutoPull => trivial
  | pull => trivial
  | recover => trivial

theorem begin_recorded (h : device.Recorded issued) (operation : Operation) :
    (device.begin S operation).Recorded issued := by
  cases operation <;> exact ⟨h.synced, h.applied⟩

theorem step_consistent {w' : World Id Content Payload} {e : Event Id Content}
    (h : w.Consistent S) (hstep : w.step S e = some w') : w'.Consistent S := by
  cases e with
  | edit i content =>
    obtain rfl := some.inj hstep
    apply h.setDevice
    · exact h.phases i
    · exact ⟨(h.devices i).synced, (h.devices i).applied⟩
  | begin i operation =>
    simp only [World.step] at hstep
    split at hstep
    · next hguard =>
        obtain rfl := some.inj hstep
        obtain ⟨-, hfresh⟩ : _ ∧ operation.fresh S w.issued = true := by
          simpa using hguard
        have hsub : w.issued ⊆ operation.issues S (w.devices i) ++ w.issued :=
          subset_append_right _ _
        have hgrown : World.Consistent S { w with
            issued := operation.issues S (w.devices i) ++ w.issued } :=
          ⟨issues_functional hfresh h.functional,
            fun file object hobject =>
              (h.remote file object hobject).mono hsub,
            fun j => (h.phases j).mono hsub,
            fun j => (h.devices j).mono hsub⟩
        exact hgrown.setDevice (begin_registered hfresh)
          (begin_recorded (hgrown.devices i) operation)
    · cases hstep
  | advance i works =>
    simp only [World.step] at hstep
    split at hstep
    · cases hstep
    · obtain rfl := some.inj hstep
      have hnext : (next S works w.remote (w.devices i).state
            (w.devices i).content (w.devices i).phase).1.Registered w.issued
              (w.devices i).state ∧
          (next S works w.remote (w.devices i).state
            (w.devices i).content (w.devices i).phase).2.Registered S
              w.issued :=
        next_registered h.remote (h.phases i)
      have hrecorded := perform_recorded (S := S) (h.devices i) hnext.1
      have hset : (w.setDevice i
          { (w.devices i).perform S (next S works w.remote
              (w.devices i).state (w.devices i).content
              (w.devices i).phase).1 with
            phase := (next S works w.remote (w.devices i).state
              (w.devices i).content (w.devices i).phase).2 }).Consistent S :=
        h.setDevice hnext.2 ⟨hrecorded.synced, hrecorded.applied⟩
      exact ⟨hset.functional, remote_perform_registered h.remote hnext.1,
        hset.phases, hset.devices⟩
  | abort i =>
    obtain rfl := some.inj hstep
    apply h.setDevice
    · trivial
    · exact ⟨(h.devices i).synced, (h.devices i).applied⟩
  | breakApply i content =>
    simp only [World.step] at hstep
    split at hstep
    · obtain rfl := some.inj hstep
      apply h.setDevice
      · trivial
      · exact ⟨(h.devices i).synced, (h.devices i).applied⟩
    · cases hstep
  | lose file damaged =>
    obtain rfl := some.inj hstep
    refine ⟨h.functional, fun other object hobject => ?_, h.phases, h.devices⟩
    by_cases hfile : other = file
    · subst hfile
      cases damaged
      · simp at hobject
      · obtain rfl : RemoteObject.damaged = object := by
          simpa using hobject
        trivial
    · exact h.remote other object (by simpa [hfile] using hobject)

end NiceTerm.Cloud
