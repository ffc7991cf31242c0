/-
Automatic pulls.  A check decides from the snapshot it has built, and the apply
step that follows overwrites whatever the device has by then.
-/
import NiceTerm.Cloud.Push

namespace NiceTerm.Cloud

open Option RustStr Transition

variable {Content Payload : Type} {S : Portable Content Payload}

/-- The pointer an automatic pull is about to apply. -/
def Phase.autoApplies : Phase Payload → Option RemoteSyncPointer
  | .pullApply true latest _ => some latest
  | _ => none

/-- The hash of the content the device had when the check built its local
snapshot. -/
def Device.checkedHash (S : Portable Content Payload)
    (device : Device Content Payload) : Str :=
  S.payloadHash (S.build device.checked)

/-- What an automatic pull overwrites is what the state records as last synced,
or has the remote payload already. -/
def Device.OverwritesSynced (S : Portable Content Payload)
    (device : Device Content Payload) : Prop :=
  ∀ p ∈ device.phase.autoApplies,
    device.state.lastSyncedPayloadHash = some (device.localHash S) ∨
      device.localHash S = p.payloadHash

/-- Between the check's local snapshot and the apply, the edits on the device
have cancelled out, or they have produced the remote payload. -/
def Device.EditsNeutral (S : Portable Content Payload)
    (device : Device Content Payload) : Prop :=
  ∀ p ∈ device.phase.autoApplies, device.localHash S = device.checkedHash S ∨
      device.localHash S = p.payloadHash

instance (device : Device Content Payload) :
    Decidable (device.OverwritesSynced S) :=
  inferInstanceAs (Decidable (∀ p ∈ device.phase.autoApplies, _))

instance (device : Device Content Payload) :
    Decidable (device.EditsNeutral S) :=
  inferInstanceAs (Decidable (∀ p ∈ device.phase.autoApplies, _))

variable {Id : Type}

/-- The property of a device that an event is about, where the event is a step
of its operation. -/
def AtStep (P : Device Content Payload → Prop)
    (w : World Id Content Payload) : Event Id Content → Prop
  | .advance i _ | .breakApply i _ => P (w.devices i)
  | _ => True

instance (P : Device Content Payload → Prop)
    [∀ device, Decidable (P device)] (w : World Id Content Payload)
    (e : Event Id Content) : Decidable (AtStep P w e) :=
  match e with
  | .advance i _ => inferInstanceAs (Decidable (P (w.devices i)))
  | .breakApply i _ => inferInstanceAs (Decidable (P (w.devices i)))
  | .edit _ _ => isTrue trivial
  | .begin _ _ => isTrue trivial
  | .abort _ => isTrue trivial
  | .lose _ _ => isTrue trivial

/-- No operation is under way. -/
def World.Idle (w : World Id Content Payload) : Prop :=
  ∀ i, (w.devices i).phase.isIdle = true

def Caller.Checked (synced : Option Str) (checkedHash : Str) :
    Caller Payload → Prop
  | .push _ _ | .pull false _ => True
  | .check localHash _ => localHash = checkedHash
  | .pull true _ => synced = some checkedHash

/-- A check carries the hash it has taken, and once it has decided to pull that
hash is the last synced one. -/
def Phase.Checked (synced : Option Str) (checkedHash : Str) :
    Phase Payload → Prop
  | .checkLoad localHash _ => localHash = checkedHash
  | .resolveRead caller _ | .resolveCurrent caller _ _
  | .resolveMigrate caller _ _ | .resolveVerify caller _ _ =>
    caller.Checked synced checkedHash
  | .pullLoad auto | .pullBuild auto _ | .pullApply auto _ _ =>
    auto = true → synced = some checkedHash
  | _ => True

def Device.Checked (S : Portable Content Payload)
    (device : Device Content Payload) : Prop :=
  device.phase.Checked device.state.lastSyncedPayloadHash
    (device.checkedHash S)

/-- `decide_remote_check` answers with an automatic pull only to a device whose
content is the last synced one. -/
theorem decideRemoteCheck_autoPull {state : CloudSyncState} {localHash : Str}
    {pointer : RemoteSyncPointer} {allowAutoPull : Bool}
    (h : decideRemoteCheck state localHash pointer allowAutoPull = .autoPull) :
    state.lastSyncedPayloadHash = some localHash := by
  unfold decideRemoteCheck at h
  by_cases hhash : pointer.payloadHash = localHash
  · simp [hhash] at h
  · simp only [hhash, ↓reduceIte] at h
    split at h <;> simp at h
    next hremote hlocal =>
      cases hsynced : state.lastSyncedPayloadHash with
      | none => simp [hsynced] at hlocal
      | some synced => simpa [hsynced] using hlocal

/-- What a step leaves behind: the phase that follows still carries what the
check has found, and a step that records ends the operation. -/
structure Step.Checked (state : CloudSyncState) (checkedHash : Str)
    (result : Effect Payload × Phase Payload) : Prop where
  phase : result.2.Checked state.lastSyncedPayloadHash checkedHash
  record : ∀ payloadHash revision,
    result.1 = .record payloadHash revision → result.2.isIdle = true

section Steps

variable {state : CloudSyncState} {checkedHash : Str}

theorem step_checked_none {phase : Phase Payload}
    (h : phase.Checked state.lastSyncedPayloadHash checkedHash) :
    Step.Checked state checkedHash (.none, phase) :=
  ⟨h, by simp⟩

theorem step_checked_idle (effect : Effect Payload) (outcome : Option Outcome) :
    Step.Checked state checkedHash (effect, .idle outcome) :=
  ⟨trivial, fun _ _ _ => rfl⟩

theorem resolved_checked {caller : Caller Payload}
    (h : caller.Checked state.lastSyncedPayloadHash checkedHash)
    (pointer : RemoteSyncPointer) (s : PortableSnapshot Payload) :
    Step.Checked state checkedHash (resolved state caller pointer s) := by
  cases caller with
  | push force envelope => exact step_checked_idle _ _
  | check localHash allowAutoPull =>
    unfold resolved
    dsimp only
    split
    · exact step_checked_idle _ _
    · exact step_checked_idle _ _
    · next hdecision =>
        apply step_checked_none
        intro _
        rw [decideRemoteCheck_autoPull hdecision]
        exact congrArg some h
    · exact step_checked_idle _ _
    · exact step_checked_idle _ _
  | pull auto localHash =>
    unfold resolved
    dsimp only
    split
    · exact step_checked_idle _ _
    · apply step_checked_none
      rintro rfl
      exact h

theorem unresolved_checked (caller : Caller Payload)
    (pointer : RemoteSyncPointer) (error : SyncError) :
    Step.Checked state checkedHash (unresolved caller pointer error) := by
  unfold unresolved
  split
  · split <;> exact step_checked_idle _ _
  · exact step_checked_idle _ _

/-- One step of an operation keeps what the check has found. -/
theorem next_checked {works : Bool} {remote : Remote Payload}
    {content : Content} {phase : Phase Payload}
    (h : phase.Checked state.lastSyncedPayloadHash checkedHash) :
    Step.Checked state checkedHash
      (next S works remote state content phase) := by
  cases phase with
  | checkLoad localHash allowAutoPull =>
    unfold next
    dsimp only
    split
    · exact step_checked_idle _ _
    · exact step_checked_idle _ _
    · exact step_checked_none h
  | pushLoad force envelope =>
    unfold next
    dsimp only
    split
    · exact step_checked_idle _ _
    · exact step_checked_none trivial
    · split <;> exact step_checked_none trivial
  | resolveRead caller pointer =>
    unfold next
    dsimp only
    split
    · exact resolved_checked h _ _
    · split
      · exact step_checked_none h
      · exact unresolved_checked _ _ _
  | resolveCurrent caller pointer pointerError =>
    unfold next
    dsimp only
    split
    · exact unresolved_checked _ _ _
    · exact unresolved_checked _ _ _
    · split
      · exact step_checked_none h
      · exact step_checked_idle _ _
  | resolveMigrate caller pointer snapshot => exact ⟨h, by simp [next]⟩
  | resolveVerify caller pointer snapshot =>
    unfold next
    dsimp only
    split
    · exact resolved_checked h _ _
    · exact unresolved_checked _ _ _
  | pullLoad auto =>
    unfold next
    dsimp only
    split
    · exact step_checked_idle _ _
    · exact step_checked_idle _ _
    · exact step_checked_none h
  | pullBuild auto latest =>
    apply step_checked_none
    cases auto
    · trivial
    · exact h rfl
  | pushVerify force envelope | recoverVerify snapshot =>
    unfold next
    dsimp only
    split
    · exact step_checked_idle _ _
    · exact step_checked_none trivial
  | recoverRead =>
    unfold next
    dsimp only
    split
    · exact step_checked_idle _ _
    · exact step_checked_idle _ _
    · exact step_checked_none trivial
  | pushCommit force envelope =>
    refine ⟨trivial, fun a b => ?_⟩
    simp only [next, commitSyncPointer]
    split <;> simp
  | recoverCommit snapshot =>
    refine ⟨trivial, fun a b => ?_⟩
    simp only [next, commitSyncPointer]
    split <;> simp
  | pushCompat force envelope =>
    refine ⟨trivial, fun a b => ?_⟩
    simp only [next, writeCurrent]
    split <;> simp
  | pullCompat envelope =>
    refine ⟨trivial, fun a b => ?_⟩
    simp only [next, writeCurrent]
    split <;> simp
  | idle outcome => exact step_checked_idle _ _
  | pushRecord force envelope => exact step_checked_idle _ _
  | pullRecord envelope => exact step_checked_idle _ _
  | recoverRecord snapshot => exact step_checked_idle _ _
  | pushUpload force envelope => exact ⟨trivial, by simp [next]⟩
  | pullApply auto latest envelope => exact ⟨trivial, by simp [next]⟩
  | recoverUpload snapshot => exact ⟨trivial, by simp [next]⟩
  | recoverApply snapshot => exact ⟨trivial, by simp [next]⟩

end Steps

theorem checked_of_isIdle {device : Device Content Payload}
    (h : device.phase.isIdle = true) : device.Checked S := by
  unfold Device.Checked
  cases hphase : device.phase with
  | idle outcome => trivial
  | _ => simp [hphase, Phase.isIdle] at h

/-- A step of the device's own operation keeps what the check has found. -/
theorem advance_checked {device : Device Content Payload}
    (h : device.Checked S) (works : Bool) (remote : Remote Payload) :
    let result :=
      next S works remote device.state device.content device.phase
    ({ device.perform S result.1 with phase := result.2 } :
      Device Content Payload).Checked S := by
  intro result
  have hnext : Step.Checked device.state (device.checkedHash S) result :=
    next_checked h
  cases heffect : result.1 with
  | record payloadHash revision =>
    exact checked_of_isIdle (hnext.record _ _ heffect)
  | _ => exact hnext.phase

variable [DecidableEq Id]

theorem setDevice_checked {w : World Id Content Payload}
    (h : ∀ j, (w.devices j).Checked S) {i : Id}
    {device : Device Content Payload} (hdevice : device.Checked S) (j : Id) :
    ((w.setDevice i device).devices j).Checked S := by
  by_cases hj : j = i
  · subst hj
    simpa [World.setDevice] using hdevice
  · simpa [World.setDevice, hj] using h j

theorem step_checked {w w' : World Id Content Payload}
    {e : Event Id Content} (h : ∀ i, (w.devices i).Checked S)
    (hstep : w.step S e = some w') : ∀ i, (w'.devices i).Checked S := by
  cases e with
  | edit i content =>
    obtain rfl := some.inj hstep
    exact setDevice_checked h (h i)
  | begin i operation =>
    simp only [World.step] at hstep
    split at hstep
    · obtain rfl := some.inj hstep
      apply setDevice_checked h
      cases operation with
      | check allowAutoPull => rfl
      | push force revision createdAtMs => trivial
      | pull => exact fun h => absurd h (by simp)
      | recover => trivial
    · cases hstep
  | advance i works =>
    simp only [World.step] at hstep
    split at hstep
    · cases hstep
    · obtain rfl := some.inj hstep
      exact setDevice_checked h (advance_checked (h i) works w.remote)
  | abort i =>
    obtain rfl := some.inj hstep
    exact setDevice_checked h (checked_of_isIdle rfl)
  | breakApply i content =>
    simp only [World.step] at hstep
    split at hstep
    · obtain rfl := some.inj hstep
      exact setDevice_checked h (checked_of_isIdle rfl)
    · cases hstep
  | lose file damaged =>
    obtain rfl := some.inj hstep
    exact h

omit [DecidableEq Id] in
/-- At an automatic apply, the last synced content is the checked one. -/
theorem overwritesSynced_iff {w : World Id Content Payload}
    (h : ∀ i, (w.devices i).Checked S) (e : Event Id Content) :
    AtStep (Device.OverwritesSynced S) w e ↔
      AtStep (Device.EditsNeutral S) w e := by
  have hdevice : ∀ i, (w.devices i).OverwritesSynced S ↔
      (w.devices i).EditsNeutral S := by
    intro i
    unfold Device.OverwritesSynced Device.EditsNeutral
    refine forall_congr' fun p => forall_congr' fun hp => ?_
    have hsynced : (w.devices i).state.lastSyncedPayloadHash =
        some ((w.devices i).checkedHash S) := by
      have hchecked := h i
      unfold Device.Checked at hchecked
      cases hphase : (w.devices i).phase <;>
        simp_all [Phase.autoApplies, Phase.Checked]
      next auto latest envelope => cases auto <;> simp_all
    simp [hsynced, eq_comm]
  cases e with
  | advance i works => exact hdevice i
  | breakApply i content => exact hdevice i
  | _ => exact Iff.rfl

/-- From any contents, sync states and remote, automatic pulls overwrite only
what is synced exactly in the runs whose edits are neutral. -/
theorem autoPull_keeps_edits_iff {w : World Id Content Payload}
    (h : w.Idle) (run : List (Event Id Content)) :
    (cloudSync S Id).Along (AtStep (Device.OverwritesSynced S)) w run ↔
      (cloudSync S Id).Along (AtStep (Device.EditsNeutral S)) w run := by
  have hchecked : ∀ i, (w.devices i).Checked S :=
    fun i => checked_of_isIdle (h i)
  constructor
  · exact (cloudSync S Id).along_of_invariant
      (fun _ _ _ hinv hstep => step_checked hinv hstep)
      (fun _ e hinv => (overwritesSynced_iff hinv e).mp) hchecked
  · exact (cloudSync S Id).along_of_invariant
      (fun _ _ _ hinv hstep => step_checked hinv hstep)
      (fun _ e hinv => (overwritesSynced_iff hinv e).mpr) hchecked

/-- A device that has synced, and a remote with a newer snapshot. -/
def behind : World Unit Nat Nat where
  remote := Remote.write (fun _ => none) .snapshot (plain.encoded
    { schemaVersion := portableSnapshotSchemaVersion
      snapshotKind := .sync
      revisionId := secondRevision
      deviceId := []
      createdAtMs := 0
      payloadHash := plain.payloadHash 2
      appVersion := []
      payload := 2 })
  devices := fun _ =>
    { content := 1
      state :=
        { lastSyncedPayloadHash := some (plain.payloadHash 1)
          lastAppliedRemoteRevision := some firstRevision } }
  issued := []

def checkRun : List (Event Unit Nat) :=
  .begin () (.check true) :: List.replicate 2 (.advance () true)

def pullRun : List (Event Unit Nat) :=
  List.replicate 6 (.advance () true)

/-- Edits that cancel out are not lost. -/
theorem neutral_edits_kept :
    (cloudSync plain Unit).Along (AtStep (Device.OverwritesSynced plain))
      behind (checkRun ++ .edit () 3 :: .edit () 1 :: pullRun) :=
  (autoPull_keeps_edits_iff (fun _ => rfl) _).mpr (by decide +kernel)

/-- An edit made right after the decision is overwritten. -/
theorem autoPull_discards_edit :
    ¬ ∀ w : World Unit Nat Nat, w.Idle → ∀ run,
      (cloudSync plain Unit).Along (AtStep (Device.OverwritesSynced plain))
        w run := by
  intro h
  have hrun := h behind (fun _ => rfl) (checkRun ++ .edit () 3 :: pullRun)
  exact absurd hrun (by decide +kernel)

end NiceTerm.Cloud
