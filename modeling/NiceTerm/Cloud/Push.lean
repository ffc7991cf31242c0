/-
Pushes without force.  Such a push compares its own payload with the head of the
remote and with nothing else, so what it replaces is only known to the device
when the head is the one its sync state records.
-/
import NiceTerm.Cloud.Revisions

namespace NiceTerm.Cloud

open RustStr Transition

variable {Content Payload : Type} {S : Portable Content Payload}
variable {Id : Type} [DecidableEq Id]

/-- The latest pointer of the remote, when it can be read. -/
def head (remote : Remote Payload) : Option RemoteSyncPointer :=
  match loadSyncPointer remote with
  | .ok pointer => pointer
  | .error _ => none

variable (remote : Remote Payload)

def headHash : Option Str :=
  (head remote).map RemoteSyncPointer.payloadHash

def Caller.pushesUnforced : Caller Payload → Bool
  | .push false _ => true
  | _ => false

/-- The steps of `push_snapshot` with `force` false. -/
def Phase.pushesUnforced : Phase Payload → Bool
  | .pushLoad force _ | .pushUpload force _ | .pushVerify force _
  | .pushCommit force _ | .pushCompat force _ | .pushRecord force _ => !force
  | .resolveRead caller _ | .resolveCurrent caller _ _
  | .resolveMigrate caller _ _ | .resolveVerify caller _ _ =>
    caller.pushesUnforced
  | _ => false

/-- The step replaces no head whose payload the device has neither pushed nor
applied: the device knows it, or the head keeps its payload. -/
def KeepsUnseen (S : Portable Content Payload) (w : World Id Content Payload) :
    Event Id Content → Prop
  | .advance i works =>
    (w.devices i).phase.pushesUnforced = true →
      ∀ h ∈ headHash w.remote, h ∈ (w.devices i).known ∨
        headHash (w.advance S i works).remote = some h
  | _ => True

/-- The snapshot a push without force is about to write. -/
def Phase.pushWrites (works : Bool) :
    Phase Payload → Option (PortableSnapshot Payload)
  | .pushUpload false envelope => some envelope
  | .pushCompat false envelope => if works then some envelope else none
  | .resolveMigrate (.push false _) _ snapshot => some snapshot
  | _ => none

/-- When a push without force writes, the head of the remote has the payload
that is written, or it is the head the device's state records. -/
def HeadRecorded (w : World Id Content Payload) : Event Id Content → Prop
  | .advance i works =>
    ∀ s ∈ (w.devices i).phase.pushWrites works, ∀ p ∈ head w.remote,
      p.payloadHash = s.payloadHash ∨
        (w.devices i).state.lastSyncedPayloadHash = some p.payloadHash ∨
        (w.devices i).state.lastAppliedRemoteRevision = some p.revisionId
  | _ => True

instance (w : World Id Content Payload) (e : Event Id Content) :
    Decidable (KeepsUnseen S w e) :=
  match e with
  | .advance i works => inferInstanceAs (Decidable
      ((w.devices i).phase.pushesUnforced = true →
        ∀ h ∈ headHash w.remote, h ∈ (w.devices i).known ∨
          headHash (w.advance S i works).remote = some h))
  | .edit _ _ => isTrue trivial
  | .begin _ _ => isTrue trivial
  | .abort _ => isTrue trivial
  | .breakApply _ _ => isTrue trivial
  | .lose _ _ => isTrue trivial

instance (w : World Id Content Payload) (e : Event Id Content) :
    Decidable (HeadRecorded w e) :=
  match e with
  | .advance i works => inferInstanceAs (Decidable
      (∀ s ∈ (w.devices i).phase.pushWrites works, ∀ p ∈ head w.remote,
        p.payloadHash = s.payloadHash ∨
          (w.devices i).state.lastSyncedPayloadHash = some p.payloadHash ∨
          (w.devices i).state.lastAppliedRemoteRevision = some p.revisionId))
  | .edit _ _ => isTrue trivial
  | .begin _ _ => isTrue trivial
  | .abort _ => isTrue trivial
  | .breakApply _ _ => isTrue trivial
  | .lose _ _ => isTrue trivial

theorem head_eq_some {remote : Remote Payload} {p : RemoteSyncPointer} :
    head remote = some p ↔ loadSyncPointer remote = .ok (some p) := by
  unfold head
  split
  · next pointer hload => simp [hload]
  · next error hload => simp [hload]

/-- Writing the stable file makes the snapshot the head. -/
theorem head_write_snapshot (s : PortableSnapshot Payload) :
    head (remote.write .snapshot (S.encoded s)) =
      some (pointerFromSnapshot s) := by
  rw [head_eq_some]
  simp [loadSyncPointer, Remote.write, Portable.encoded, RemoteObject.decode?]

/-- A legacy snapshot file is not what the head is read from. -/
theorem head_write_legacySnapshot (revision : Str)
    (object : RemoteObject Payload) :
    head (remote.write (.legacySnapshot revision) object) = head remote := by
  simp [head, loadSyncPointer, Remote.write]

theorem perform_resolved_of_push {state : CloudSyncState}
    {caller : Caller Payload} (hcaller : caller.pushesUnforced = true)
    (pointer : RemoteSyncPointer) (s : PortableSnapshot Payload)
    (remote : Remote Payload) :
    remote.perform S (resolved state caller pointer s).1 = remote := by
  cases caller with
  | push force envelope => rfl
  | check localHash allowAutoPull => simp [Caller.pushesUnforced] at hcaller
  | pull auto localHash => simp [Caller.pushesUnforced] at hcaller

theorem perform_unresolved (caller : Caller Payload)
    (pointer : RemoteSyncPointer) (error : SyncError)
    (remote : Remote Payload) :
    remote.perform S (unresolved caller pointer error).1 = remote := by
  unfold unresolved
  split
  · split <;> rfl
  · rfl

/-- A step of a push without force leaves the head alone or makes what it
writes the head. -/
theorem head_advance {works : Bool} {remote : Remote Payload}
    {state : CloudSyncState} {content : Content} {phase : Phase Payload}
    {issued : List (Str × Str)} (hphase : phase.Registered S issued)
    (hpush : phase.pushesUnforced = true) :
    head (remote.perform S (next S works remote state content phase).1) =
        head remote ∨
      ∃ s ∈ phase.pushWrites works,
        head (remote.perform S (next S works remote state content phase).1) =
          some (pointerFromSnapshot s) := by
  cases phase with
  | pushLoad force envelope =>
    left
    unfold next
    dsimp only
    split
    · rfl
    · rfl
    · split <;> rfl
  | pushUpload force envelope =>
    obtain rfl : force = false := by simpa [Phase.pushesUnforced] using hpush
    right
    refine ⟨envelope, rfl, ?_⟩
    simp only [next, Remote.perform, Portable.syncSnapshotFile, hphase.1,
      ↓reduceIte]
    exact head_write_snapshot remote envelope
  | pushVerify force envelope =>
    left
    unfold next
    dsimp only
    split <;> rfl
  | pushCommit force envelope =>
    left
    simp only [next, commitSyncPointer, hphase.1, ↓reduceIte]
    rfl
  | pushCompat force envelope =>
    obtain rfl : force = false := by simpa [Phase.pushesUnforced] using hpush
    cases works
    · left
      rfl
    · right
      refine ⟨envelope, rfl, ?_⟩
      simp only [next, writeCurrent, Remote.perform,
        Portable.currentSnapshotFile, hphase.1, ↓reduceIte]
      exact head_write_snapshot remote envelope
  | pushRecord force envelope => exact .inl rfl
  | resolveRead caller pointer =>
    left
    unfold next
    dsimp only
    split
    · rw [perform_resolved_of_push hpush]
    · split
      · rfl
      · rw [perform_unresolved]
  | resolveCurrent caller pointer pointerError =>
    left
    unfold next
    dsimp only
    split
    · rw [perform_unresolved]
    · rw [perform_unresolved]
    · split <;> rfl
  | resolveMigrate caller pointer snapshot =>
    by_cases huuid : S.isUuid snapshot.revisionId = true
    · right
      cases caller with
      | push force envelope =>
        obtain rfl : force = false := by
          cases force
          · rfl
          · simp [Phase.pushesUnforced, Caller.pushesUnforced] at hpush
        refine ⟨snapshot, rfl, ?_⟩
        simp only [next, Remote.perform, Portable.syncSnapshotFile, huuid,
          ↓reduceIte]
        exact head_write_snapshot remote snapshot
      | check localHash allowAutoPull =>
        simp [Phase.pushesUnforced, Caller.pushesUnforced] at hpush
      | pull auto localHash =>
        simp [Phase.pushesUnforced, Caller.pushesUnforced] at hpush
    · left
      simp only [next, Remote.perform, Portable.syncSnapshotFile, huuid,
        Bool.false_eq_true, ↓reduceIte]
      exact head_write_legacySnapshot remote _ _
  | resolveVerify caller pointer snapshot =>
    left
    unfold next
    dsimp only
    split
    · rw [perform_resolved_of_push hpush]
    · rw [perform_unresolved]
  | _ => simp [Phase.pushesUnforced] at hpush

omit [DecidableEq Id] in
/-- In a consistent world a device knows the payload of the head it records. -/
theorem known_of_headRecorded {w : World Id Content Payload}
    (h : w.Consistent S) {i : Id} {p : RemoteSyncPointer}
    (hhead : head w.remote = some p)
    (hrecorded :
      (w.devices i).state.lastSyncedPayloadHash = some p.payloadHash ∨
        (w.devices i).state.lastAppliedRemoteRevision = some p.revisionId) :
    p.payloadHash ∈ (w.devices i).known := by
  rcases hrecorded with hsynced | happlied
  · exact (h.devices i).synced _ hsynced
  · obtain ⟨hash, hmem, hpair⟩ := (h.devices i).applied _ happlied
    have hregistered : (p.revisionId, p.payloadHash) ∈ w.issued :=
      loadSyncPointer_registered h.remote (head_eq_some.mp hhead)
    rwa [h.functional _ _ _ hregistered hpair]

theorem step_keepsUnseen {w : World Id Content Payload} (h : w.Consistent S)
    {e : Event Id Content} (hcond : HeadRecorded w e) : KeepsUnseen S w e := by
  cases e with
  | advance i works =>
    intro hpush hash hhash
    obtain ⟨p, hp, rfl⟩ : ∃ p, head w.remote = some p ∧
        p.payloadHash = hash := by
      simpa [headHash] using hhash
    have hadvance : head (w.remote.perform S (next S works w.remote
          (w.devices i).state (w.devices i).content
          (w.devices i).phase).1) = head w.remote ∨ _ :=
      head_advance (h.phases i) hpush
    rcases hadvance with hsame | ⟨s, hs, hnew⟩
    · right
      change headHash (w.remote.perform S _) = _
      rw [headHash, hsame, hp]
      rfl
    · rcases hcond s hs p hp with hequal | hrecorded
      · right
        change headHash (w.remote.perform S _) = _
        rw [headHash, hnew]
        simp [pointerFromSnapshot, hequal]
      · exact .inl (known_of_headRecorded h hp hrecorded)
  | _ => trivial

/-- A push without force never replaces an unseen payload in a run in which
every such push finds the head it has recorded when it writes. -/
theorem push_keeps_unseen {w : World Id Content Payload} (h : w.Fresh)
    {run : List (Event Id Content)}
    (hcond : (cloudSync S Id).Along HeadRecorded w run) :
    (cloudSync S Id).Along (KeepsUnseen S) w run :=
  (cloudSync S Id).along_of_invariant
    (fun _ _ _ hinv hstep => step_consistent hinv hstep)
    (fun _ _ hinv hstep => step_keepsUnseen hinv hstep) h.consistent hcond

/-- Contents that are their own payloads. -/
def plain : Portable Nat Nat where
  build content := content
  payloadHash payload := 'h' :: decimal payload
  apply snapshot _ := snapshot.payload
  encryptedBytes _ := 100
  isUuid revision := len revision == 36

def pair : World Bool Nat Nat where
  remote := fun _ => none
  devices := fun i => { content := if i then 2 else 1 }
  issued := []

theorem pair_fresh : pair.Fresh := by
  refine ⟨fun i => ⟨rfl, rfl, rfl⟩, ?_, ?_⟩
  · simp [pair]
  · simp [pair]

def firstRevision : Str := "00000000-0000-4000-8000-000000000001".toList

def secondRevision : Str := "00000000-0000-4000-8000-000000000002".toList

def thirdRevision : Str := "00000000-0000-4000-8000-000000000003".toList

def pushRun (i : Bool) (revision : Str) : List (Event Bool Nat) :=
  .begin i (.push false revision 0) :: List.replicate 6 (.advance i true)

/-- One device pushes and the other, after an automatic pull and an edit,
pushes over it. -/
theorem push_over_pulled_keeps_unseen :
    (cloudSync plain Bool).Along (KeepsUnseen plain) pair
      (pushRun false firstRevision ++
        (.begin true .pull :: List.replicate 6 (.advance true true)) ++
        .edit true 3 :: pushRun true secondRevision) :=
  push_keeps_unseen pair_fresh (by decide +kernel)

/-- The second device has never seen what the first one has pushed, and its
push replaces it. -/
theorem push_replaces_unseen :
    ¬ ∀ w : World Bool Nat Nat, w.Fresh → ∀ run,
      (cloudSync plain Bool).Along (KeepsUnseen plain) w run := by
  intro h
  have hrun := h pair pair_fresh
    (pushRun false firstRevision ++ pushRun true secondRevision)
  exact absurd hrun (by decide +kernel)

end NiceTerm.Cloud
