/-
The last step of a copy: the content is ready under a temporary path and takes
the place of the target, which is moved to a backup in the meantime.
-/
import NiceTerm.Sftp.Transfers

namespace NiceTerm.Sftp

open Option RustStr

/-- The texts in which the copies differ. -/
structure CopyTexts where
  overwriteDirectory : Str → Str
  protectFailed : Str
  commitFailed : Str

/-- The calls that fail, with the text of the error.  Such a call does nothing;
the others may still be refused by the file system. -/
structure CallFaults where
  metadata : Option Str := none
  protect : Option Str := none
  commit : Option Str := none
  cleanup : Option Str := none
  restore : Option Str := none
  discard : Option Str := none
deriving DecidableEq, Repr

/-- A call, its fault, and what the file system does without one. -/
def call (fault : Option Str) (done : Option (Files Str)) :
    Except Str (Files Str) :=
  match fault with
  | some error => .error error
  | none => done.elim (.error "refused".toList) .ok

/-- A call whose failure is ignored. -/
def attempt (fault : Option Str) (files : Files Str)
    (done : Option (Files Str)) : Files Str :=
  match call fault done with
  | .ok files => files
  | .error _ => files

/-- The backup is moved back, and removed whether it has been moved or not. -/
def restoreBackup (replaces : Bool) (faults : CallFaults)
    (target backup : Str) (files : Files Str) : Files Str :=
  let files :=
    attempt faults.restore files (files.rename replaces backup target)
  attempt faults.discard files (files.removeFile backup)

variable (texts : CopyTexts)

/-- `replaces` says whether a rename of the file system replaces a file. -/
def commitCopyTemp (replaces : Bool) (faults : CallFaults)
    (temp target backup : Str) (files : Files Str) :
    Files Str × Except AppError Unit :=
  let targetMeta := if faults.metadata.isSome then none else files target
  if targetMeta = some .directory then
    (attempt faults.cleanup files (files.removeFile temp),
      .error (.channel (texts.overwriteDirectory target)))
  else
    let guarded :=
      if targetMeta.isSome then
        call faults.protect (files.rename replaces target backup)
      else .ok files
    match guarded with
    | .error error => (files, .error (.channel (texts.protectFailed ++ error)))
    | .ok files =>
      match call faults.commit (files.rename replaces temp target) with
      | .ok files =>
        let files :=
          if targetMeta.isSome then
            attempt faults.discard files (files.removeFile backup)
          else files
        (files, .ok ())
      | .error error =>
        let files := attempt faults.cleanup files (files.removeFile temp)
        let files :=
          if targetMeta.isSome then
            restoreBackup replaces faults target backup files
          else files
        (files, .error (.channel (texts.commitFailed ++ error)))

/-- `commit_local_copy_temp`, which two modules have alike. -/
def commitLocalCopyTemp :=
  commitCopyTemp
    { overwriteDirectory := fun target =>
        "Cannot overwrite existing directory '".toList ++ target ++
          "' with a file".toList
      protectFailed := "Failed to protect existing target file: ".toList
      commitFailed := "Failed to commit copied file: ".toList } true

/-- Whether a rename replaces a file is up to the server. -/
def commitRemoteCopyTemp (replaces : Bool) :=
  commitCopyTemp
    { overwriteDirectory := fun target =>
        "Cannot overwrite existing remote directory '".toList ++ target ++
          "' with a file".toList
      protectFailed := "Failed to protect existing remote target: ".toList
      commitFailed := "Failed to commit remote copy: ".toList } replaces

/-- What is there when a copy starts: the new content under the temporary
path, and nothing under the path of the backup, which has a fresh name. -/
structure Staged (files : Files Str) (temp target backup : Str)
    (new : Bytes) : Prop where
  ready : files temp = some (.file new)
  apart : temp ≠ target
  free : files backup = none

/-- The new content is in place, or the copy has failed and the old content is
under the target or the backup. -/
def NothingLost (files : Files Str) (target backup : Str) (new : Bytes)
    (after : Files Str × Except AppError Unit) : Prop :=
  (after.2 = .ok () ∧ after.1 target = some (.file new)) ∨
    ((∃ error, after.2 = .error error) ∧
      ∀ old, files target = some (.file old) →
        after.1 target = some (.file old) ∨ after.1 backup = some (.file old))

variable {files : Files Str} {temp target backup : Str} {new old : Bytes}
variable {faults : CallFaults} {replaces : Bool}

open Files

theorem attempt_removeFile_ne (fault : Option Str) {path other : Str}
    (h : other ≠ path) :
    attempt fault files (files.removeFile path) other = files other := by
  cases fault with
  | some error => rfl
  | none =>
    cases hdone : files.removeFile path with
    | none => rfl
    | some after => exact removeFile_ne hdone h

/-- The backup is lost if it is removed without having been moved back. -/
theorem restoreBackup_iff (replaces : Bool) (faults : CallFaults)
    (htarget : files target = none)
    (hbackup : files backup = some (.file old)) :
    (restoreBackup replaces faults target backup files target =
        some (.file old) ∨
      restoreBackup replaces faults target backup files backup =
        some (.file old)) ↔
      ¬ (faults.restore.isSome = true ∧ faults.discard = none) := by
  have hne : target ≠ backup := by
    rintro rfl
    exact some_ne_none _ (hbackup.symm.trans htarget)
  rw [restoreBackup]
  cases hrestore : faults.restore with
  | none =>
    have hmoved : attempt none files (files.rename replaces backup target) =
        (files.put backup none).put target (some (.file old)) := by
      rw [rename_of_none replaces hbackup htarget]
      rfl
    refine iff_of_true (.inl ?_) (by simp)
    rw [hmoved, attempt_removeFile_ne _ hne, put_same]
  | some error =>
    have hstays : attempt (some error) files
        (files.rename replaces backup target) = files := rfl
    rw [hstays]
    cases hdiscard : faults.discard with
    | none =>
      have hremoved : attempt none files (files.removeFile backup) =
          files.put backup none := by
        rw [removeFile_of_file hbackup]
        rfl
      rw [hremoved, put_same, put_ne _ _ hne, htarget]
      simp
    | some error => exact iff_of_true (.inr hbackup) (by simp)

theorem call_eq_ok {fault : Option Str} {done : Option (Files Str)}
    {after : Files Str} (h : call fault done = .ok after) :
    done = some after := by
  cases fault with
  | some error => exact absurd h (by simp [call])
  | none =>
    cases done with
    | none => exact absurd h (by simp [call])
    | some files => exact congrArg some (Except.ok.inj h)

/-- Without information about the target nothing is moved out of the way. -/
theorem unseen_nothingLost (hstaged : Staged files temp target backup new)
    (hunseen : files target = none ∨ faults.metadata.isSome = true) :
    NothingLost files target backup new
      (commitCopyTemp texts replaces faults temp target backup files) := by
  have hmeta : (if faults.metadata.isSome then none else files target) =
      none := by
    split
    · rfl
    · rename_i hseen
      exact hunseen.resolve_right hseen
  rw [commitCopyTemp, hmeta]
  simp only [reduceCtorEq, ↓reduceIte, isSome_none, Bool.false_eq_true]
  cases hcommit : call faults.commit (files.rename replaces temp target) with
  | error error =>
    refine .inr ⟨⟨_, rfl⟩, fun old hold => .inl ?_⟩
    simp only
    rw [attempt_removeFile_ne _ hstaged.apart.symm, hold]
  | ok after =>
    refine .inl ⟨rfl, ?_⟩
    simp only
    rw [rename_eq_some (call_eq_ok hcommit), hstaged.ready]

/-- Only a file can be lost. -/
theorem directory_nothingLost (hdirectory : files target = some .directory)
    (hseen : faults.metadata = none) :
    NothingLost files target backup new
      (commitCopyTemp texts replaces faults temp target backup files) := by
  have hmeta : (if faults.metadata.isSome then none else files target) =
      some .directory := by
    rw [hseen, hdirectory]
    rfl
  rw [commitCopyTemp, hmeta]
  refine .inr ⟨⟨_, rfl⟩, fun old hold => ?_⟩
  rw [hdirectory, some.injEq] at hold
  exact absurd hold (by simp)

/-- A file that is seen is moved to the backup, which is lost if it can neither
be replaced nor moved back and is then removed. -/
theorem seen_nothingLost_iff (hstaged : Staged files temp target backup new)
    (htarget : files target = some (.file old))
    (hseen : faults.metadata = none) :
    NothingLost files target backup new
        (commitCopyTemp texts replaces faults temp target backup files) ↔
      ¬ (faults.protect = none ∧ faults.commit.isSome = true ∧
        faults.restore.isSome = true ∧ faults.discard = none) := by
  have hbackup : target ≠ backup := by
    rintro rfl
    exact some_ne_none _ (htarget.symm.trans hstaged.free)
  have htemp : temp ≠ backup := by
    rintro rfl
    exact some_ne_none _ (hstaged.ready.symm.trans hstaged.free)
  have hmeta : (if faults.metadata.isSome then none else files target) =
      some (.file old) := by
    rw [hseen, htarget]
    rfl
  rw [commitCopyTemp, hmeta]
  simp only [some.injEq, reduceCtorEq, ↓reduceIte, isSome_some]
  cases hprotect : faults.protect with
  | some error =>
    refine iff_of_true (.inr ⟨⟨_, rfl⟩, fun content hold => ?_⟩) (by simp)
    exact .inl hold
  | none =>
    have hmoved : call none (files.rename replaces target backup) =
        .ok ((files.put target none).put backup (some (.file old))) := by
      rw [rename_of_none replaces htarget hstaged.free]
      rfl
    rw [hmoved]
    simp only
    generalize hguarded :
      (files.put target none).put backup (some (.file old)) = guarded
    have hguardedTarget : guarded target = none := by
      rw [← hguarded, put_ne _ _ hbackup, put_same]
    have hguardedBackup : guarded backup = some (.file old) := by
      rw [← hguarded, put_same]
    have hguardedTemp : guarded temp = some (.file new) := by
      rw [← hguarded, put_ne _ _ htemp,
        put_ne _ _ hstaged.apart, hstaged.ready]
    cases hcommit : faults.commit with
    | none =>
      have hdone : call none (guarded.rename replaces temp target) =
          .ok ((guarded.put temp none).put target (some (.file new))) := by
        rw [rename_of_none replaces hguardedTemp hguardedTarget]
        rfl
      rw [hdone]
      refine iff_of_true (.inl ⟨rfl, ?_⟩) (by simp)
      simp only
      rw [attempt_removeFile_ne _ hbackup, put_same]
    | some error =>
      have hfailed : call (some error) (guarded.rename replaces temp target) =
          .error error := rfl
      rw [hfailed]
      simp only
      generalize hcleaned : attempt faults.cleanup guarded
        (guarded.removeFile temp) = cleaned
      have hcleanedTarget : cleaned target = none := by
        rw [← hcleaned, attempt_removeFile_ne _ hstaged.apart.symm,
          hguardedTarget]
      have hcleanedBackup : cleaned backup = some (.file old) := by
        rw [← hcleaned, attempt_removeFile_ne _ htemp.symm, hguardedBackup]
      have hrestored := restoreBackup_iff replaces faults hcleanedTarget
        hcleanedBackup
      simp only [isSome_some, true_and, NothingLost, reduceCtorEq,
        false_and, false_or]
      rw [← hrestored]
      constructor
      · exact fun h => h.2 old htarget
      · refine fun h => ⟨⟨_, rfl⟩, fun content hold => ?_⟩
        rw [htarget, some.injEq, Node.file.injEq] at hold
        rwa [hold] at h

/-- The calls that together lose the content of the target. -/
def LosesTarget (files : Files Str) (target : Str) (faults : CallFaults) :
    Prop :=
  (∃ old, files target = some (.file old)) ∧ faults.metadata = none ∧
    faults.protect = none ∧ faults.commit.isSome = true ∧
    faults.restore.isSome = true ∧ faults.discard = none

theorem commitCopyTemp_nothingLost_iff
    (hstaged : Staged files temp target backup new) :
    NothingLost files target backup new
        (commitCopyTemp texts replaces faults temp target backup files) ↔
      ¬ LosesTarget files target faults := by
  rw [LosesTarget]
  cases hmetadata : faults.metadata with
  | some error =>
    refine iff_of_true (unseen_nothingLost texts hstaged (.inr ?_)) ?_
    · rw [hmetadata]
      rfl
    · simp
  | none =>
    cases htarget : files target with
    | none =>
      refine iff_of_true (unseen_nothingLost texts hstaged (.inl htarget)) ?_
      simp
    | some node =>
      cases node with
      | directory =>
        refine iff_of_true (directory_nothingLost texts htarget hmetadata) ?_
        simp
      | file old =>
        rw [seen_nothingLost_iff texts hstaged htarget hmetadata]
        simp

/-- Each copy loses nothing, except when the target is a file that has been
moved to the backup, neither the new content nor the backup can be moved to the
target, and the backup can be removed. -/
theorem staged_copies_keep_iff (faults : CallFaults) (replaces : Bool)
    (hstaged : Staged files temp target backup new) :
    (NothingLost files target backup new
        (commitLocalCopyTemp faults temp target backup files) ↔
      ¬ LosesTarget files target faults) ∧
    (NothingLost files target backup new
        (commitRemoteCopyTemp replaces faults temp target backup files) ↔
      ¬ LosesTarget files target faults) :=
  ⟨commitCopyTemp_nothingLost_iff _ hstaged,
    commitCopyTemp_nothingLost_iff _ hstaged⟩

/-- A file at `t` and the new content at `n`. -/
def sampleFiles : Files Str := fun path =>
  if path = ['n'] then some (.file [1])
  else if path = ['t'] then some (.file [0])
  else none

theorem sampleFiles_staged : Staged sampleFiles ['n'] ['t'] ['b'] [1] where
  ready := rfl
  apart := by decide
  free := rfl

theorem sample_copies_keep :
    NothingLost sampleFiles ['t'] ['b'] [1]
        (commitLocalCopyTemp { commit := some [] } ['n'] ['t'] ['b']
          sampleFiles) ∧
      NothingLost sampleFiles ['t'] ['b'] [1]
        (commitRemoteCopyTemp false { commit := some [] } ['n'] ['t'] ['b']
          sampleFiles) := by
  have hkeeps : ¬ LosesTarget sampleFiles ['t'] { commit := some [] } := by
    simp [LosesTarget]
  have h := staged_copies_keep_iff { commit := some [] } false
    sampleFiles_staged
  exact ⟨h.1.mpr hkeeps, h.2.mpr hkeeps⟩

/-- The disk fails while the new content is moved and the backup moved back. -/
def brokenRenames : CallFaults where
  commit := some "input/output error".toList
  restore := some "input/output error".toList

theorem broken_renames_lose_target :
    Staged sampleFiles ['n'] ['t'] ['b'] [1] ∧
      ¬ NothingLost sampleFiles ['t'] ['b'] [1]
        (commitLocalCopyTemp brokenRenames ['n'] ['t'] ['b'] sampleFiles) := by
  refine ⟨sampleFiles_staged, ?_⟩
  rintro (⟨h, -⟩ | ⟨-, h⟩)
  · exact absurd h (by decide +kernel)
  · exact absurd (h [0] rfl) (by decide +kernel)

end NiceTerm.Sftp
