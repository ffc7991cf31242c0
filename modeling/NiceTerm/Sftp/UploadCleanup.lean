/-
Uploads of a file and of a directory through commands of a remote shell, as far
as they change the remote tree.
-/
import NiceTerm.Sftp.Transfers

namespace NiceTerm.Sftp.Scp

open Disk Effects Option
open RustStr (Str)

abbrev RemotePath := List Str

abbrev RemoteDisk := Disk Str Str

/-- A part of a transfer that runs commands on the remote side. -/
abbrev Remote := Effects RemoteDisk AppError

/-- The content of a local file as it is read, and the identifier that the
upload draws for its temporary file. -/
structure FileUpload where
  uuid : Str
  chunks : List Bytes
deriving DecidableEq, Repr

def tmpPath (path : RemotePath) (uuid : Str) : RemotePath :=
  path.dropLast ++ [path.getLastD [] ++ ".__niceterm_tmp_".toList ++ uuid]

variable (tmp : RemotePath)

/-- `cat > tmp`: the shell opens the file before it runs the command. -/
def openTmp : Remote (Option Str) :=
  command "1".toList fun files =>
    (files.createFile tmp).map fun files => (files, [tmp])

/-- `rm -f tmp`.  The path has been named for this upload and is its own. -/
def removeTmp : Remote Unit := do
  let _ ← command [] fun files =>
    (files.removeFile tmp).map fun files => (files, [tmp])
  pure ()

/-- `mv -f tmp path` moves the file into a directory that stands there. -/
def moveTmp (path : RemotePath) : Remote (Option Str) :=
  command "cannot move".toList fun files =>
    let target :=
      if files path = some .directory then path ++ [tmp.getLastD []] else path
    (files.rename true tmp target).map fun files => (files, [tmp, target])

/-- A file of a directory also waits for the directory. -/
def waitChain (withParent : Bool) : Remote Unit := do
  if withParent then waitReady
  waitReady

/-- What has been sent is in the file, if the shell could open it. -/
def sendChunks (tmp : RemotePath) (opened withParent : Bool) :
    List Bytes → Bytes → Remote Unit
  | [], _ => do
    waitChain withParent
    Disk.call (channelError "Failed to read local file: ")
  | chunk :: chunks, sent => do
    waitChain withParent
    Disk.call (channelError "Failed to read local file: ")
    Disk.call (channelError "Channel write failed: ")
    if opened then writeFile tmp (sent ++ chunk)
    sendChunks tmp opened withParent chunks (sent ++ chunk)

def catExit : Remote (Option Str) := command [] fun files => some (files, [])

/-- The exit code of `cat`, which is not zero if the shell has failed. -/
def finishCat (openError : Option Str) : Remote Unit := do
  match openError.or (← catExit) with
  | none => pure ()
  | some code => do
    removeTmp tmp
    .fail (channelError "Upload cat exited with code " code)

def finishMove (path : RemotePath) : Remote Unit := do
  Disk.call .channel
  match ← moveTmp tmp path with
  | none => pure ()
  | some error => do
    removeTmp tmp
    .fail (channelError "Failed to move uploaded file: " error)

def uploadBody (path : RemotePath) (upload : FileUpload) (withParent : Bool) :
    Remote Unit := do
  let tmp := tmpPath path upload.uuid
  Disk.call (channelError "Failed to open local file: ")
  Disk.call (channelError "Failed to open channel: ")
  Disk.call .other
  let openError ← openTmp tmp
  sendChunks tmp openError.isNone withParent upload.chunks []
  Disk.call (channelError "Channel EOF failed: ")
  finishCat tmp openError
  finishMove tmp path

def uploadFileInner (path : RemotePath) (upload : FileUpload)
    (withParent : Bool) : Remote Unit := do
  match ← (uploadBody path upload withParent).attempt with
  | .ok _ => pure ()
  | .error error => do
    if error.isCancelled then removeTmp (tmpPath path upload.uuid)
    .fail error

/-- The attempts of `upload_file` once its target has been resolved. -/
def uploadFile (path : RemotePath) (uploads : Nat → FileUpload) :
    Nat → Remote Unit
  | 0 => uploadFileInner path (uploads 0) false
  | retries + 1 => do
    match ← (uploadFileInner path (uploads (retries + 1)) false).attempt with
    | .ok _ => pure ()
    | .error error =>
      if error.isCancelled then .fail error
      else uploadFile path uploads retries

/-- The entries of a local directory, in the order in which they are read. -/
inductive LocalListing
  | nil
  | file (name : Str) (upload : FileUpload) (rest : LocalListing)
  | directory (name : Str) (content rest : LocalListing)
  | other (name : Str) (rest : LocalListing)
deriving DecidableEq, Repr

/-- `mkdir -p`, whose failure is ignored. -/
def makeDirectory (path : RemotePath) : Remote Unit := do
  let _ ← (createDirAll AppError.channel [] path).attempt
  pure ()

def openDirectory (path : RemotePath) : Remote Unit := do
  waitReady
  makeDirectory path
  Disk.call (channelError "Failed to read local dir: ")

def nextEntry : Remote Unit := do
  Disk.call (channelError "Failed to read dir entry: ")
  waitReady
  Disk.call (channelError "Failed to get file type: ")

/-- The loop of `upload_local_directory_inner` over the entries. -/
def uploadEntries (path : RemotePath) : LocalListing → Remote Unit
  | .nil => Disk.call (channelError "Failed to read dir entry: ")
  | .file name upload rest => do
    nextEntry
    uploadFileInner (path ++ [name]) upload true
    uploadEntries path rest
  | .directory name content rest => do
    nextEntry
    openDirectory (path ++ [name])
    uploadEntries (path ++ [name]) content
    uploadEntries path rest
  | .other _ rest => do
    nextEntry
    uploadEntries path rest

def uploadLocalDirectoryInner (path : RemotePath) (listing : LocalListing) :
    Remote Unit := do
  openDirectory path
  uploadEntries path listing

/-- A test that cannot be carried out says no. -/
def test (ask : Option Node → Bool) (path : RemotePath) : Remote Bool := do
  pure ((← query fun files => ask (files path)).getD false)

def resolveRemoteExists : RemotePath → Remote Bool := test Option.isSome

def resolveRemoteIsDirectory : RemotePath → Remote Bool :=
  test (· == some .directory)

/-- `answer` is the answer to the prompt, if there is one. -/
def ensureRemoteUploadTargetAllowed (strategy : Str)
    (answer : Option DuplicateChoice) (path : RemotePath) : Remote Bool := do
  if ← resolveRemoteExists path then
    let _ ← resolveRemoteIsDirectory path
    pure (if strategy = "skip".toList then false
      else if strategy = "rename".toList then true
      else if strategy = "ask".toList then answer == some .overwrite
      else true)
  else pure true

/-- `rm -rf`, which leaves what it cannot remove. -/
def removeTarget (path : RemotePath) (stubborn : List RemotePath) :
    Remote Unit := do
  let _ ← command [] fun files =>
    some (files.removeAll path stubborn, [])
  pure ()

/-- What an upload of a directory depends on beside the signals. -/
structure DirectoryUpload where
  strategy : Str
  answer : Option DuplicateChoice
  listing : LocalListing
  stubborn : List RemotePath
deriving DecidableEq, Repr

def uploadAllowedDirectory (path : RemotePath) (upload : DirectoryUpload) :
    Remote Unit := do
  Disk.call (channelError "Failed to read local dir: ")
  match ← (uploadLocalDirectoryInner path upload.listing).attempt with
  | .ok _ => pure ()
  | .error error => do
    if error.isCancelled then removeTarget path upload.stubborn
    .fail error

def uploadDirectory (path : RemotePath) (upload : DirectoryUpload) :
    Remote Unit := do
  if ← ensureRemoteUploadTargetAllowed upload.strategy upload.answer path then
    uploadAllowedDirectory path upload
  else pure ()

/-! What an upload leaves of the remote tree that was there before. Each file
has a temporary path of its own, but the clean-up of a cancelled directory
removes all that the target contains. -/

variable {path : RemotePath} {files : Files RemotePath}

/-- The nodes at and under a path that the transfer has not replaced are as
they were. -/
def NodesKept (path : RemotePath) (files : Files RemotePath)
    (after : RemoteDisk) : Prop :=
  ∀ other node, path <+: other → files other = some node →
    other ∉ after.written → after.files other = some node

theorem adds_within {α : Type} {x : Remote α} (hx : Within Adds x) :
    Within Keeps x := hx.mono fun _ _ h => h.keeps

theorem waitReady_within : Within Keeps waitReady := adds_within (wait_adds _)

theorem call_within (wrap : RustStr.Str → AppError) :
    Within Keeps (Disk.call wrap : Remote Unit) := adds_within (call_adds wrap)

theorem openTmp_within : Within Keeps (openTmp tmp) := by
  apply command_within
  intro files after paths h other node hnode hother
  rw [map_eq_some_iff] at h
  obtain ⟨created, hcreated, heq⟩ := h
  obtain ⟨rfl, rfl⟩ := Prod.mk.inj heq
  rw [Files.createFile_ne hcreated (by simpa using hother), hnode]

theorem removeTmp_within : Within Keeps (removeTmp tmp) := by
  have hremove : Within Keeps (Disk.command [] (fun files : Files RemotePath =>
        (files.removeFile tmp).map fun files => (files, [tmp])) :
          Remote (Option RustStr.Str)) := by
    apply command_within
    intro files after paths h other node hnode hother
    rw [map_eq_some_iff] at h
    obtain ⟨removed, hremoved, heq⟩ := h
    obtain ⟨rfl, rfl⟩ := Prod.mk.inj heq
    rw [Files.removeFile_ne hremoved (by simpa using hother), hnode]
  exact hremove.bind fun _ => Within.pure _

theorem moveTmp_within (path : RemotePath) :
    Within Keeps (moveTmp tmp path) := by
  apply command_within
  intro files after paths h other node hnode hother
  rw [map_eq_some_iff] at h
  obtain ⟨moved, hmoved, heq⟩ := h
  obtain ⟨rfl, rfl⟩ := Prod.mk.inj heq
  rw [List.mem_cons, List.mem_singleton, not_or] at hother
  rw [Files.rename_ne hmoved hother.1 hother.2, hnode]

theorem waitChain_within (withParent : Bool) :
    Within Keeps (waitChain withParent) := by
  cases withParent with
  | true =>
    change Within Keeps (waitReady >>= fun _ => waitReady)
    exact waitReady_within.bind fun _ => waitReady_within
  | false => exact waitReady_within

theorem sendChunks_within (opened withParent : Bool)
    (chunks : List Bytes) (sent : Bytes) :
    Within Keeps (sendChunks tmp opened withParent chunks sent) := by
  induction chunks generalizing sent with
  | nil => exact (waitChain_within withParent).bind fun _ => call_within _
  | cons chunk chunks ih =>
    apply (waitChain_within withParent).bind
    intro _
    apply (call_within _).bind
    intro _
    apply (call_within _).bind
    intro _
    cases opened with
    | true => exact (writeFile_within tmp _).bind fun _ => ih _
    | false => exact (Within.pure _).bind fun _ => ih _

theorem finishCat_within (openError : Option RustStr.Str) :
    Within Keeps (finishCat tmp openError) := by
  have hexit : Within Keeps catExit := by
    apply command_within
    rintro files after paths h other node hnode -
    obtain ⟨rfl, -⟩ := Prod.mk.inj (some.inj h)
    exact hnode
  apply hexit.bind
  intro exit
  split
  · exact Within.pure _
  · exact (removeTmp_within tmp).bind fun _ => Within.fail _

theorem finishMove_within (path : RemotePath) :
    Within Keeps (finishMove tmp path) := by
  apply (call_within _).bind
  intro _
  apply (moveTmp_within tmp path).bind
  rintro (_ | error)
  · exact Within.pure _
  · exact (removeTmp_within tmp).bind fun _ => Within.fail _

theorem uploadBody_within (path : RemotePath) (upload : FileUpload)
    (withParent : Bool) : Within Keeps (uploadBody path upload withParent) := by
  apply (call_within _).bind
  intro _
  apply (call_within _).bind
  intro _
  apply (call_within _).bind
  intro _
  apply (openTmp_within _).bind
  intro openError
  apply (sendChunks_within _ _ _ _ _).bind
  intro _
  apply (call_within _).bind
  intro _
  apply (finishCat_within _ _).bind
  exact fun _ => finishMove_within _ path

/-- An upload of a file touches nothing but its temporary file and the file
that it replaces, however it ends. -/
theorem uploadFileInner_within (path : RemotePath) (upload : FileUpload)
    (withParent : Bool) :
    Within Keeps (uploadFileInner path upload withParent) := by
  apply (uploadBody_within path upload withParent).attempt.bind
  rintro (error | _)
  · simp only
    split
    · exact (removeTmp_within _).bind fun _ => Within.fail _
    · exact Within.fail _
  · exact Within.pure _

theorem uploadFile_within (path : RemotePath) (uploads : Nat → FileUpload)
    (retries : Nat) : Within Keeps (uploadFile path uploads retries) := by
  induction retries with
  | zero => exact uploadFileInner_within path _ false
  | succ retries ih =>
    apply (uploadFileInner_within path _ false).attempt.bind
    rintro (error | _)
    · change Within Keeps (if error.isCancelled then Effects.fail error
        else uploadFile path uploads retries)
      split
      · exact Within.fail _
      · exact ih
    · exact Within.pure _

theorem openDirectory_within (path : RemotePath) :
    Within Keeps (openDirectory path) := by
  apply waitReady_within.bind
  intro _
  have hmake : Within Keeps (makeDirectory path) :=
    (adds_within (createDirAll_adds AppError.channel [] path)).attempt.bind
      fun _ => Within.pure _
  apply hmake.bind
  exact fun _ => call_within _

theorem nextEntry_within : Within Keeps nextEntry := by
  apply (call_within _).bind
  intro _
  apply waitReady_within.bind
  exact fun _ => call_within _

theorem uploadEntries_within (path : RemotePath) (listing : LocalListing) :
    Within Keeps (uploadEntries path listing) := by
  induction listing generalizing path with
  | nil => exact call_within _
  | file name upload rest ih =>
    apply nextEntry_within.bind
    intro _
    apply (uploadFileInner_within _ _ _).bind
    exact fun _ => ih path
  | directory name content rest ihContent ihRest =>
    apply nextEntry_within.bind
    intro _
    apply (openDirectory_within _).bind
    intro _
    apply (ihContent _).bind
    exact fun _ => ihRest path
  | other name rest ih =>
    apply nextEntry_within.bind
    exact fun _ => ih path

theorem uploadLocalDirectoryInner_within (path : RemotePath)
    (listing : LocalListing) :
    Within Keeps (uploadLocalDirectoryInner path listing) :=
  (openDirectory_within path).bind fun _ => uploadEntries_within path listing

theorem test_adds (ask : Option Node → Bool) (path : RemotePath) :
    Within Adds (test ask path) :=
  (query_adds _).bind fun _ => Within.pure _

theorem ensureRemoteUploadTargetAllowed_within (strategy : RustStr.Str)
    (answer : Option DuplicateChoice) (path : RemotePath) :
    Within Keeps (ensureRemoteUploadTargetAllowed strategy answer path) := by
  apply (adds_within (test_adds _ path)).bind
  rintro (_ | _)
  · exact Within.pure _
  · exact (adds_within (test_adds _ path)).bind fun _ => Within.pure _

theorem removeTarget_ok (path : RemotePath) (stubborn : List RemotePath)
    (disk : RemoteDisk) : (removeTarget path stubborn disk).1 = .ok () := by
  obtain ⟨exit, hexit⟩ := command_ok (ε := AppError) []
    (fun files => some (files.removeAll path stubborn, [])) disk
  rw [removeTarget, bind_ok hexit]
  rfl

/-- How an upload ends that starts from a state: it keeps what it does not
replace, or it has been cancelled. -/
def KeepsUnlessCancelled (before : RemoteDisk) (result : Except AppError Unit)
    (after : RemoteDisk) : Prop :=
  Keeps before after ∨ ∃ error, result = .error error ∧ error.isCancelled

theorem uploadAllowedDirectory_keeps (path : RemotePath)
    (upload : DirectoryUpload) (before : RemoteDisk) :
    Ensures (Keeps before) (uploadAllowedDirectory path upload)
      (KeepsUnlessCancelled before) := by
  refine ((call_within _).midway fun _ _ h => .inl h).bind fun _ => ?_
  have hinner := (uploadLocalDirectoryInner_within path upload.listing).attempt
  refine (hinner.midway fun _ _ h => .inl h).bind ?_
  rintro (error | _) disk hdisk
  · simp only
    cases hcancelled : error.isCancelled with
    | true =>
      refine .inr ⟨error, ?_, hcancelled⟩
      rw [if_pos rfl, bind_ok (removeTarget_ok path upload.stubborn disk)]
      rfl
    | false => exact .inl hdisk
  · exact .inl hdisk

theorem uploadDirectory_keeps (path : RemotePath) (upload : DirectoryUpload)
    (before : RemoteDisk) :
    KeepsUnlessCancelled before (uploadDirectory path upload before).1
      (uploadDirectory path upload before).2 := by
  have hallowed := ensureRemoteUploadTargetAllowed_within upload.strategy
    upload.answer path
  have hall : Ensures (Keeps before) (uploadDirectory path upload)
      (KeepsUnlessCancelled before) := by
    refine (hallowed.midway fun _ _ h => .inl h).bind ?_
    rintro (_ | _)
    · exact fun disk hdisk => .inl hdisk
    · exact uploadAllowedDirectory_keeps path upload before
  exact hall before (Std.Refl.refl before)

/-- An upload that is cancelled before it has done anything.  It is allowed
since the test for the target could not be carried out. -/
theorem uploadDirectory_cancelled (path : RemotePath) (upload : DirectoryUpload)
    (files : Files RemotePath) :
    uploadDirectory path upload
        ⟨files, [], [.fault [] 0, .pass, .cancel]⟩ =
      (.error (.cancelled transferCancelledMessage),
        ⟨files.removeAll path upload.stubborn, [], []⟩) := rfl

/-- An upload of a file keeps all other nodes, and so does an upload of a
directory that is not cancelled.  All uploads of a directory do only if the
target did not exist. -/
theorem uploads_keep_nodes_iff (path : RemotePath) (files : Files RemotePath)
    (hrooted : files.Rooted) :
    (∀ signals uploads retries, NodesKept path files
        (uploadFile path uploads retries ⟨files, [], signals⟩).2) ∧
    (∀ upload signals,
      (∀ message, (uploadDirectory path upload ⟨files, [], signals⟩).1 ≠
        .error (.cancelled message)) →
      NodesKept path files
        (uploadDirectory path upload ⟨files, [], signals⟩).2) ∧
    ∀ strategy answer listing, (∀ signals stubborn,
        NodesKept path files
          (uploadDirectory path ⟨strategy, answer, listing, stubborn⟩
            ⟨files, [], signals⟩).2) ↔
      files path = none := by
  refine ⟨?_, ?_, fun strategy answer listing => ⟨fun hall => ?_, ?_⟩⟩
  · intro signals uploads retries other node _ hnode hother
    have hkeeps := uploadFile_within path uploads retries ⟨files, [], signals⟩
    exact hkeeps.kept other node hnode hother
  · intro upload signals hresult other node _ hnode hother
    rcases uploadDirectory_keeps path upload ⟨files, [], signals⟩ with
      hkeeps | ⟨error, herror, hcancelled⟩
    · exact hkeeps.kept other node hnode hother
    · cases error with
      | cancelled message => exact absurd herror (hresult message)
      | channel message | other message => exact absurd hcancelled Bool.false_ne_true
  · by_contra hnode
    obtain ⟨node, hnode⟩ := ne_none_iff_exists'.mp hnode
    have hkept := hall [.fault [] 0, .pass, .cancel] [] path node
      (List.prefix_refl path) hnode
    rw [uploadDirectory_cancelled] at hkept
    have hremoved := files.removeAll_inside (List.prefix_refl path)
    have hthere := hkept List.not_mem_nil
    exact some_ne_none _ (hthere.symm.trans hremoved)
  · intro hnone signals stubborn other node hbelow hnode _
    by_cases hsame : path = other
    · rw [← hsame, hnone] at hnode
      exact absurd hnode.symm (some_ne_none _)
    · have hparent := hrooted.above hbelow hsame (by rw [hnode]; simp)
      rw [hnone] at hparent
      exact absurd hparent.symm (some_ne_none _)

/-- A directory with one file, for a directory that is there. -/
def mergedUpload : DirectoryUpload where
  strategy := "overwrite".toList
  answer := none
  listing := .file ['b'] ⟨['u'], [[9]]⟩ .nil
  stubborn := []

theorem merged_directory_keeps :
    let outcome := uploadDirectory [['d']] mergedUpload ⟨mergedFolder, [], []⟩
    outcome.1 = .ok () ∧ NodesKept [['d']] mergedFolder outcome.2 ∧
      outcome.2.files [['d'], ['a']] = some (.file [1]) ∧
      outcome.2.files [['d'], ['b']] = some (.file [9]) := by
  intro outcome
  have hok : outcome.1 = .ok () := by decide +kernel
  have hkept := (uploads_keep_nodes_iff [['d']] mergedFolder
    mergedFolder_rooted).2.1 mergedUpload []
  refine ⟨hok, hkept fun message herror => ?_, by decide +kernel,
    by decide +kernel⟩
  cases hok.symm.trans herror

/-- The user lets the upload merge into a directory and cancels it at once. -/
theorem cancelled_upload_loses_file :
    (uploadDirectory [['d']] ⟨"overwrite".toList, none, .nil, []⟩
        ⟨mergedFolder, [], [.pass, .pass, .pass, .cancel]⟩).1 =
        .error (.cancelled transferCancelledMessage) ∧
      ¬ NodesKept [['d']] mergedFolder
        (uploadDirectory [['d']] ⟨"overwrite".toList, none, .nil, []⟩
          ⟨mergedFolder, [], [.pass, .pass, .pass, .cancel]⟩).2 := by
  refine ⟨by decide +kernel, fun hkept => ?_⟩
  have hfile := hkept [['d'], ['a']] (.file [1]) (by decide) rfl
  exact absurd hfile (by decide +kernel)

end NiceTerm.Sftp.Scp
