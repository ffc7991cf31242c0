/-
What a download leaves of the files that were there before.  The files of a
single download are its own, but the clean-up of a cancelled directory removes
all that the directory contains.
-/
import NiceTerm.Sftp.Downloads

namespace NiceTerm.Sftp

open Disk Effects Files Option Workers

variable {path : LocalPath} {files : Files LocalPath}

/-- The files at and under a path that the transfer has not written are as they
were. -/
def FilesKept (path : LocalPath) (files : Files LocalPath)
    (after : LocalDisk) : Prop :=
  ∀ other content, path <+: other → files other = some (.file content) →
    other ∉ after.written → after.files other = some (.file content)

theorem waitReady_adds : Within Adds waitReady := wait_adds _

theorem createLocalDir_adds (path : LocalPath) :
    Within Adds (createLocalDir path) := createDirAll_adds _ _ path

theorem openDirectory_adds (path : LocalPath) :
    Within Adds (openDirectory path) := by
  apply waitReady_adds.bind
  intro _
  apply (createLocalDir_adds path).bind
  exact fun _ => call_adds _

theorem collectEntries_adds (windows : Bool) (path : LocalPath)
    (listing : Listing) : Within Adds (collectEntries windows path listing) := by
  induction listing generalizing path with
  | nil => exact Within.pure _
  | file name size rest ih =>
    apply waitReady_adds.bind
    intro _
    exact (ih path).bind fun _ => Within.pure _
  | directory name content rest ihContent ihRest =>
    apply waitReady_adds.bind
    intro _
    apply (openDirectory_adds _).bind
    intro _
    apply (ihContent _).bind
    intro _
    exact (ihRest path).bind fun _ => Within.pure _
  | skipped name rest ih => exact waitReady_adds.bind fun _ => ih path

theorem collectRemoteDirectoryInventory_adds (windows : Bool)
    (path : LocalPath) (listing : Listing) :
    Within Adds (collectRemoteDirectoryInventory windows path listing) := by
  apply (call_adds _).bind
  intro _
  apply (openDirectory_adds path).bind
  exact fun _ => collectEntries_adds windows path listing

theorem writeContent_within (path : LocalPath) (content : Bytes) :
    Within Keeps (writeContent path content) := writeFile_within path content

theorem setFileLen_within (path : LocalPath) (size : Nat) :
    Within Keeps (setFileLen path size) := by
  apply (signal_adds.mono fun _ _ h => h.keeps).bind
  rintro (_ | _ | _)
  · exact writeContent_within path _
  · exact Within.pure _
  · exact writeContent_within path _

theorem Part.run_within (file : RemoteDirectoryFile) (part : Part) :
    Within Keeps (part.run file) := by
  cases part with
  | wait => exact waitReady_adds.mono fun _ _ h => h.keeps
  | parent => exact (createLocalDir_adds _).mono fun _ _ h => h.keeps
  | create => exact createFile_within _ _ _
  | setLen =>
    rw [Part.run]
    split
    · exact setFileLen_within _ _
    · exact Within.pure _

theorem Workers.step_keeps {workers next : Workers} {event : WorkerEvent}
    (h : workers.step event = some next) : Keeps workers.disk next.disk := by
  have hsame {disk : LocalDisk} : Keeps disk disk := Std.Refl.refl disk
  cases event with
  | take control =>
    rw [step] at h
    split at h
    · rw [← some.inj h, Workers.take]
      split
      · exact hsame
      · split <;> exact hsame
    · exact absurd h.symm (some_ne_none _)
  | go index signals =>
    rw [step] at h
    split at h
    · rename_i file part parts hactive
      rw [← some.inj h, Workers.go]
      have hpart := Part.run_within file part
        { workers.disk with signals := signals }
      simp only
      split
      · exact ⟨hpart.written, hpart.kept⟩
      · exact ⟨hpart.written, hpart.kept⟩
    · exact absurd h.symm (some_ne_none _)
  | written index content =>
    rw [step] at h
    split at h
    · rw [← some.inj h]
      exact writeContent_within _ content workers.disk
    · exact absurd h.symm (some_ne_none _)
  | finished index | failed index error =>
    rw [step] at h
    split at h
    · rw [← some.inj h]
      exact hsame
    · exact absurd h.symm (some_ne_none _)
  | cancelled | stalled | abortIdle | abort index =>
    rw [step] at h
    split at h
    · rw [← some.inj h]
      exact hsame
    · exact absurd h.symm (some_ne_none _)

variable {disk after : LocalDisk}

theorem Workers.run_keeps {workerCount : Nat}
    {inventory : List RemoteDirectoryFile} {workers next : Workers}
    {events : List WorkerEvent}
    (h : (system disk workerCount inventory).runFrom workers events =
      some next) : Keeps workers.disk next.disk := by
  have hstep (s : Workers) (e : WorkerEvent) (t : Workers)
      (hs : Keeps workers.disk s.disk) (hst : s.step e = some t) :
      Keeps workers.disk t.disk :=
    IsTrans.trans _ _ _ hs (step_keeps hst)
  have hfirst : Keeps workers.disk workers.disk := Std.Refl.refl _
  exact (system disk workerCount inventory).run_invariant hstep hfirst h

variable {outcome : Except AppError Unit × LocalDisk}
    {stubborn : List LocalPath}

theorem endDownload_of_not_cancelled
    (h : ∀ message, outcome.1 ≠ .error (.cancelled message)) :
    endDownload path stubborn outcome = outcome := by
  rcases outcome with ⟨result | result, disk⟩
  · cases result with
    | cancelled message => exact absurd rfl (h message)
    | channel message | other message => rfl
  · rfl

theorem endDownload_fst (path : LocalPath) (stubborn : List LocalPath)
    (outcome : Except AppError Unit × LocalDisk) :
    (endDownload path stubborn outcome).1 = outcome.1 := by
  rcases outcome with ⟨result | result, disk⟩
  · cases result <;> rfl
  · rfl

theorem downloadRemoteDirectoryFiles_keeps {run : DirectoryRun}
    {inventory : List RemoteDirectoryFile}
    (h : downloadRemoteDirectoryFiles run inventory disk = some outcome) :
    Keeps disk outcome.2 := by
  rw [downloadRemoteDirectoryFiles] at h
  split at h
  · rw [← some.inj h]
    exact Std.Refl.refl disk
  · split at h
    · rw [← some.inj h]
      exact Std.Refl.refl disk
    · rw [map_eq_some_iff] at h
      obtain ⟨workers, hrun, rfl⟩ := h
      rw [filter_eq_some_iff] at hrun
      exact run_keeps hrun.1

/-- Without a clean-up, a directory download keeps what it does not write. -/
theorem uncancelled_directory_keeps {run : DirectoryRun}
    {result : Except AppError Unit}
    (h : downloadDirectory path files run = some (result, after))
    (hresult : ∀ message, result ≠ .error (.cancelled message)) :
    FilesKept path files after := by
  have hinventory := (collectRemoteDirectoryInventory_adds run.windows path
    run.listing ⟨files, [], run.signals⟩).keeps
  rw [downloadDirectory] at h
  simp only [map_eq_some_iff] at h
  obtain ⟨outcome, houtcome, hend⟩ := h
  have hfirst : outcome.1 = result := by
    rw [← endDownload_fst path run.stubborn outcome, hend]
  rw [endDownload_of_not_cancelled
    (fun message => hfirst ▸ hresult message)] at hend
  have hkeeps : Keeps ⟨files, [], run.signals⟩ outcome.2 := by
    split at houtcome
    · rw [← some.inj houtcome]
      exact hinventory
    · exact IsTrans.trans _ _ _ hinventory
        (downloadRemoteDirectoryFiles_keeps houtcome)
  rw [hend] at hkeeps
  exact fun other content _ hcontent hother =>
    hkeeps.kept other _ hcontent hother

/-- The file is the transfer's own. -/
def Made (path : LocalPath) (disk : LocalDisk) : Prop :=
  path ∈ disk.written ∧ disk.files.isFile path = true

/-- The file is the transfer's own, if it is anything to do with it. -/
def Ready (path : LocalPath) (disk : LocalDisk) : Prop :=
  Made path disk ∨ path ∉ disk.written

/-- A transfer is cancelled only when the file is its own. -/
def Settled (path : LocalPath) (result : Except AppError Unit)
    (disk : LocalDisk) : Prop :=
  Ready path disk ∧
    ∀ message, result = .error (.cancelled message) → Made path disk

theorem Made.settled (h : Made path disk)
    (result : Except AppError Unit) : Settled path result disk :=
  ⟨.inl h, fun _ _ => h⟩

theorem Made.of_adds {before : LocalDisk} (h : Made path before)
    (hadds : Adds before after) : Made path after := by
  obtain ⟨content, hcontent⟩ := isFile_iff.mp h.2
  refine ⟨hadds.written ▸ h.1, isFile_iff.mpr ⟨content, ?_⟩⟩
  exact hadds.kept path _ hcontent

theorem Ready.of_adds {before : LocalDisk} (h : Ready path before)
    (hadds : Adds before after) : Ready path after := by
  rcases h with hmade | hnot
  · exact .inl (hmade.of_adds hadds)
  · exact .inr (hadds.written ▸ hnot)

theorem writeContent_made (content : Bytes)
    (h : Made path disk) : Made path (writeContent path content disk).2 :=
  ⟨List.mem_cons_self, writeFile_isFile content h.2⟩

theorem setFileLen_made (size : Nat)
    (h : Made path disk) : Made path (setFileLen path size disk).2 := by
  have hsame : Made path { disk with signals := disk.signals.tail } := h
  simp only [setFileLen, Effects.bind_apply, signal]
  cases disk.signals.headD .pass with
  | fault error reached => exact h
  | pass | cancel => exact writeContent_made _ hsame

theorem Body.run_made (body : Body) :
    Ensures (Made path) (body.run path) fun _ => Made path := by
  rw [Body.run]
  induction body.contents with
  | nil =>
    intro disk hdisk
    cases body.error <;> exact hdisk
  | cons content rest ih =>
    intro disk hdisk
    exact ih _ (writeContent_made content hdisk)

theorem adds_made {α : Type} {x : Local α} (hx : Within Adds x) :
    Ensures (Made path) x fun _ => Made path :=
  fun disk hdisk => hdisk.of_adds (hx disk)

/-- A call whose errors are none of the controller's. -/
theorem wrapped_settled (path : LocalPath) {x : Local Unit} {wrap : Str → AppError}
    (hx : Within Adds x) (hwrap : ∀ disk, Wrapped wrap (x disk).1)
    (hnever : ∀ text message, wrap text ≠ .cancelled message) :
    Ensures (Ready path) x (Midway (fun _ => Ready path) (Settled path)) := by
  intro disk hdisk
  have hafter := hdisk.of_adds (hx disk)
  cases hresult : (x disk).1 with
  | ok _ => exact hafter
  | error error =>
    refine ⟨hafter, fun message hcancelled => ?_⟩
    obtain ⟨text, htext⟩ := hwrap disk error hresult
    have hsame := Except.error.inj hcancelled
    exact absurd (htext.symm.trans hsame) (hnever text message)

theorem createParent_adds (path : LocalPath) :
    Within Adds (createParent path) := by
  intro disk
  rw [createParent]
  split
  · exact Std.Refl.refl disk
  · exact createLocalDir_adds _ disk

theorem createParent_wrapped (path : LocalPath) (disk : LocalDisk) :
    Wrapped (channelError "Failed to create local dir: ")
      (createParent path disk).1 := by
  rw [createParent]
  split
  · exact wrapped_ok _
  · exact createDirAll_wrapped _ _ _ disk

theorem createLocalFile_settled :
    Ensures (Ready path) (createLocalFile path)
      (Midway (fun _ => Made path) (Settled path)) := by
  intro disk hdisk
  rcases createFile_spec (channelError "Failed to create local file: ")
    "Is a directory".toList path disk with
    ⟨hok, hmem, hfile⟩ | ⟨⟨text, herror⟩, hwritten, hfiles⟩
  · rw [createLocalFile, hok]
    exact ⟨hmem, hfile⟩
  · rw [createLocalFile, herror]
    refine ⟨?_, fun message hcancelled => ?_⟩
    · rw [Ready, Made, hwritten, hfiles]
      exact hdisk
    · exact absurd (Except.error.inj hcancelled) (by simp [channelError])

theorem receiveContent_made (body : Body) :
    Ensures (Made path) (receiveContent path body) fun _ => Made path := by
  have hrest : Ensures (Made path)
      (do body.run path; Disk.call (channelError "Flush failed: "))
      fun _ => Made path := by
    refine Ensures.bind (M := fun _ => Made path) ?_
      fun _ => adds_made (call_adds _)
    intro disk hdisk
    have hrun := Body.run_made body disk hdisk
    rw [Midway.eq_def]
    split <;> exact hrun
  rw [receiveContent]
  split
  · rename_i size hsize
    refine Ensures.bind (M := fun _ => Made path) ?_ fun _ => hrest
    intro disk hdisk
    have hset := setFileLen_made (size + 1) hdisk
    rw [Midway.eq_def]
    split <;> exact hset
  · exact hrest

theorem downloadRemoteFile_settled (body : Body) :
    Ensures (Ready path) (downloadRemoteFile path body) (Settled path) := by
  have hparent := wrapped_settled path (createParent_adds path)
    (createParent_wrapped path) (by simp [channelError])
  have hopen := wrapped_settled path (call_adds _)
    (call_wrapped AppError.channel) (by simp)
  have hcreated : Ensures (Ready path)
      (do createLocalFile path; receiveContent path body) (Settled path) := by
    refine createLocalFile_settled.bind fun _ disk hdisk => ?_
    exact (receiveContent_made body disk hdisk).settled _
  exact hparent.bind fun _ => hopen.bind fun _ => hcreated

theorem Body.run_within (path : LocalPath) (body : Body) :
    Within Keeps (body.run path) := by
  rw [Body.run]
  induction body.contents with
  | nil =>
    cases body.error with
    | some error => exact Within.fail _
    | none => exact Within.pure _
  | cons content rest ih =>
    exact (writeContent_within path content).bind fun _ => ih

theorem receiveContent_within (path : LocalPath) (body : Body) :
    Within Keeps (receiveContent path body) := by
  have hrest : Within Keeps
      (do body.run path; Disk.call (channelError "Flush failed: ")) :=
    (body.run_within path).bind fun _ =>
      (call_adds _).mono fun _ _ h => h.keeps
  rw [receiveContent]
  split
  · exact (setFileLen_within path _).bind fun _ => hrest
  · exact hrest

theorem downloadRemoteFile_within (path : LocalPath) (body : Body) :
    Within Keeps (downloadRemoteFile path body) := by
  apply ((createParent_adds path).mono fun _ _ h => h.keeps).bind
  intro _
  apply ((call_adds _).mono fun _ _ h => h.keeps).bind
  intro _
  apply (createFile_within _ _ path).bind
  exact fun _ => receiveContent_within path body

theorem cleanup_of_isFile (hfile : files.isFile path = true)
    {other : LocalPath} (hne : other ≠ path) :
    cleanupCancelledDownload path stubborn files other = files other := by
  obtain ⟨content, hcontent⟩ := isFile_iff.mp hfile
  have hdirectory : files path ≠ some .directory := by
    rw [hcontent]
    simp
  rw [cleanupCancelledDownload]
  by_cases hstubborn : path ∈ stubborn
  · rw [if_pos hstubborn]
    simp only [if_neg hdirectory]
  · rw [if_neg hstubborn, removeFile_of_file hcontent]
    exact put_ne _ _ hne

/-- The clean-up of a single file removes a file of the transfer's own. -/
theorem endDownload_keeps
    (stubborn : List LocalPath) (h : Settled path outcome.1 outcome.2) :
    Keeps outcome.2 (endDownload path stubborn outcome).2 := by
  by_cases hcancelled : ∃ message, outcome.1 = .error (.cancelled message)
  · obtain ⟨message, hresult⟩ := hcancelled
    obtain ⟨hmem, hfile⟩ := h.2 message hresult
    rcases outcome with ⟨result, disk⟩
    obtain rfl : result = .error (.cancelled message) := hresult
    refine ⟨List.Subset.refl _, fun other node hnode hother => ?_⟩
    have hne : other ≠ path := by
      rintro rfl
      exact hother hmem
    exact (cleanup_of_isFile hfile hne).trans hnode
  · rw [endDownload_of_not_cancelled (not_exists.mp hcancelled)]
    exact Std.Refl.refl outcome.2

theorem retried_ready {error : AppError} (h : Ready path outcome.2)
    (hended : endDownload path stubborn outcome = (.error error, after))
    (hretried : ∀ message, error ≠ .cancelled message) : Ready path after := by
  have hresult := endDownload_fst path stubborn outcome
  rw [hended] at hresult
  rw [endDownload_of_not_cancelled] at hended
  · rw [hended] at h
    exact h
  · intro message hcancelled
    exact hretried message (Except.error.inj (hresult.trans hcancelled))

theorem downloadFile_keeps (stubborn : List LocalPath) (bodies : Nat → Body)
    (retries : Nat) (h : Ready path disk) :
    Keeps disk (downloadFile path stubborn bodies retries disk).2 := by
  have hattempt (disk : LocalDisk) (body : Body) (h : Ready path disk) :
      Keeps disk
        (endDownload path stubborn (downloadRemoteFile path body disk)).2 :=
    IsTrans.trans _ _ _ (downloadRemoteFile_within path body disk)
      (endDownload_keeps stubborn (downloadRemoteFile_settled body disk h))
  induction retries generalizing disk with
  | zero => exact hattempt disk (bodies 0) h
  | succ retries ih =>
    have hfirst := hattempt disk (bodies (retries + 1)) h
    have hready := (downloadRemoteFile_settled (bodies (retries + 1)) disk h).1
    rw [downloadFile]
    split
    · rename_i message after hended
      rw [hended] at hfirst
      exact IsTrans.trans _ _ _ hfirst
        (ih (retried_ready hready hended (by simp)))
    · rename_i message after hended
      rw [hended] at hfirst
      exact IsTrans.trans _ _ _ hfirst
        (ih (retried_ready hready hended (by simp)))
    · exact hfirst

/-- A download that is cancelled before it has done anything. -/
def cancelledAtOnce (windows : Bool) (listing : Listing) : DirectoryRun where
  windows := windows
  listing := listing
  signals := [.pass, .cancel]
  workerCount := 0
  poolError := none
  events := []
  stubborn := []

theorem cancelledAtOnce_ends (windows : Bool) (listing : Listing) :
    downloadDirectory path files (cancelledAtOnce windows listing) =
      some (.error (.cancelled transferCancelledMessage),
        ⟨cleanupCancelledDownload path [] files, [], []⟩) := rfl

theorem cleanup_removes (hrooted : files.Rooted) {other : LocalPath}
    {content : Bytes} (hbelow : path <+: other)
    (hcontent : files other = some (.file content)) :
    cleanupCancelledDownload path [] files other = none := by
  rw [cleanupCancelledDownload, if_neg List.not_mem_nil]
  by_cases hsame : other = path
  · subst hsame
    rw [removeFile_of_file hcontent]
    exact put_same _ _ _
  · have hdirectory : files path = some .directory :=
      hrooted.above hbelow (Ne.symm hsame) (by rw [hcontent]; simp)
    have hrefused : files.removeFile path = none := by
      rw [removeFile, hdirectory]
    rw [hrefused]
    simp only [if_pos hdirectory]
    exact removeAll_inside files hbelow

/-- A download of a single file keeps all other files, and so does a download
of a directory that is not cancelled.  All downloads of a directory do only if
there was no file to keep. -/
theorem downloads_keep_files_iff (path : LocalPath) (files : Files LocalPath)
    (hrooted : files.Rooted) :
    (∀ signals stubborn bodies retries, FilesKept path files
        (downloadFile path stubborn bodies retries ⟨files, [], signals⟩).2) ∧
    (∀ run result after, downloadDirectory path files run = some
      (result, after) → (∀ message, result ≠ .error (.cancelled message)) →
      FilesKept path files after) ∧
    ∀ windows listing,
      (∀ run result after, run.windows = windows → run.listing = listing →
        downloadDirectory path files run = some (result, after) →
        FilesKept path files after) ↔
      ∀ other, path <+: other → files.isFile other = false := by
  refine ⟨?_, fun run result after => uncancelled_directory_keeps, ?_⟩
  · intro signals stubborn bodies retries other content _ hcontent hother
    have hready : Ready path ⟨files, [], signals⟩ := .inr List.not_mem_nil
    have hkeeps := downloadFile_keeps stubborn bodies retries hready
    exact hkeeps.kept other _ hcontent hother
  · intro windows listing
    constructor
    · intro hall other hbelow
      by_contra hfile
      rw [Bool.not_eq_false] at hfile
      obtain ⟨content, hcontent⟩ := isFile_iff.mp hfile
      have hkept := hall _ _ _ rfl rfl (cancelledAtOnce_ends windows listing)
        other content hbelow hcontent List.not_mem_nil
      have hremoved := cleanup_removes hrooted hbelow hcontent
      exact some_ne_none _ (hkept.symm.trans hremoved)
    · intro hnone run result after _ _ _ other content hbelow hcontent _
      have hfile := isFile_iff.mpr ⟨content, hcontent⟩
      exact absurd hfile (by rw [hnone other hbelow]; simp)

/-- A folder with one file is downloaded into the folder that is there. -/
def mergedRun : DirectoryRun where
  windows := false
  listing := .file ['b'] 1 .nil
  signals := []
  workerCount := 1
  poolError := none
  events := [.take .running, .go 0 [], .go 0 [], .go 0 [], .go 0 [],
    .written 0 [9], .finished 0, .take .running]
  stubborn := []

theorem merged_folder_keeps : ∃ after,
    downloadDirectory [['d']] mergedFolder mergedRun = some (.ok (), after) ∧
      FilesKept [['d']] mergedFolder after ∧
      after.files [['d'], ['a']] = some (.file [1]) ∧
      after.files [['d'], ['b']] = some (.file [9]) := by
  have h := downloads_keep_files_iff [['d']] mergedFolder mergedFolder_rooted
  have hends : downloadDirectory [['d']] mergedFolder mergedRun =
      some (.ok (), _) := rfl
  exact ⟨_, hends, h.2.1 _ _ _ hends fun _ => by simp, rfl, rfl⟩

/-- Cancelled at once, a download into a folder removes the folder. -/
theorem cancelled_merge_loses_file : ∃ after,
    downloadDirectory [['d']] mergedFolder (cancelledAtOnce false .nil) =
        some (.error (.cancelled transferCancelledMessage), after) ∧
      ¬ FilesKept [['d']] mergedFolder after := by
  refine ⟨_, cancelledAtOnce_ends false .nil, fun hkept => ?_⟩
  have hfile := hkept [['d'], ['a']] [1] (by decide) rfl List.not_mem_nil
  exact absurd hfile (by decide)

end NiceTerm.Sftp
