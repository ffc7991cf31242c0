/-
Downloads of a file and of a directory, as far as they change the local disk.
A directory is downloaded by workers that share a queue, in any interleaving.
-/
import NiceTerm.Lib.Transition
import NiceTerm.Lib.Utf8
import NiceTerm.Sftp.Transfers

namespace NiceTerm.Sftp

open RustStr (Str)

abbrev LocalPath := List Str

abbrev LocalDisk := Disk Str Str

/-- A part of a transfer that works on the local disk. -/
abbrev Local := Effects LocalDisk AppError

def hexDigit (digit : Nat) : Char :=
  Char.ofNat (if digit < 10 then 48 + digit else 55 + digit)

def percentEncodeChar (c : Char) : Str :=
  (RustStr.utf8 [c]).flatMap fun byte =>
    ['%', hexDigit (byte.toNat / 16), hexDigit (byte.toNat % 16)]

def shouldPercentEncodeDownloadChar (c : Char) (isLast windows : Bool) : Bool :=
  c == '%' || c == '/' || c == Char.ofNat 0 || RustStr.isControl c ||
    (windows && (c ∈ ['<', '>', ':', '"', '\\', '|', '?', '*'] ||
      (isLast && (c == ' ' || c == '.'))))

def asciiUpper (c : Char) : Char :=
  if 'a' ≤ c ∧ c ≤ 'z' then Char.ofNat (c.toNat - 32) else c

def isWindowsReservedDeviceName (name : Str) : Bool :=
  let upper := (name.takeWhile (· != '.')).map asciiUpper
  upper ∈ ["CON".toList, "PRN".toList, "AUX".toList, "NUL".toList] ||
    match upper with
    | [a, b, c, digit] =>
      ([a, b, c] == "COM".toList || [a, b, c] == "LPT".toList) &&
        RustStr.isAsciiDigit digit && digit != '0'
    | _ => false

def encodeDownloadChars (windows : Bool) : Str → Str
  | [] => []
  | c :: rest =>
    (if shouldPercentEncodeDownloadChar c rest.isEmpty windows then
      percentEncodeChar c
    else [c]) ++ encodeDownloadChars windows rest

def sanitizeDownloadFileNameForPlatform (name : Str) (windows : Bool) : Str :=
  if name.isEmpty then "download".toList
  else
    let result := encodeDownloadChars windows name
    match result with
    | first :: rest =>
      if windows && isWindowsReservedDeviceName result then
        percentEncodeChar first ++ rest
      else result
    | [] => "download".toList

def appendSafeLocalChildPath (windows : Bool) (parent : LocalPath)
    (childName : Str) : LocalPath :=
  parent ++ [sanitizeDownloadFileNameForPlatform childName windows]

/-- The entries of a remote directory as the server lists them.  A link to a
directory is listed as one, and other links are skipped. -/
inductive Listing
  | nil
  | file (name : Str) (size : Nat) (rest : Listing)
  | directory (name : Str) (content rest : Listing)
  | skipped (name : Str) (rest : Listing)
deriving DecidableEq, Repr

structure RemoteDirectoryFile where
  localPath : LocalPath
  size : Nat
deriving DecidableEq, Repr

variable (path : LocalPath)

def createLocalDir : Local Unit :=
  Disk.createDirAll (channelError "Failed to create local dir: ")
    "File exists".toList path

def openDirectory : Local Unit := do
  waitReady
  createLocalDir path
  Disk.call fun error => .other ("SFTP error: ".toList ++ error)

/-- The loop of `collect_remote_directory_inventory_inner` over the entries. -/
def collectEntries (windows : Bool) (path : LocalPath) :
    Listing → Local (List RemoteDirectoryFile)
  | .nil => pure []
  | .file name size rest => do
    waitReady
    let files ← collectEntries windows path rest
    pure (⟨appendSafeLocalChildPath windows path name, size⟩ :: files)
  | .directory name content rest => do
    waitReady
    let child := appendSafeLocalChildPath windows path name
    openDirectory child
    let childFiles ← collectEntries windows child content
    let files ← collectEntries windows path rest
    pure (childFiles ++ files)
  | .skipped _ rest => do
    waitReady
    collectEntries windows path rest

def collectRemoteDirectoryInventory (windows : Bool) (path : LocalPath)
    (listing : Listing) : Local (List RemoteDirectoryFile) := do
  Disk.call fun error => .channel error
  openDirectory path
  collectEntries windows path listing

/-- What a worker does with a file before its content arrives. -/
inductive Part
  | wait
  | parent
  | create
  | setLen
deriving DecidableEq, Repr

def writeContent (content : Bytes) : Local Unit :=
  Disk.writeFile path content

def setFileLen (size : Nat) : Local Unit := do
  match ← Disk.signal with
  | .fault _ _ => pure ()
  | _ => writeContent path (List.replicate size 0)

def createLocalFile : Local Unit :=
  Disk.createFile (channelError "Failed to create local file: ")
    "Is a directory".toList path

def Part.run (file : RemoteDirectoryFile) : Part → Local Unit
  | .wait => waitReady
  | .parent => createLocalDir file.localPath.dropLast
  | .create => createLocalFile file.localPath
  | .setLen =>
    if 0 < file.size then setFileLen file.localPath file.size else pure ()

/-- A file that a worker has taken from the queue, and the parts to come. -/
structure Active where
  file : RemoteDirectoryFile
  parts : List Part := [.wait, .parent, .create, .setLen]
deriving DecidableEq, Repr

structure Workers where
  disk : LocalDisk
  idle : Nat
  queue : List RemoteDirectoryFile
  active : List Active
  firstErr : Option AppError

/-- `written` is new content of an open file: how it comes about is the
business of the pipelined download. -/
inductive WorkerEvent
  | take (control : TransferControlState)
  | go (index : Nat) (signals : List (Signal Str))
  | written (index : Nat) (content : Bytes)
  | finished (index : Nat)
  | failed (index : Nat) (error : AppError)
  | cancelled
  | stalled
  | abortIdle
  | abort (index : Nat)

namespace Workers

/-- The first error stops all workers, as soon as they can be stopped. -/
def stop (workers : Workers) (error : AppError) : Workers :=
  { workers with firstErr := some (workers.firstErr.getD error) }

variable (workers : Workers)

/-- A worker ends with an error. -/
def drop (index : Nat) (error : AppError) : Workers :=
  { workers with active := workers.active.eraseIdx index }.stop error

def take (control : TransferControlState) : Workers :=
  let rest := { workers with idle := workers.idle - 1 }
  match waitForTransferReady control with
  | .error error => rest.stop error
  | .ok _ =>
    match workers.queue with
    | [] => rest
    | file :: queue =>
      { rest with
        queue := queue
        active := workers.active ++ [{ file := file }] }

def go (index : Nat) (active : Active) (part : Part)
    (parts : List Part) (signals : List (Signal Str)) : Workers :=
  let (result, disk) :=
    part.run active.file { workers.disk with signals := signals }
  match result with
  | .error error => { workers with disk := disk }.drop index error
  | .ok _ =>
    { workers with
      disk := disk
      active := workers.active.set index { active with parts := parts } }

def step (workers : Workers) : WorkerEvent → Option Workers
  | .take control =>
    if 0 < workers.idle then some (workers.take control) else none
  | .go index signals =>
    match workers.active[index]? with
    | some ⟨file, part :: parts⟩ =>
      some (workers.go index ⟨file, part :: parts⟩ part parts signals)
    | _ => none
  | .written index content =>
    match workers.active[index]? with
    | some ⟨file, []⟩ =>
      some { workers with
        disk := (writeContent file.localPath content workers.disk).2 }
    | _ => none
  | .finished index =>
    match workers.active[index]? with
    | some ⟨_, []⟩ =>
      some { workers with
        active := workers.active.eraseIdx index
        idle := workers.idle + 1 }
    | _ => none
  | .failed index error =>
    match workers.active[index]? with
    | some ⟨_, []⟩ => some (workers.drop index error)
    | _ => none
  | .cancelled =>
    if workers.firstErr.isNone then
      some (workers.stop (.cancelled transferCancelledMessage))
    else none
  | .stalled =>
    if workers.firstErr.isNone then
      some (workers.stop (.channel "SFTP transfer stalled".toList))
    else none
  | .abortIdle =>
    if workers.firstErr.isSome ∧ 0 < workers.idle then
      some { workers with idle := workers.idle - 1 }
    else none
  | .abort index =>
    if workers.firstErr.isSome ∧ index < workers.active.length then
      some { workers with active := workers.active.eraseIdx index }
    else none

def start (disk : LocalDisk) (workerCount : Nat)
    (inventory : List RemoteDirectoryFile) : Workers :=
  ⟨disk, workerCount, inventory, [], none⟩

def ended : Bool :=
  workers.idle == 0 && workers.active.isEmpty

def result : Except AppError Unit :=
  match workers.firstErr with
  | some error => .error error
  | none => .ok ()

/-- `run_download_directory_workers`. -/
def system (disk : LocalDisk) (workerCount : Nat)
    (inventory : List RemoteDirectoryFile) :
    Transition.System Workers WorkerEvent where
  init := fun workers => workers = start disk workerCount inventory
  step := step

end Workers

/-- A file is removed, and a directory with all it contains, but for entries
that cannot be removed. -/
def cleanupCancelledDownload (stubborn : List LocalPath)
    (files : Files LocalPath) : Files LocalPath :=
  let removed := if path ∈ stubborn then none else files.removeFile path
  match removed with
  | some files => files
  | none =>
    if files path = some .directory then files.removeAll path stubborn
    else files

/-- Where a transfer ends, it cleans up if it has been cancelled. -/
def endDownload (stubborn : List LocalPath)
    (outcome : Except AppError Unit × LocalDisk) :
    Except AppError Unit × LocalDisk :=
  match outcome with
  | (.error (.cancelled message), disk) =>
    (.error (.cancelled message), { disk with
        files := cleanupCancelledDownload path stubborn disk.files })
  | _ => outcome

/-- What happens during the download of a directory. -/
structure DirectoryRun where
  windows : Bool
  listing : Listing
  signals : List (Signal Str)
  workerCount : Nat
  poolError : Option AppError
  events : List WorkerEvent
  stubborn : List LocalPath

/-- `download_remote_directory_files`; `none` if the events are not a whole run
of the workers. -/
def downloadRemoteDirectoryFiles (run : DirectoryRun)
    (inventory : List RemoteDirectoryFile) (disk : LocalDisk) :
    Option (Except AppError Unit × LocalDisk) :=
  if inventory.isEmpty then some (.ok (), disk)
  else
    match run.poolError with
    | some error => some (.error error, disk)
    | none =>
      (((Workers.system disk run.workerCount inventory).runFrom
        (Workers.start disk run.workerCount inventory) run.events).filter
          Workers.ended).map fun workers => (workers.result, workers.disk)

def downloadDirectory (files : Files LocalPath)
    (run : DirectoryRun) : Option (Except AppError Unit × LocalDisk) :=
  let (inventory, disk) :=
    collectRemoteDirectoryInventory run.windows path run.listing
      ⟨files, [], run.signals⟩
  let outcome : Option (Except AppError Unit × LocalDisk) :=
    match inventory with
    | .error error => some (.error error, disk)
    | .ok inventory => downloadRemoteDirectoryFiles run inventory disk
  outcome.map (endDownload path run.stubborn)

/-- The content of a single file as it arrives, and how that ends. -/
structure Body where
  size : Option Nat
  contents : List Bytes
  error : Option AppError
deriving DecidableEq, Repr

def Body.run (body : Body) (path : LocalPath) : Local Unit :=
  body.contents.foldr (fun content rest => do
      writeContent path content
      rest)
    (match body.error with
    | some error => .fail error
    | none => pure ())

/-- The parent is created if there is nothing in its place. -/
def createParent : Local Unit := fun disk =>
  if (disk.files path.dropLast).isSome then (.ok (), disk)
  else createLocalDir path.dropLast disk

/-- What is done with the file once it has been created. -/
def receiveContent (body : Body) : Local Unit := do
  match body.size with
  | some (size + 1) => setFileLen path (size + 1)
  | _ => pure ()
  body.run path
  Disk.call (channelError "Flush failed: ")

/-- `download_remote_file_inner_with_controller` up to its result. -/
def downloadRemoteFile (body : Body) : Local Unit := do
  createParent path
  Disk.call .channel
  createLocalFile path
  receiveContent path body

/-- The attempts of `download_file`, each with what it receives. -/
def downloadFile (path : LocalPath) (stubborn : List LocalPath)
    (bodies : Nat → Body) : Nat → LocalDisk → Except AppError Unit × LocalDisk
  | 0, disk =>
    endDownload path stubborn (downloadRemoteFile path (bodies 0) disk)
  | retries + 1, disk =>
    match endDownload path stubborn
      (downloadRemoteFile path (bodies (retries + 1)) disk) with
    | (.error (.channel _), disk) | (.error (.other _), disk) =>
      downloadFile path stubborn bodies retries disk
    | outcome => outcome

end NiceTerm.Sftp
