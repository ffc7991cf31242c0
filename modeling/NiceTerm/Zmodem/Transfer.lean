/-
An active transfer: what it does with the user's decisions and the remote's
bytes.  The protocol machines and the file system are only seen through their
answers, which every operation is given.
-/
import NiceTerm.Lib.Emitting
import NiceTerm.Lib.RustStr
import NiceTerm.Lib.Utf8
import NiceTerm.Zmodem.Detector

namespace NiceTerm.Zmodem

open RustStr (Str)

def cancelSeqLen : Nat := 5
def zmodemProgressInterval : Nat := 100
def zmodemProgressBytes : Nat := 256 * 1024

/-- The components of a path. -/
abbrev Path := List Str

inductive ZmodemUploadConflictMode where
  | overwrite
  | skip
deriving Repr, DecidableEq

inductive ZmodemEvent where
  | progress (fileName : Str) (bytesTransferred totalSize : Nat)
      (localPath : Option Path) (direction : ZmodemDirection)
  | complete (direction : ZmodemDirection) (fileCount : Nat)
  | failed (reason : Str)
deriving Repr, DecidableEq

inductive ZmodemAction where
  | sendToRemote (bytes : Bytes)
  | emitEvent (event : ZmodemEvent)
deriving Repr, DecidableEq

def failed (reason : Str) : ZmodemAction := .emitEvent (.failed reason)

/-- The actions that tell the frontend of the end of the transfer. -/
def ZmodemAction.terminal : ZmodemAction → Bool
  | .emitEvent (.complete _ _) => true
  | .emitEvent (.failed _) => true
  | _ => false

def cancelSequence : Bytes :=
  List.replicate cancelSeqLen zdle ++ List.replicate cancelSeqLen 0x08

def sanitizeFilename (name : Str) : Str :=
  let base := (name.reverse.takeWhile fun c => c ≠ '/' && c ≠ '\\').reverse
  let sanitized := base.map fun c =>
    if c ∈ ['<', '>', ':', '"', '|', '?', '*'] || RustStr.isControl c then '_' else c
  if sanitized.isEmpty then "zmodem_file".toList else sanitized

structure ProgressThrottle where
  lastEmitAt : Option Nat := none
  lastEmitBytes : Nat := 0
deriving Repr, DecidableEq

def ProgressThrottle.shouldEmitAt (throttle : ProgressThrottle)
    (bytesTransferred : Nat) (force : Bool) (now : Nat) :
    Bool × ProgressThrottle :=
  if force || throttle.lastEmitAt.isNone ||
      zmodemProgressBytes ≤ bytesTransferred - throttle.lastEmitBytes ||
      throttle.lastEmitAt.any fun last =>
        zmodemProgressInterval ≤ now - last then
    (true, ⟨some now, bytesTransferred⟩)
  else (false, throttle)

structure ReceiveFile where
  name : Str
  path : Path
  size : Nat
  written : Nat
deriving Repr, DecidableEq

structure SendFile where
  name : Str
  size : Nat
  sent : Nat
  position : Nat
deriving Repr, DecidableEq

structure Receiving where
  saveDir : Path
  currentFile : Option ReceiveFile := none
deriving Repr, DecidableEq

structure Sending where
  files : List Path
  conflictMode : ZmodemUploadConflictMode
  fileIndex : Nat := 0
  currentFile : Option SendFile := none
deriving Repr, DecidableEq

inductive TransferState where
  | waitingForUser (buffered : Bytes)
  | receiving (receiving : Receiving)
  | sending (sending : Sending)
  | done
deriving Repr, DecidableEq

structure ZmodemTransfer where
  direction : ZmodemDirection
  state : TransferState
  cancelCount : Nat := 0
  fileCount : Nat := 0
  progressThrottle : ProgressThrottle := {}
deriving Repr, DecidableEq

def ZmodemTransfer.isDone (transfer : ZmodemTransfer) : Bool :=
  transfer.state == .done

def ZmodemTransfer.new (direction : ZmodemDirection) (initialBytes : Bytes) :
    ZmodemTransfer :=
  { direction, state := .waitingForUser initialBytes }

/-- The parts of a transfer that its loops change. -/
structure Active (ρ : Type) where
  session : ρ
  fileCount : Nat
  progressThrottle : ProgressThrottle

abbrev Step (ρ : Type) := Emitting ZmodemAction (Active ρ)

open Emitting (live ended)

section Loops

variable {ρ : Type}

/-- A progress event, if it is time for one. -/
def emitProgress (active : Active ρ) (bytesTransferred : Nat) (force : Bool)
    (now : Nat) (event : ZmodemEvent) : Step ρ :=
  let (due, progressThrottle) :=
    active.progressThrottle.shouldEmitAt bytesTransferred force now
  live { active with progressThrottle } (if due then [.emitEvent event] else [])

/-- Protocol bytes for the remote, if there are any. -/
def drained (outgoing : Bytes) : List ZmodemAction :=
  if outgoing.isEmpty then [] else [.sendToRemote outgoing]

end Loops

inductive Zmodem2Error where
  | unexpectedCrc16
  | unexpectedCrc32
  | other (message : Str)
deriving Repr, DecidableEq

def Zmodem2Error.message : Zmodem2Error → Str
  | .unexpectedCrc16 => "unexpected CRC-16".toList
  | .unexpectedCrc32 => "unexpected CRC-32".toList
  | .other message => message

def Zmodem2Error.isCrc : Zmodem2Error → Bool
  | .unexpectedCrc16 | .unexpectedCrc32 => true
  | .other _ => false

/-- An event of the receiver, with the answer to the creation of its file. -/
inductive ReceiverPoll where
  | fileStart (fileName : Bytes) (fileSize : Nat) (created : Except Str Unit)
      (now : Nat)
  | fileComplete (now : Nat)
  | sessionComplete

/-- What the receiver and the file system answer in one round of the loop. -/
structure ReceiverRound where
  fed : Except Zmodem2Error Nat
  outgoing : Bytes := []
  events : List ReceiverPoll := []
  fileData : Bytes := []
  written : Except Str Unit := .ok ()
  now : Nat := 0

def downloadProgress (file : ReceiveFile) : ZmodemEvent :=
  .progress file.name file.written file.size (some file.path) .download

def receiverEvent (active : Active Receiving) :
    ReceiverPoll → Step Receiving
  | .fileStart fileName fileSize created now =>
    let name := sanitizeFilename (Utf8.decodeLossy fileName)
    let path := active.session.saveDir ++ [name]
    match created with
    | .ok () =>
      let file : ReceiveFile := ⟨name, path, fileSize, 0⟩
      emitProgress { active with
          progressThrottle := {}
          session.currentFile := some file }
        0 true now (downloadProgress file)
    | .error error =>
      ended [.sendToRemote cancelSequence,
        failed ("Failed to create file: ".toList ++ error)]
  | .fileComplete now =>
    (match active.session.currentFile with
      | some file =>
        emitProgress active file.written true now (downloadProgress file)
      | none => live active []).andThen fun active =>
    live { active with
        fileCount := active.fileCount + 1
        session.currentFile := none } []
  | .sessionComplete =>
    ended [.emitEvent (.complete .download active.fileCount)]

def receiverEvents (active : Active Receiving) :
    List ReceiverPoll → Step Receiving
  | [] => live active []
  | event :: rest =>
    (receiverEvent active event).andThen fun active =>
    receiverEvents active rest

/-- The file data of a round. -/
def receiveFileData (active : Active Receiving) (round : ReceiverRound) :
    Step Receiving :=
  match active.session.currentFile with
  | none => live active []
  | some file =>
    if round.fileData.isEmpty then live active []
    else
      match round.written with
      | .error error =>
        ended [.sendToRemote cancelSequence,
          failed ("File write error: ".toList ++ error)]
      | .ok () =>
        let file :=
          { file with written := file.written + round.fileData.length }
        emitProgress { active with session.currentFile := some file }
          file.written false round.now (downloadProgress file)

/-- The loop of `feed_receiver`, from an offset into the data.  Without a
further round, nothing more was consumed. -/
def feedReceiver (length : Nat) (active : Active Receiving) (offset : Nat) :
    List ReceiverRound → Step Receiving
  | [] => live active []
  | round :: rest =>
    if length ≤ offset then live active []
    else
      match round.fed with
      | .ok 0 => live active []
      | .ok consumed =>
        ((live active (drained round.outgoing)).andThen fun active =>
          receiverEvents active round.events).andThen fun active =>
        (receiveFileData active round).andThen fun active =>
        feedReceiver length active (offset + consumed) rest
      | .error error =>
        if error.isCrc then feedReceiver length active (offset + 1) rest
        else
          ended [failed ("ZMODEM protocol error: ".toList ++ error.message)]

/-- What opening a file, reading its metadata and announcing it to the remote
come to. -/
inductive FileStart where
  | openFailed (error : Str)
  | metadataFailed (error : Str)
  | refused (error : Str)
  | started (size : Nat)
deriving Repr, DecidableEq

/-- The file name of a path, or a word for it. -/
def uploadName (path : Path) : Str :=
  match path.getLast? with
  | none => "file".toList
  | some name => if name = "..".toList then "file".toList else name

def startFileForSender (active : Active Sending) (index : Nat) :
    FileStart → Step Sending
  | .openFailed error =>
    live active [failed ("Failed to open ".toList ++ uploadName
      (active.session.files.getD index []) ++ ": ".toList ++ error)]
  | .metadataFailed error =>
    live active [failed ("Failed to read metadata for ".toList ++ uploadName
      (active.session.files.getD index []) ++ ": ".toList ++ error)]
  | .refused error =>
    live active [failed ("start_file error: ".toList ++ error)]
  | .started size =>
    live { active with
        session.currentFile := some
          ⟨uploadName (active.session.files.getD index []), size, 0, 0⟩ } []

def uploadProgress (file : SendFile) (bytesTransferred : Nat) : ZmodemEvent :=
  .progress file.name bytesTransferred file.size none .upload

/-- The file at the index is started, and its progress is told from zero. -/
def startNext (active : Active Sending) (start : FileStart) (now : Nat) :
    Step Sending :=
  (startFileForSender { active with progressThrottle := {} }
    active.session.fileIndex start).andThen fun active =>
  match active.session.currentFile with
  | some file => emitProgress active 0 true now (uploadProgress file 0)
  | none => live active []

/-- A request for file data and what comes of it. -/
structure SenderRequest where
  offset : Nat
  len : Nat
  seeks : Bool := true
  read : Option Nat
  fed : Bool := true
  outgoing : Bytes := []
  now : Nat := 0

/-- The requests of the sender, up to the first that fails. -/
def fileRequests (active : Active Sending) : List SenderRequest → Step Sending
  | [] => live active []
  | request :: rest =>
    match active.session.currentFile with
    | none => fileRequests active rest
    | some file =>
      if file.position ≠ request.offset ∧ !request.seeks then
        live active []
      else
        match request.read with
        | none =>
          live { active with
              session.currentFile :=
                some { file with position := request.offset } } []
        | some count =>
          if !request.fed then
            live { active with
                session.currentFile :=
                  some { file with position := request.offset } } []
          else
            let file :=
              { file with
                sent := max file.sent (request.offset + count)
                position := request.offset + count }
            ((emitProgress { active with session.currentFile := some file }
              file.sent false request.now
              (uploadProgress file file.sent)).andThen fun active =>
            live active (drained request.outgoing)).andThen fun active =>
            fileRequests active rest

/-- An event of the sender, with the answer to the start of the next file. -/
inductive SenderPoll where
  | fileComplete (now : Nat) (start : FileStart) (startedAt : Nat)
  | fileSkipped (start : FileStart) (startedAt : Nat)
  | sessionComplete

/-- The next file, if there is one. -/
def advanceFile (active : Active Sending) (start : FileStart) (now : Nat) :
    Step Sending :=
  let active :=
    { active with
      session.currentFile := none
      session.fileIndex := active.session.fileIndex + 1 }
  if active.session.fileIndex < active.session.files.length then
    startNext active start now
  else live active []

def senderEvent (active : Active Sending) : SenderPoll → Step Sending
  | .fileComplete now start startedAt =>
    (match active.session.currentFile with
      | some file =>
        emitProgress active file.sent true now (uploadProgress file file.sent)
      | none => live active []).andThen fun active =>
    advanceFile { active with fileCount := active.fileCount + 1 } start
      startedAt
  | .fileSkipped start startedAt =>
    if active.session.conflictMode ≠ .skip then
      let name := (active.session.currentFile.map SendFile.name).getD
        "file".toList
      ended [.sendToRemote cancelSequence,
        failed ("Remote refused ".toList ++ name ++
          "; the destination may be unwritable.".toList)]
    else advanceFile active start startedAt
  | .sessionComplete =>
    ended [.emitEvent (.complete .upload active.fileCount)]

def senderEvents (active : Active Sending) : List SenderPoll → Step Sending
  | [] => live active []
  | event :: rest =>
    (senderEvent active event).andThen fun active =>
    senderEvents active rest

/-- Feed the data to the sender, up to an error that ends the transfer. -/
def feedData (length offset : Nat) :
    List (Except Zmodem2Error Nat) → Option Zmodem2Error
  | [] => none
  | fed :: rest =>
    if length ≤ offset then none
    else
      match fed with
      | .ok 0 => none
      | .ok consumed => feedData length (offset + consumed) rest
      | .error error =>
        if error.isCrc then feedData length (offset + 1) rest
        else some error

/-- What the sender and the file system answer in one feed. -/
structure SenderAnswers where
  fed : List (Except Zmodem2Error Nat) := []
  outgoing : Bytes := []
  requests : List SenderRequest := []
  events : List SenderPoll := []
  finalOutgoing : Bytes := []

def feedSender (length : Nat) (active : Active Sending)
    (answers : SenderAnswers) : Step Sending :=
  match feedData length 0 answers.fed with
  | some error =>
    ended [failed ("ZMODEM send error: ".toList ++ error.message)]
  | none =>
    ((live active (drained answers.outgoing)).andThen fun active =>
      fileRequests active answers.requests).andThen fun active =>
    (senderEvents active answers.events).andThen fun active =>
    live active (drained answers.finalOutgoing)

namespace ZmodemTransfer

abbrev Result := ZmodemTransfer × List ZmodemAction

def active {ρ : Type} (transfer : ZmodemTransfer) (session : ρ) : Active ρ :=
  ⟨session, transfer.fileCount, transfer.progressThrottle⟩

/-- Store what a loop has left of its parts. -/
def store {ρ : Type} (transfer : ZmodemTransfer) (state : ρ → TransferState)
    (run : Step ρ) : Result :=
  match run.next with
  | none => ({ transfer with state := .done }, run.output)
  | some active =>
    ({ transfer with
        state := state active.session
        fileCount := active.fileCount
        progressThrottle := active.progressThrottle }, run.output)

/-- The cancel check of `feed_incoming`: the count of consecutive CAN bytes,
and whether it has come to five. -/
def countCancel (count : Nat) : Bytes → Nat × Bool
  | [] => (count, false)
  | byte :: rest =>
    if byte = zdle then
      if cancelSeqLen ≤ count + 1 then (count + 1, true)
      else countCancel (count + 1) rest
    else countCancel 0 rest

/-- What the protocol machines and the file system answer in one feed. -/
structure Answers where
  rounds : List ReceiverRound := []
  sender : SenderAnswers := {}

def feedIncoming (transfer : ZmodemTransfer) (data : Bytes)
    (answers : Answers) : Result :=
  match countCancel transfer.cancelCount data with
  | (cancelCount, true) =>
    ({ transfer with state := .done, cancelCount },
      [failed "Remote cancelled transfer".toList])
  | (cancelCount, false) =>
    let transfer := { transfer with cancelCount }
    match transfer.state with
    | .waitingForUser buffered =>
      ({ transfer with state := .waitingForUser (buffered ++ data) }, [])
    | .receiving session =>
      transfer.store .receiving
        (feedReceiver data.length (transfer.active session) 0
          answers.rounds)
    | .sending session =>
      transfer.store .sending
        (feedSender data.length (transfer.active session) answers.sender)
    | .done => (transfer, [])

def cancel (transfer : ZmodemTransfer) : Result :=
  ({ transfer with state := .done },
    [.sendToRemote cancelSequence, failed "cancelled".toList])

def drainOutgoing (transfer : ZmodemTransfer) (outgoing : Bytes) :
    List ZmodemAction :=
  match transfer.state with
  | .receiving _ | .sending _ => drained outgoing
  | _ => []

def acceptDownload (transfer : ZmodemTransfer) (saveDir : Path)
    (created : Except Zmodem2Error Unit) (outgoing : Bytes)
    (answers : Answers) : Result :=
  match transfer.state with
  | .waitingForUser buffered =>
    match created with
    | .error error =>
      ({ transfer with state := .done },
        [failed ("Failed to create ZMODEM receiver: ".toList ++
          error.message)])
    | .ok () =>
      let transfer := { transfer with state := .receiving { saveDir } }
      let fed := transfer.feedIncoming buffered answers
      (fed.1, transfer.drainOutgoing outgoing ++ fed.2)
  | _ => (transfer, [])

def startNextSendFile (transfer : ZmodemTransfer) (start : FileStart)
    (now : Nat) : Result :=
  match transfer.state with
  | .sending session =>
    if session.files.length ≤ session.fileIndex then (transfer, [])
    else
      transfer.store .sending (startNext (transfer.active session) start now)
  | _ => (transfer, [])

/-- What the sender and the file system answer to an accepted upload. -/
structure UploadAnswers where
  created : Except Zmodem2Error Unit := .ok ()
  outgoing : Bytes := []
  fed : Answers := {}
  start : FileStart
  startedAt : Nat := 0
  finalOutgoing : Bytes := []

def acceptUpload (transfer : ZmodemTransfer) (files : List Path)
    (conflictMode : ZmodemUploadConflictMode) (answers : UploadAnswers) :
    Result :=
  match transfer.state with
  | .waitingForUser buffered =>
    match answers.created with
    | .error error =>
      ({ transfer with state := .done },
        [failed ("Failed to create ZMODEM sender: ".toList ++
          error.message)])
    | .ok () =>
      let transfer :=
        { transfer with state := .sending { files, conflictMode } }
      let fed := transfer.feedIncoming buffered answers.fed
      let started := fed.1.startNextSendFile answers.start answers.startedAt
      (started.1, transfer.drainOutgoing answers.outgoing ++ fed.2 ++
        started.2 ++ started.1.drainOutgoing answers.finalOutgoing)
  | _ => (transfer, [])

end ZmodemTransfer

end NiceTerm.Zmodem
