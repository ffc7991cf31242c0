/-
The pipelined download of a file whose size is known: ranges are read ahead by
tasks, which end in any order, and written where they belong.  A write to the
local file is done, and fails, only with the next operation on the file.
-/
import NiceTerm.Lib.Tiling
import NiceTerm.Lib.Transition
import NiceTerm.Sftp.Transfers

namespace NiceTerm.Sftp

open RustStr (Str decimal)

def sftpMinRequestKib : Nat := 64
def sftpMaxRequestKib : Nat := 256
def sftpPipelineTargetKib : Nat := 1024
def sftpMinPipelineDepth : Nat := 4
def sftpAutoMaxPipelineDepth : Nat := 16
def sftpUserMaxPipelineDepth : Nat := 64
def sftpPacketOverheadReserve : Nat := 1024

def clamp (value low high : Nat) : Nat := min (max value low) high

def divCeil (a b : Nat) : Nat := (a + b - 1) / b

/-- The size of a request and the depth of the pipeline for a download. -/
def sftpPipelineConfig (transferBufferSize : Nat)
    (pipelineDepthOverride : Option Nat) : Nat × Nat :=
  let requestKib :=
    clamp transferBufferSize sftpMinRequestKib sftpMaxRequestKib
  let automatic := clamp (divCeil sftpPipelineTargetKib requestKib)
    sftpMinPipelineDepth sftpAutoMaxPipelineDepth
  let override := pipelineDepthOverride.map fun value =>
    clamp value sftpMinPipelineDepth sftpUserMaxPipelineDepth
  (requestKib, override.getD automatic)

def sftpPayloadSize (requestKib : Nat) : Nat :=
  max (requestKib * 1024 - sftpPacketOverheadReserve) (32 * 1024)

def u64Max : Nat := 18446744073709551615

def saturatingAdd (a b : Nat) : Nat := min (a + b) u64Max

/-- The largest position that a local file can be moved to. -/
def maxSeek : Nat := 9223372036854775807

/-- The size is a number of 64 bits, and the settings bound the requests. -/
structure DownloadRequest where
  remotePath : Str
  localPath : Str
  totalSize : Nat
  requestKib : Nat
  pipelineDepth : Nat
  maxPipelineDepth : Nat
  totalSize_le : totalSize ≤ u64Max
  requestKib_le : requestKib ≤ sftpMaxRequestKib

namespace DownloadRequest

/-- The request for a file under the settings of a connection. -/
def ofSettings (remotePath localPath : Str) (totalSize : UInt64)
    (transferBufferSize : Nat) (pipelineDepthOverride : Option Nat)
    (maxPipelineDepth : Nat) : DownloadRequest where
  remotePath := remotePath
  localPath := localPath
  totalSize := totalSize.toNat
  requestKib := (sftpPipelineConfig transferBufferSize pipelineDepthOverride).1
  pipelineDepth :=
    (sftpPipelineConfig transferBufferSize pipelineDepthOverride).2
  maxPipelineDepth := maxPipelineDepth
  totalSize_le := Nat.le_of_lt_succ totalSize.toNat_lt
  requestKib_le := Nat.min_le_right _ _

def chunkSize (request : DownloadRequest) : Nat :=
  sftpPayloadSize request.requestKib

def concurrency (request : DownloadRequest) : Nat :=
  let numChunks := divCeil request.totalSize request.chunkSize
  max (min (min request.pipelineDepth (max request.maxPipelineDepth 1))
    numChunks) 1

end DownloadRequest

def unexpectedDownloadEofError (remotePath localPath : Str)
    (remoteSize bytesWritten requestKib payloadBytes : Nat) : AppError :=
  .channel ("Unexpected EOF while downloading ".toList ++ remotePath ++
    ": expected ".toList ++ decimal remoteSize ++ " bytes, got ".toList ++
    decimal bytesWritten ++ " bytes (local_path=".toList ++ localPath ++
    ", request_kib=".toList ++ decimal requestKib ++
    ", payload_bytes=".toList ++ decimal payloadBytes ++ ")".toList)

inductive DownloadReadProgress
  | continue (nextOffset : Nat)
  | complete
deriving DecidableEq, Repr

def classifyDownloadReadProgress (remotePath localPath : Str)
    (remoteSize offset bytesWritten bytesRead requestKib payloadBytes : Nat) :
    Except AppError DownloadReadProgress :=
  if remoteSize ≤ offset then .ok .complete
  else if bytesRead = 0 then
    .error (unexpectedDownloadEofError remotePath localPath remoteSize
      bytesWritten requestKib payloadBytes)
  else
    let nextOffset := saturatingAdd offset bytesRead
    if remoteSize ≤ nextOffset then .ok .complete
    else .ok (.continue nextOffset)

def ensureDownloadComplete (remotePath localPath : Str)
    (remoteSize bytesWritten requestKib payloadBytes : Nat) :
    Except AppError Unit :=
  if bytesWritten = remoteSize then .ok ()
  else
    .error (unexpectedDownloadEofError remotePath localPath remoteSize
      bytesWritten requestKib payloadBytes)

/-- What a task hands over, with the reads that were answered: the offsets that
were asked for and the answers. -/
structure Chunk where
  data : Bytes
  reads : List (Piece UInt8)
  completedRange : Bool
deriving DecidableEq, Repr

/-- The loop over the answers of the server; `none` if they are too few or too
many for the loop. -/
def readLoop (request : DownloadRequest) (endOffset : Nat) :
    Nat → Chunk → List (Except Str Bytes) → Option (Except AppError Chunk)
  | readOffset, chunk, [] =>
    if readOffset < endOffset then none else some (.ok chunk)
  | readOffset, chunk, answer :: answers =>
    if readOffset < endOffset then
      match answer with
      | .error error =>
        if answers.isEmpty then
          some (.error (.channel ("SFTP read failed for ".toList ++
            request.remotePath ++ " at offset ".toList ++
            decimal readOffset ++ ": ".toList ++ error)))
        else none
      | .ok [] =>
        if answers.isEmpty then
          some (.ok { chunk with completedRange := false })
        else none
      | .ok (byte :: bytes) =>
        let read : Bytes := byte :: bytes
        let chunk' : Chunk :=
          { chunk with
            data := chunk.data ++ read
            reads := chunk.reads ++ [⟨readOffset, read⟩] }
        match classifyDownloadReadProgress request.remotePath [] endOffset
            readOffset chunk.data.length read.length 0 request.chunkSize with
        | .error error => some (.error error)
        | .ok (.continue nextOffset) =>
          readLoop request endOffset nextOffset chunk' answers
        | .ok .complete =>
          readLoop request endOffset endOffset chunk' answers
    else none

/-- A task reads `span`, at most `chunkSize` bytes at a time. -/
def readSftpChunk (request : DownloadRequest) (span : Span)
    (answers : List (Except Str Bytes)) : Option (Except AppError Chunk) :=
  let endOffset := min (saturatingAdd span.start span.length) request.totalSize
  readLoop request endOffset span.start ⟨[], [], true⟩ answers

/-- A write that has been accepted.  One that fails has written the first
`written` bytes. -/
structure LocalWrite where
  piece : Piece UInt8
  error : Option Str
  written : Nat
deriving DecidableEq, Repr

def LocalWrite.apply (write : LocalWrite) (file : Bytes) : Bytes :=
  match write.error with
  | none => write.piece.writeTo 0 file
  | some _ =>
    Piece.writeTo 0 ⟨write.piece.start, write.piece.data.take write.written⟩
      file

/-- What is in the local file, the write that has not been waited for, and the
error of one that has. -/
structure LocalFile where
  bytes : Bytes
  busy : Option LocalWrite
  lastWriteErr : Option Str
deriving DecidableEq, Repr

/-- Wait for the write that is under way. -/
def LocalFile.settle (file : LocalFile) : LocalFile :=
  match file.busy with
  | none => file
  | some write => ⟨write.apply file.bytes, none, write.error⟩

/-- `local_file.flush()`, which all callers of the download do behind it. -/
def LocalFile.flush (file : LocalFile) : Except Str Bytes :=
  match file.settle.lastWriteErr with
  | none => .ok file.settle.bytes
  | some error => .error error

inductive Stage
  | opening
  | spawning
  | joining
deriving DecidableEq, Repr

/-- `writes` and `reads` are the accepted writes to the local file and the
answered reads of the tasks that have ended. -/
structure Download where
  stage : Stage
  handlePool : Nat
  nextOffset : Nat
  pending : List Span
  bytesTransferred : Nat
  localFile : LocalFile
  writes : List (Piece UInt8)
  reads : List (Piece UInt8)
  result : Option (Except AppError Nat)
deriving Repr

/-- The end of a task, and what happens until the loop comes round again. -/
structure Turn where
  index : Nat
  answers : List (Except Str Bytes)
  before : TransferControlState := .running
  panic : Option Str := none
  seek : Option Str := none
  write : Option Str := none
  written : Nat := 0
  again : TransferControlState := .running
  close : Option Str := none

inductive DownloadEvent
  | opened (error : Option Str)
  | spawn (control : TransferControlState)
  | join (turn : Turn)
  | finish

namespace Download

variable (request : DownloadRequest)

/-- `file` is the local file, which may have been set to its size already. -/
def start (file : Bytes) : Download where
  stage := .opening
  handlePool := 0
  nextOffset := 0
  pending := []
  bytesTransferred := 0
  localFile := ⟨file, none, none⟩
  writes := []
  reads := []
  result :=
    if request.totalSize = 0 then
      some ((ensureDownloadComplete request.remotePath request.localPath
        request.totalSize 0 request.requestKib request.chunkSize).map
          fun _ => 0)
    else none

variable (download : Download)

def endWith (error : AppError) : Download :=
  { download with result := some (.error error) }

/-- Go on with what a part of the loop leaves, or end with its error. -/
def goOn (next : Except AppError Download) : Download :=
  match next with
  | .ok next => next
  | .error error => download.endWith error

/-- Start a task for the next range. -/
def launch : Download :=
  let len := min request.chunkSize (request.totalSize - download.nextOffset)
  { download with
    pending := download.pending ++ [⟨download.nextOffset, len⟩]
    nextOffset := download.nextOffset + len }

variable (turn : Turn)

def seekError (offset : Nat) : Option Str :=
  if maxSeek < offset then some "Invalid argument".toList else turn.seek

/-- Write what a task has read.  The seek waits for the write before, and the
write reports what has become of it. -/
def store (span : Span) (chunk : Chunk) : Except AppError Download :=
  if chunk.data.isEmpty then .ok download
  else do
    mapError (fun error =>
      .channel ("Local seek failed: ".toList ++ error))
      (seekError turn span.start)
    mapError (fun error =>
      .channel ("Local write failed: ".toList ++ error))
      download.localFile.settle.lastWriteErr
    let piece : Piece UInt8 := ⟨span.start, chunk.data⟩
    return { download with
      localFile := { download.localFile.settle with
        busy := some ⟨piece, turn.write, turn.written⟩ }
      writes := download.writes ++ [piece]
      reads := download.reads ++ chunk.reads
      bytesTransferred :=
        saturatingAdd download.bytesTransferred chunk.data.length }

/-- Use the handle of the task for the next range, or close it. -/
def reuseHandle (span : Span) : Except AppError Download :=
  if download.nextOffset < request.totalSize then do
    waitForTransferReady turn.again
    return download.launch request
  else do
    mapError (fun error =>
      .channel ("Failed to close remote file handle for '".toList ++
        request.remotePath ++ "' (local_path=".toList ++ request.localPath ++
        ", offset=".toList ++ decimal span.start ++ "): ".toList ++ error))
      turn.close
    return download

def joined
    (span : Span) (task : Except AppError Chunk) : Except AppError Download := do
  waitForTransferReady turn.before
  mapError (fun error => .channel ("Task panicked: ".toList ++ error))
    turn.panic
  let chunk ← task
  let rest :=
    { download with pending := download.pending.eraseIdx turn.index }
  let stored ← rest.store turn span chunk
  if chunk.completedRange then stored.reuseHandle request turn span
  else
    .error (unexpectedDownloadEofError request.remotePath request.localPath
      request.totalSize stored.bytesTransferred request.requestKib
      request.chunkSize)

/-- Leave the first loop, with or without handles in the pool. -/
def spawnTurn (control : TransferControlState) : Download :=
  if download.handlePool = 0 then { download with stage := .joining }
  else
    let popped := { download with handlePool := download.handlePool - 1 }
    if request.totalSize ≤ download.nextOffset then
      { popped with stage := .joining }
    else
      popped.goOn do
        waitForTransferReady control
        return popped.launch request

def opened (error : Option Str) : Download :=
  download.goOn do
    mapError (fun error =>
      .channel ("Failed to open remote file: ".toList ++ error)) error
    let handlePool := download.handlePool + 1
    return { download with
      handlePool := handlePool
      stage := if handlePool = request.concurrency then .spawning else .opening }

def finished : Download :=
  { download with
    result := some ((ensureDownloadComplete request.remotePath
      request.localPath request.totalSize download.bytesTransferred
      request.requestKib request.chunkSize).map
        fun _ => download.bytesTransferred) }

def step (request : DownloadRequest) (download : Download)
    (event : DownloadEvent) : Option Download :=
  if download.result.isSome then none
  else
    match download.stage, event with
    | .opening, .opened error => some (download.opened request error)
    | .spawning, .spawn control => some (download.spawnTurn request control)
    | .joining, .join turn =>
      match download.pending[turn.index]? with
      | none => none
      | some span =>
        (readSftpChunk request span turn.answers).map fun task =>
          download.goOn (download.joined request turn span task)
    | .joining, .finish =>
      if download.pending.isEmpty then some (download.finished request)
      else none
    | _, _ => none

/-- `download_known_size_to_local_file`, step by step. -/
def system (file : Bytes) :
    Transition.System Download DownloadEvent where
  init := fun download => download = start request file
  step := fun download event => download.step request event

end Download

end NiceTerm.Sftp
