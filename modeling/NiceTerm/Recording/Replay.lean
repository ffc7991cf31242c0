/-
The replay of terminal output into the lines of a transcript: a line editor
that knows the cursor movements and erasures of a shell's prompt, and skips
every other control sequence.
-/
import NiceTerm.Lib.RustSplit

namespace NiceTerm.Recording

open RustStr (Str)

/-- The line being written, the cursor in it and the lines that are done. -/
structure Replay where
  line : Str
  cursor : Nat
  lines : List Str
deriving DecidableEq, Repr

def maxReplayCursorColumns : Nat := 4096

/-- A cursor behind the end of the line first fills the gap with blanks. -/
def writeTerminalChar (replay : Replay) (ch : Char) : Replay :=
  let padded :=
    replay.line ++ List.replicate (replay.cursor - replay.line.length) ' '
  let line :=
    if replay.cursor = padded.length then padded ++ [ch]
    else padded.set replay.cursor ch
  { replay with line := line, cursor := replay.cursor + 1 }

variable (params : Str)

def csiParam (index default : Nat) : Nat :=
  (((params.splitOn ';')[index]?.map fun part =>
      part.dropWhile fun ch => ch = '?' || ch = '>' || ch = '<' || ch = '=')
    |>.filter (fun part => !part.isEmpty)
    |>.bind RustStr.parseUsize).getD default

/-- `B` and `E`: the line is done, and empty lines follow it. -/
def nextLines (replay : Replay) : Replay :=
  let count := max (csiParam params 0 1) 1
  { line := []
    cursor := 0
    lines := replay.lines ++ replay.line :: List.replicate (count - 1) [] }

/-- `K`: erase to the end of the line, to its start, or all of it. -/
def eraseLine (replay : Replay) : Replay :=
  match csiParam params 0 0 with
  | 0 => { replay with line := replay.line.take replay.cursor }
  | 1 =>
    let stop := min (replay.cursor + 1) replay.line.length
    { replay with line := replay.line.drop stop, cursor := 0 }
  | 2 | 3 => { replay with line := [], cursor := 0 }
  | _ => replay

/-- `P`: delete characters from the cursor on. -/
def deleteChars (replay : Replay) : Replay :=
  let stop := min (replay.cursor + csiParam params 0 1) replay.line.length
  if replay.cursor < stop then
    { replay with
      line := replay.line.take replay.cursor ++ replay.line.drop stop }
  else replay

def insertBlank (cursor : Nat) (line : Str) : Str :=
  line.insertIdx (min cursor line.length) ' '

def applyCsiSequence (final : Char) (replay : Replay) : Replay :=
  if final = 'B' || final = 'E' then nextLines params replay
  else if final = 'C' then
    { replay with
      cursor := min (replay.cursor + csiParam params 0 1)
        maxReplayCursorColumns }
  else if final = 'D' then
    { replay with cursor := replay.cursor - csiParam params 0 1 }
  else if final = 'G' then
    { replay with
      cursor := min (csiParam params 0 1 - 1) maxReplayCursorColumns }
  else if final = 'K' then eraseLine params replay
  else if final = 'P' then deleteChars params replay
  else if final = '@' then
    { replay with
      line := (insertBlank replay.cursor)^[csiParam params 0 1] replay.line }
  else replay

def isCsiFinal (c : Char) : Bool :=
  0x40 ≤ c.toNat && c.toNat ≤ 0x7e

/-- The parameters, the final character and what follows the sequence; `none`
when the text ends within it. -/
def csiSequence : Str → Option (Str × Char × Str)
  | [] => none
  | c :: rest =>
    if isCsiFinal c then some ([], c, rest)
    else
      (csiSequence rest).map fun sequence =>
        (c :: sequence.1, sequence.2.1, sequence.2.2)

/-- What follows an operating system command: it ends with BEL or with ESC
and a backslash. -/
def afterOsc : Str → Str
  | [] => []
  | c :: rest =>
    if c = '\x07' then rest
    else if c = '\x1b' ∧ rest.head? = some '\\' then rest.tail
    else afterOsc rest

/-- What follows a string sequence, which only ESC and a backslash end. -/
def afterString : Str → Str
  | [] => []
  | c :: rest =>
    if c = '\x1b' ∧ rest.head? = some '\\' then rest.tail
    else afterString rest

def isAsciiControl (c : Char) : Bool :=
  c.toNat < 0x20 || c.toNat = 0x7f

/-- One turn of the loop outside the sequences. -/
def replayChar (c : Char) (replay : Replay) : Replay :=
  if c = '\r' then { replay with cursor := 0 }
  else if c = '\n' then
    { line := [], cursor := 0, lines := replay.lines ++ [replay.line] }
  else if c = '\t' then writeTerminalChar replay '\t'
  else if c = '\x08' then { replay with cursor := replay.cursor - 1 }
  else if isAsciiControl c then replay
  else writeTerminalChar replay c

def isStringOpener (c : Char) : Bool :=
  c = 'P' || c = 'X' || c = '^' || c = '_'

/-- The loop over the text.  Each turn takes at least one character, so a turn
for each of them is enough. -/
def replayLoop : Nat → Str → Replay → Replay
  | 0, _, replay => replay
  | _, [], replay => replay
  | turns + 1, c :: rest, replay =>
    if c = '\x1b' then
      match rest with
      | [] => replay
      | opener :: rest =>
        if opener = '[' then
          match csiSequence rest with
          | none => replay
          | some (params, final, rest) =>
            replayLoop turns rest (applyCsiSequence params final replay)
        else if opener = ']' then replayLoop turns (afterOsc rest) replay
        else if isStringOpener opener then
          replayLoop turns (afterString rest) replay
        else replayLoop turns rest replay
    else replayLoop turns rest (replayChar c replay)

def replayTerminalOutput (text initialLine : Str) (initialCursor : Nat) :
    Replay :=
  replayLoop text.length text
    { line := initialLine
      cursor := min initialCursor initialLine.length
      lines := [] }

example :
    let redraw := "\x1b[90m -la\x1b[0m\x1b[4D\r\x1b[Kls -la\r\nx".toList
    replayTerminalOutput redraw "ls".toList 2 =
      { line := "x".toList, cursor := 1, lines := ["ls -la".toList] } := by
  decide +kernel

end NiceTerm.Recording

/-! The transcript of a recorded session: complete lines become records, the
line being written is kept together with the cursor in it. -/

namespace NiceTerm.Recording

open RustStr (Str)

inductive TranscriptEventKind
  | command
  | output
  | system
deriving DecidableEq, Repr

def TranscriptEventKind.label : TranscriptEventKind → Str
  | command => "COMMAND".toList
  | output => "OUTPUT".toList
  | system => "SYSTEM".toList

structure TranscriptRecord where
  lineId : Nat
  timestamp : Str
  kind : TranscriptEventKind
  data : Str
  sizeBytes : Nat
deriving DecidableEq, Repr

/-- A record as it is written with its timestamp and its label. -/
def formatRecord (timestamp label data : Str) : Str :=
  '[' :: timestamp ++ "] [".toList ++ label ++ "] ".toList ++ data ++ ['\n']

def TranscriptRecord.new (lineId : Nat) (timestamp : Str)
    (kind : TranscriptEventKind) (data : Str) : TranscriptRecord where
  lineId := lineId
  timestamp := timestamp
  kind := kind
  data := data
  sizeBytes := RustStr.len (formatRecord timestamp kind.label data)

structure TranscriptState where
  records : List TranscriptRecord
  recordBytes : Nat
  memoryLimitBytes : Nat
  outputBuffer : Str
  outputCursor : Nat
  submittedLineEcho : Option Str
  nextLineId : Nat
deriving DecidableEq, Repr

namespace TranscriptState

def new (memoryLimitBytes : Nat) : TranscriptState where
  records := []
  recordBytes := 0
  memoryLimitBytes := memoryLimitBytes
  outputBuffer := []
  outputCursor := 0
  submittedLineEcho := none
  nextLineId := 1

/-- Drop the oldest records while there is more than one and they are too
large. -/
def trimRecords (limit : Nat) :
    List TranscriptRecord → Nat → List TranscriptRecord × Nat
  | oldest :: next :: records, bytes =>
    if limit < bytes then
      trimRecords limit (next :: records) (bytes - oldest.sizeBytes)
    else (oldest :: next :: records, bytes)
  | records, bytes => (records, bytes)

variable (clock : Nat → Str) (state : TranscriptState)

/-- `clock` gives the time at which a record is made. -/
def appendRecord (kind : TranscriptEventKind) (data : Str) :
    TranscriptState × TranscriptRecord :=
  let lineId := state.nextLineId
  let record := TranscriptRecord.new lineId (clock lineId) kind data
  let trimmed := trimRecords state.memoryLimitBytes
    (state.records ++ [record]) (state.recordBytes + record.sizeBytes)
  ({ state with
      records := trimmed.1
      recordBytes := trimmed.2
      nextLineId := state.nextLineId + 1 },
    record)

def stripOneLeadingNewline (text : Str) : Str :=
  if text.head? = some '\n' then text.tail else text

/-- What is left of a line when the echo of the submitted command is taken
out of it. -/
def withoutEcho (echo line : Str) : Option Str :=
  if line = echo ∨ echo <:+ RustStr.trimEnd line then none
  else if echo <+: line then
    let remainder :=
      RustStr.trimStart (stripOneLeadingNewline (line.drop echo.length))
    if remainder.isEmpty then none else some remainder
  else some line

/-- A line that is not empty uses up the echo, whether it is there or not. -/
def appendOutputLine (line : Str) : TranscriptState × Option TranscriptRecord :=
  let line := RustStr.trimEndMatches '\r' line
  if line.isEmpty then (state, none)
  else
    let kept :=
      match state.submittedLineEcho with
      | none => some line
      | some echo => withoutEcho echo line
    let state := { state with submittedLineEcho := none }
    match kept with
    | none => (state, none)
    | some line =>
      let done := state.appendRecord clock .output line
      (done.1, some done.2)

def appendOutputLines (clock : Nat → Str) (state : TranscriptState) :
    List Str → TranscriptState × List TranscriptRecord
  | [] => (state, [])
  | line :: lines =>
    let first := state.appendOutputLine clock line
    let rest := appendOutputLines clock first.1 lines
    (rest.1, first.2.toList ++ rest.2)

def writeOutput (data : Str) : TranscriptState × List TranscriptRecord :=
  if data.isEmpty then (state, [])
  else
    let replayed :=
      replayTerminalOutput data state.outputBuffer state.outputCursor
    { state with
      outputBuffer := replayed.line
      outputCursor := replayed.cursor }.appendOutputLines clock replayed.lines

/-- Successive calls. -/
def writeOutputs (clock : Nat → Str) (state : TranscriptState) :
    List Str → TranscriptState × List TranscriptRecord
  | [] => (state, [])
  | data :: chunks =>
    let first := state.writeOutput clock data
    let rest := writeOutputs clock first.1 chunks
    (rest.1, first.2 ++ rest.2)

end TranscriptState

end NiceTerm.Recording
