/-
A download through the output of `cat`: the loop over the messages of the
channel, which two backends have, and what each takes for a complete file.
-/
import NiceTerm.Lib.Fallible
import NiceTerm.Lib.Utf8
import NiceTerm.Sftp.Transfers

namespace NiceTerm.Sftp.Scp

open List
open RustStr (Str decimal)

inductive ChannelMsg
  | data (bytes : Bytes)
  | extendedData (bytes : Bytes) (ext : Nat)
  | exitStatus (code : Nat)
  | eof
  | close
  | other
deriving DecidableEq, Repr

/-- A message, the state of the transfer when the loop waits for it, and the
error of writing it to the local file. -/
structure Received where
  message : ChannelMsg
  control : TransferControlState := .running
  writeError : Option Str := none
deriving DecidableEq, Repr

/-- What a download does before it waits for messages. -/
inductive SetupStep
  | parent
  | stat
  | create
  | channel
  | exec
deriving DecidableEq, Repr

def SetupStep.wrap (error : Str) : SetupStep → AppError
  | .parent => channelError "Failed to create local dir: " error
  | .create => channelError "Failed to create local file: " error
  | .channel => channelError "Failed to open channel: " error
  | .stat | .exec => .other error

/-- In what the two backends differ. -/
structure ScpBackend where
  setup : List SetupStep
  writeFailed : String
  accepts : Option Nat → Nat → Bool
  failed : Option Nat → Bytes → AppError

def scpNormal : ScpBackend where
  setup := [.parent, .channel, .exec, .create]
  writeFailed := "Failed to write local file: "
  accepts := fun exitCode bytesTransferred =>
    !(exitCode != some 0 && bytesTransferred == 0)
  failed := fun _ stderr =>
    channelError "Download failed: " (RustStr.trim (Utf8.decodeLossy stderr))

def scpEnhanced : ScpBackend where
  setup := [.parent, .stat, .create, .channel, .exec]
  writeFailed := "Local write failed: "
  accepts := fun exitCode _ => !(exitCode.getD 1 != 0)
  failed := fun exitCode stderr =>
    .channel ("Remote cat failed (exit ".toList ++ decimal (exitCode.getD 1) ++
      "): ".toList ++ RustStr.trim (Utf8.decodeLossy stderr))

/-- What a download receives, and which of its calls fail.  The channel has no
more messages when it is closed or the connection is lost. -/
structure ScpDownload where
  setupError : SetupStep → Option Str
  received : List Received
  atEnd : TransferControlState
  flushError : Option Str
  oldFile : Option Bytes

structure ReadState where
  file : Bytes
  bytesTransferred : Nat
  stderr : Bytes
  exitCode : Option Nat
deriving DecidableEq, Repr

/-- The exit status may come right after the end of the file. -/
def ReadState.atEof (state : ReadState) (rest : List Received) : ReadState :=
  match state.exitCode, rest with
  | none, ⟨.exitStatus code, _, _⟩ :: _ => { state with exitCode := some code }
  | _, _ => state

/-- The loop over the messages. -/
def readChannel (backend : ScpBackend) (atEnd : TransferControlState) :
    ReadState → List Received → ReadState × Except AppError Unit
  | state, [] => (state, waitForTransferReady atEnd)
  | state, ⟨message, control, writeError⟩ :: rest =>
    match waitForTransferReady control with
    | .error error => (state, .error error)
    | .ok _ =>
      match message with
      | .data bytes =>
        match writeError with
        | some error => (state, .error (channelError backend.writeFailed error))
        | none =>
          readChannel backend atEnd { state with
              file := state.file ++ bytes
              bytesTransferred := state.bytesTransferred + bytes.length }
            rest
      | .extendedData bytes ext =>
        readChannel backend atEnd
          (if ext = 1 then { state with stderr := state.stderr ++ bytes }
            else state) rest
      | .exitStatus code =>
        readChannel backend atEnd { state with exitCode := some code } rest
      | .eof => (state.atEof rest, .ok ())
      | .close | .other => readChannel backend atEnd state rest

/-- The calls before the loop, and the local file after them. -/
def setUp (setupError : SetupStep → Option Str) :
    List SetupStep → Option Bytes → Option Bytes × Except AppError Unit
  | [], file => (file, .ok ())
  | step :: steps, file =>
    match setupError step with
    | some error => (file, .error (step.wrap error))
    | none =>
      setUp setupError steps (if step = .create then some [] else file)

variable (backend : ScpBackend) (download : ScpDownload)

def receive :
    Option Bytes × Except AppError Unit :=
  match setUp download.setupError backend.setup download.oldFile with
  | (file, .error error) => (file, .error error)
  | (_, .ok _) =>
    match readChannel backend download.atEnd ⟨[], 0, [], none⟩
      download.received with
    | (state, .error error) => (some state.file, .error error)
    | (state, .ok _) =>
      (some state.file, do
        mapError (channelError "Flush failed: ") download.flushError
        if backend.accepts state.exitCode state.bytesTransferred then
          .ok ()
        else .error (backend.failed state.exitCode state.stderr))

inductive TransferStatus
  | started
  | completed
  | error (message : AppError)
deriving DecidableEq, Repr

/-- How a download ends: its result, the local file and the events that the
frontend gets. -/
structure Outcome where
  result : Except AppError Unit
  file : Option Bytes
  events : List TransferStatus

/-- A cancelled download removes the file. -/
def downloadFileInner :
    Outcome :=
  match receive backend download with
  | (file, .ok _) => ⟨.ok (), file, [.started, .completed]⟩
  | (_, .error (.cancelled message)) =>
    ⟨.error (.cancelled message), none, [.started]⟩
  | (file, .error error) => ⟨.error error, file, [.started, .error error]⟩

variable (received : List Received)

def dataOf : Bytes :=
  received.flatMap fun item =>
    match item.message with
    | .data bytes => bytes
    | _ => []

def statusOf : ChannelMsg → Option Nat
  | .exitStatus code => some code
  | _ => none

/-- A download reports success only for a complete file. -/
def Honest (outcome : Outcome) : Prop :=
  (outcome.result = .ok () ∧ .exitStatus 0 ∈ download.received.map
    Received.message ∧ outcome.file = some (dataOf download.received)) ∨
  ((∃ error, outcome.result = .error error) ∧ .completed ∉ outcome.events)

def untilEof : List Received :=
  received.takeWhile fun item => item.message ≠ .eof

def fromEof : List Received :=
  received.dropWhile fun item => item.message ≠ .eof

def statuses : List Nat :=
  received.filterMap fun item => statusOf item.message

/-- The last exit status before the end of the file, or else the one right
after it. -/
def reportedStatus : Option Nat :=
  (statuses (untilEof received)).getLast?.or
    ((fromEof received).tail.head?.bind fun item => statusOf item.message)

/-- The loop is not cancelled and the local file can be written. -/
def Unhindered (atEnd : TransferControlState) (received : List Received) :
    Prop :=
  (∀ item ∈ untilEof received, item.control ≠ .cancelled ∧
    ((∃ bytes, item.message = .data bytes) → item.writeError = none)) ∧
  ((fromEof received).head?.elim atEnd Received.control) ≠ .cancelled

theorem waitForTransferReady_eq_ok {control : TransferControlState} :
    waitForTransferReady control = .ok () ↔ control ≠ .cancelled := by
  rw [waitForTransferReady]
  split <;> simp_all

variable {item : Received}

theorem untilEof_cons (rest : List Received) (h : item.message ≠ .eof) :
    untilEof (item :: rest) = item :: untilEof rest :=
  takeWhile_cons_of_pos (by simpa using h)

theorem fromEof_cons (rest : List Received)
    (h : item.message ≠ .eof) : fromEof (item :: rest) = fromEof rest :=
  dropWhile_cons_of_pos (by simpa using h)

variable {atEnd : TransferControlState}

theorem unhindered_cons {rest : List Received} (h : item.message ≠ .eof) :
    Unhindered atEnd (item :: rest) ↔ item.control ≠ .cancelled ∧
        ((∃ bytes, item.message = .data bytes) → item.writeError = none) ∧
        Unhindered atEnd rest := by
  rw [Unhindered, untilEof_cons rest h, fromEof_cons rest h,
    forall_mem_cons, Unhindered]
  simp only [and_assoc]

/-- What the loop has collected, and whether it has been left in order. -/
def Collects (atEnd : TransferControlState) (state : ReadState)
    (received : List Received) (outcome : ReadState × Except AppError Unit) :
    Prop :=
  (outcome.2 = .ok () ↔ Unhindered atEnd received) ∧ (outcome.2 = .ok () →
      outcome.1.file = state.file ++ dataOf (untilEof received) ∧
        outcome.1.bytesTransferred =
          state.bytesTransferred + (dataOf (untilEof received)).length ∧
        outcome.1.exitCode =
          (statuses (untilEof received)).getLast?.or (state.exitCode.or
            ((fromEof received).tail.head?.bind fun item =>
              statusOf item.message)))

theorem Collects.cons {atEnd : TransferControlState} {state next : ReadState}
    {item : Received} {rest : List Received}
    {outcome : ReadState × Except AppError Unit}
    (h : Collects atEnd next rest outcome) (hmessage : item.message ≠ .eof)
    (hcontrol : item.control ≠ .cancelled)
    (hwrite : (∃ bytes, item.message = .data bytes) → item.writeError = none)
    (hfile : next.file = state.file ++ dataOf [item])
    (hbytes : next.bytesTransferred =
      state.bytesTransferred + (dataOf [item]).length)
    (hcode : next.exitCode = (statusOf item.message).or state.exitCode) :
    Collects atEnd state (item :: rest) outcome := by
  have hdata : dataOf (item :: untilEof rest) =
      dataOf [item] ++ dataOf (untilEof rest) := by
    simp [dataOf]
  obtain ⟨hiff, hgot⟩ := h
  constructor
  · rw [hiff, unhindered_cons hmessage]
    exact ⟨fun h => ⟨hcontrol, hwrite, h⟩, fun h => h.2.2⟩
  · intro hok
    obtain ⟨hafter, hcount, hexit⟩ := hgot hok
    rw [untilEof_cons rest hmessage, fromEof_cons rest hmessage, hdata]
    refine ⟨?_, ?_, ?_⟩
    · rw [hafter, hfile, append_assoc]
    · rw [hcount, hbytes, length_append, Nat.add_assoc]
    · rw [hexit, hcode]
      cases hstatus : statusOf item.message with
      | none => simp [statuses, hstatus]
      | some code =>
        simp only [statuses, filterMap_cons, hstatus,
          getLast?_cons, Option.some_or]
        cases (List.filterMap (fun item => statusOf item.message)
          (untilEof rest)).getLast? <;> rfl

theorem eof_unhindered_iff {rest : List Received} (h : item.message = .eof) :
    Unhindered atEnd (item :: rest) ↔ item.control ≠ .cancelled := by
  simp [Unhindered, untilEof, fromEof, h]

theorem atEof_exitCode (state : ReadState) (rest : List Received) :
    (state.atEof rest).exitCode =
      state.exitCode.or (rest.head?.bind fun item => statusOf item.message) := by
  obtain ⟨file, count, stderr, exitCode⟩ := state
  cases exitCode with
  | some code => simp [ReadState.atEof]
  | none =>
    cases rest with
    | nil => rfl
    | cons item rest =>
      obtain ⟨message, control, writeError⟩ := item
      cases message <;> rfl

theorem atEof_same (state : ReadState) (rest : List Received) :
    (state.atEof rest).file = state.file ∧
      (state.atEof rest).bytesTransferred = state.bytesTransferred := by
  rw [ReadState.atEof.eq_def]
  split <;> exact ⟨rfl, rfl⟩

theorem collects_error {state after : ReadState} {received : List Received}
    {error : AppError} (h : ¬ Unhindered atEnd received) :
    Collects atEnd state received (after, .error error) :=
  ⟨iff_of_false (by simp) h, fun hok => absurd hok (by simp)⟩

/-- The loop collects the data up to the end of the file. -/
theorem readChannel_collects (atEnd : TransferControlState)
    (state : ReadState) (received : List Received) :
    Collects atEnd state received
      (readChannel backend atEnd state received) := by
  induction received generalizing state with
  | nil =>
    simp [Collects, readChannel, waitForTransferReady_eq_ok, Unhindered,
      untilEof, fromEof, dataOf, statuses]
  | cons item rest ih =>
    obtain ⟨message, control, writeError⟩ := item
    rw [readChannel.eq_def]
    by_cases hcontrol : control = .cancelled
    · subst hcontrol
      refine collects_error fun hnot => ?_
      by_cases heof : message = .eof
      · exact (eof_unhindered_iff heof).mp hnot rfl
      · exact ((unhindered_cons heof).mp hnot).1 rfl
    have hready : waitForTransferReady control = .ok () :=
      waitForTransferReady_eq_ok.mpr hcontrol
    simp only [hready]
    cases message with
    | data bytes =>
      cases writeError with
      | some error =>
        refine collects_error fun hnot => ?_
        have hwritten := ((unhindered_cons (by simp)).mp hnot).2.1
        exact Option.some_ne_none error (hwritten ⟨bytes, rfl⟩)
      | none =>
        exact (ih _).cons (by simp) hcontrol (fun _ => rfl)
          (by simp [dataOf]) (by simp [dataOf]) (by simp [statusOf])
    | extendedData bytes ext =>
      refine (ih _).cons (by simp) hcontrol (by simp) ?_ ?_ ?_
      all_goals split <;> simp [dataOf, statusOf]
    | exitStatus code =>
      exact (ih _).cons (by simp) hcontrol (by simp)
        (by simp [dataOf]) (by simp [dataOf]) (by simp [statusOf])
    | eof =>
      refine ⟨iff_of_true rfl ((eof_unhindered_iff rfl).mpr hcontrol),
        fun _ => ?_⟩
      have huntil : untilEof (⟨.eof, control, writeError⟩ :: rest) = [] :=
        rfl
      have hfrom : fromEof (⟨.eof, control, writeError⟩ :: rest) =
          ⟨.eof, control, writeError⟩ :: rest := rfl
      obtain ⟨hfile, hbytes⟩ := atEof_same state rest
      rw [huntil, hfrom, hfile, hbytes, atEof_exitCode]
      simp [dataOf, statuses]
    | close | other =>
      exact (ih _).cons (by simp) hcontrol (by simp)
        (by simp [dataOf]) (by simp [dataOf]) (by simp [statusOf])

theorem setUp_ok_iff (setupError : SetupStep → Option Str)
    (steps : List SetupStep) (file : Option Bytes) :
    (setUp setupError steps file).2 = .ok () ↔
      ∀ step ∈ steps, setupError step = none := by
  induction steps generalizing file with
  | nil => simp [setUp]
  | cons step steps ih =>
    rw [setUp, forall_mem_cons]
    cases hstep : setupError step with
    | some error => simp
    | none => simpa using ih _

/-- No call fails and the transfer is not cancelled. -/
def Undisturbed : Prop :=
  (∀ step ∈ backend.setup, download.setupError step = none) ∧
    Unhindered download.atEnd download.received ∧ download.flushError = none

/-- Data that arrives when the loop has been left. -/
def lateData : Bytes :=
  dataOf (fromEof download.received)

theorem dataOf_received :
    dataOf download.received =
      dataOf (untilEof download.received) ++ lateData download := by
  rw [lateData, dataOf, dataOf, dataOf, ← flatMap_append, untilEof,
    fromEof, takeWhile_append_dropWhile]

/-- The loop has been left in order, with these data. -/
def Accepted : Prop :=
  Undisturbed backend download ∧
    backend.accepts (reportedStatus download.received)
      (dataOf (untilEof download.received)).length = true

/-- When a download succeeds, and with which file. -/
theorem receive_spec :
    ((receive backend download).2 = .ok () ↔ Accepted backend download) ∧
    ((receive backend download).2 = .ok () → (receive backend download).1 =
        some (dataOf (untilEof download.received))) := by
  have hsetUp := setUp_ok_iff download.setupError backend.setup
    download.oldFile
  obtain ⟨hloop, hgot⟩ := readChannel_collects backend download.atEnd
    ⟨[], 0, [], none⟩ download.received
  rw [receive, Accepted, Undisturbed]
  rcases hset : setUp download.setupError backend.setup download.oldFile with
    ⟨file, error | _⟩
  · rw [hset] at hsetUp
    simp only [reduceCtorEq, false_iff] at hsetUp
    simp [hsetUp]
  · rw [hset] at hsetUp
    have hready := hsetUp.mp rfl
    rcases hread : readChannel backend download.atEnd ⟨[], 0, [], none⟩
      download.received with ⟨state, error | _⟩
    · rw [hread] at hloop
      simp only [reduceCtorEq, false_iff] at hloop
      simp [hloop]
    · rw [hread] at hloop hgot
      obtain ⟨hfile, hbytes, hcode⟩ := hgot rfl
      have hcalm := hloop.mp rfl
      simp only [nil_append, Nat.zero_add, Option.none_or] at hfile hbytes hcode
      rw [← reportedStatus] at hcode
      simp only [hfile, hbytes, hcode]
      cases hflush : download.flushError with
      | some error => simp [mapError, bind, Except.bind]
      | none =>
        simp only [mapError, Fallible.ok_bind]
        split
        · rename_i haccepts
          refine ⟨iff_of_true rfl ⟨⟨hready, hcalm, ?_⟩, haccepts⟩, ?_⟩
          · trivial
          · exact fun _ => trivial
        · rename_i hrejects
          exact ⟨iff_of_false (by simp) fun h => hrejects h.2,
            fun h => absurd h (by simp)⟩

theorem downloadFileInner_result :
    (downloadFileInner backend download).result = (receive backend download).2 ∧
      ((receive backend download).2 = .ok () →
        (downloadFileInner backend download).file =
          (receive backend download).1) ∧
      ((receive backend download).2 ≠ .ok () →
        .completed ∉ (downloadFileInner backend download).events) := by
  rw [downloadFileInner]
  rcases receive backend download with ⟨file, error | _⟩
  · cases error <;> simp
  · simp

theorem message_of_status {code : Nat} (h : statusOf item.message = some code) :
    item.message = .exitStatus code := by
  cases hmessage : item.message with
  | exitStatus other => simpa [hmessage, statusOf] using h
  | data | extendedData | eof | close | other => simp [hmessage, statusOf] at h

theorem status_mem {received : List Received}
    (h : reportedStatus received = some 0) :
    .exitStatus 0 ∈ received.map Received.message := by
  rw [mem_map]
  rw [reportedStatus, Option.or_eq_some_iff] at h
  rcases h with hlast | ⟨-, hnext⟩
  · have hmem := mem_of_getLast? hlast
    rw [statuses, mem_filterMap] at hmem
    obtain ⟨item, hitem, hstatus⟩ := hmem
    exact ⟨item, (List.takeWhile_prefix _).subset hitem, message_of_status hstatus⟩
  · rw [Option.bind_eq_some_iff] at hnext
    obtain ⟨item, hitem, hstatus⟩ := hnext
    have htail := mem_of_mem_tail (mem_of_mem_head? hitem)
    exact ⟨item, (dropWhile_suffix _).subset htail, message_of_status hstatus⟩

/-- A download is not honest if it is accepted without the exit status or
without the data that come late. -/
theorem honest_iff :
    Honest download (downloadFileInner backend download) ↔
      ¬ (Accepted backend download ∧
        (.exitStatus 0 ∉ download.received.map Received.message ∨
          lateData download ≠ [])) := by
  obtain ⟨hresult, hfile, hevents⟩ := downloadFileInner_result backend download
  obtain ⟨haccepted, hdata⟩ := receive_spec backend download
  rw [Honest, hresult, haccepted]
  by_cases h : Accepted backend download
  · have hok := haccepted.mpr h
    have hcontent := (hfile hok).trans (hdata hok)
    rw [hcontent, dataOf_received, hok]
    simp [h]
  · have hnot : (receive backend download).2 ≠ .ok () :=
      fun hok => h (haccepted.mp hok)
    have herror : ∃ error, (receive backend download).2 = .error error := by
      cases hend : (receive backend download).2 with
      | ok _ => exact absurd hend hnot
      | error error => exact ⟨error, rfl⟩
    exact iff_of_true (.inr ⟨herror, hevents hnot⟩) fun hboth => h hboth.1

/-- One backend takes a file for complete only with the exit status.  The other
one also takes any data for complete, whatever became of `cat`. -/
theorem reported_complete_iff (download : ScpDownload) :
    (Honest download (downloadFileInner scpEnhanced download) ↔
      ¬ (Undisturbed scpEnhanced download ∧
        reportedStatus download.received = some 0 ∧
        lateData download ≠ [])) ∧
    (Honest download (downloadFileInner scpNormal download) ↔
      ¬ (Undisturbed scpNormal download ∧
        (reportedStatus download.received = some 0 ∨
          dataOf (untilEof download.received) ≠ []) ∧
        (.exitStatus 0 ∉ download.received.map Received.message ∨
          lateData download ≠ []))) := by
  have henhanced : Accepted scpEnhanced download ↔
      Undisturbed scpEnhanced download ∧
        reportedStatus download.received = some 0 := by
    rw [Accepted]
    cases reportedStatus download.received <;> simp [scpEnhanced]
  have hnormal : Accepted scpNormal download ↔ Undisturbed scpNormal download ∧
        (reportedStatus download.received = some 0 ∨
          dataOf (untilEof download.received) ≠ []) := by
    rw [Accepted]
    simp [scpNormal]
  rw [honest_iff, honest_iff, henhanced, hnormal]
  constructor
  · refine not_congr ⟨?_, fun h => ⟨⟨h.1, h.2.1⟩, .inr h.2.2⟩⟩
    rintro ⟨⟨hcalm, hstatus⟩, hmissing | hlate⟩
    · exact absurd (status_mem hstatus) hmissing
    · exact ⟨hcalm, hstatus, hlate⟩
  · rw [and_assoc]

/-- The connection is lost after the first bytes. -/
def lostConnection : ScpDownload where
  setupError := fun _ => none
  received := [{ message := .data [1] }]
  atEnd := .running
  flushError := none
  oldFile := none

theorem lost_connection_reported_complete :
    (downloadFileInner scpNormal lostConnection).result = .ok () ∧
      (downloadFileInner scpNormal lostConnection).events =
        [.started, .completed] ∧
      ¬ Honest lostConnection (downloadFileInner scpNormal lostConnection) := by
  refine ⟨rfl, rfl, ?_⟩
  rintro (⟨-, hstatus, -⟩ | ⟨-, hevents⟩)
  · exact absurd hstatus (by decide)
  · exact hevents (mem_cons_of_mem _ mem_cons_self)

end NiceTerm.Sftp.Scp
