/-
The drain that moves terminal output from its queue into the terminal and
acknowledges it to the backend.  One step is one callback run to its end; the
timers, microtasks and write jobs waiting for a turn are part of the state.
-/
import NiceTerm.Lib.Transition
import NiceTerm.Drain.Queue

namespace NiceTerm.Drain

open Transition

def defaultAckBatchBytes : Nat := 64 * 1024
def strainedBacklogBytes : Nat := 128 * 1024
def lowLatencyFlushBacklogBytes : Nat := 64 * 1024
def maxForegroundDrainTurnMs : Nat := 10
def backgroundWriteChunkBytes : Nat := 16 * 1024
def backgroundCatchUpWriteChunkBytes : Nat := 64 * 1024

inductive TerminalOutputDrainMode
  | foreground
  | background
  | hibernating
  | hibernated
deriving DecidableEq, Repr

/-- What the options' functions and the clock answer during one callback;
`foregroundDelayMs` is not negative, as `Math.max` leaves it. -/
structure Answers where
  writeChunkBytes : Nat
  foregroundDelayMs : Nat
  lowLatency : Bool
  now : Nat
deriving DecidableEq, Repr

/-- What runs when the promise of `writePayload` is settled. -/
inductive Continuation
  | schedule
  | poll (deadline : Nat)
deriving DecidableEq, Repr

inductive WriteTask
  | payload (chunk : QueuedOutputChunk) (next : Continuation)
  | external
deriving DecidableEq, Repr

inductive JobPhase
  | waiting
  | writing
  | settled
deriving DecidableEq, Repr

/-- One link of the `writeQueue` promise chain. -/
structure WriteJob where
  task : WriteTask
  phase : JobPhase := .waiting
deriving DecidableEq, Repr

/-- How the job of a payload finds the terminal. -/
inductive WriteOutcome
  | noTerminal
  | throws
  | accepts
deriving DecidableEq, Repr

inductive TimerCallback
  | foregroundDelay
  | foregroundFrame (generation : Nat)
  | foregroundFallback (generation : Nat)
  | background
  | ack
  | poll (deadline : Nat)
deriving DecidableEq, Repr

structure TerminalOutputDrain where
  queue : OutputQueue := {}
  mode : TerminalOutputDrainMode := .foreground
  writingBytes : Nat := 0
  backendUnackedBytes : Nat := 0
  pendingAckBytes : Nat := 0
  writeInFlight : Bool := false
  writeQueue : List WriteJob := []
  foregroundFrame : Option Nat := none
  foregroundTimer : Option Nat := none
  backgroundTimer : Option Nat := none
  backgroundTimerCatchUp : Option Bool := none
  backgroundCatchUp : Bool := false
  ackTimer : Option Nat := none
  microtaskPending : Bool := false
  foregroundTurnStartedAt : Option Nat := none
  foregroundScheduleGeneration : Nat := 0
  disposed : Bool := false
  /-- Armed timers and animation frames by handle. -/
  timers : List (Nat × TimerCallback) := []
  nextHandle : Nat := 0
  /-- Callbacks given to `queueMicrotask` and not run yet. -/
  microtasks : Nat := 0
  /-- Results of `waitForIdle`, in the order they were resolved. -/
  idleResults : List Bool := []
  /-- Bytes passed to `onAck` so far. -/
  acked : Nat := 0
  /-- Bytes accepted by `enqueue` so far. -/
  enqueued : Nat := 0
  /-- Bytes of payloads that no terminal has taken. -/
  lost : Nat := 0
deriving DecidableEq, Repr

namespace TerminalOutputDrain

/-- Arm a timer; its handle is the old `nextHandle`. -/
def arm (callback : TimerCallback) (d : TerminalOutputDrain) :
    TerminalOutputDrain :=
  { d with
    timers := d.timers ++ [(d.nextHandle, callback)]
    nextHandle := d.nextHandle + 1 }

def cancel (handle : Option Nat) (d : TerminalOutputDrain) :
    TerminalOutputDrain :=
  match handle with
  | none => d
  | some handle =>
    { d with timers := d.timers.filter fun timer => timer.1 != handle }

variable (d : TerminalOutputDrain)

def clearForegroundSchedulers : TerminalOutputDrain :=
  { (d.cancel d.foregroundFrame).cancel d.foregroundTimer with
    foregroundFrame := none
    foregroundTimer := none }

def cancelForeground : TerminalOutputDrain :=
  { d.clearForegroundSchedulers with
    foregroundScheduleGeneration := d.foregroundScheduleGeneration + 1
    microtaskPending := false
    foregroundTurnStartedAt := none }

def cancelBackground : TerminalOutputDrain :=
  { d.cancel d.backgroundTimer with
    backgroundTimer := none
    backgroundTimerCatchUp := none }

def clearAckTimer : TerminalOutputDrain :=
  { d.cancel d.ackTimer with ackTimer := none }

def scheduleAckFlush : TerminalOutputDrain :=
  if d.ackTimer.isSome || d.disposed then d
  else { d.arm .ack with ackTimer := some d.nextHandle }

def sendAck (bytes : Nat) (d : TerminalOutputDrain) : TerminalOutputDrain :=
  let ackBytes := min bytes d.backendUnackedBytes
  if bytes = 0 ∨ ackBytes = 0 then d
  else
    { d with
      backendUnackedBytes := d.backendUnackedBytes - ackBytes
      acked := d.acked + ackBytes }

def flushPendingAck (force : Bool) (d : TerminalOutputDrain) :
    TerminalOutputDrain :=
  if d.pendingAckBytes = 0 then
    if force then d.clearAckTimer else d
  else if force = false ∧ d.pendingAckBytes < defaultAckBatchBytes then
    d.scheduleAckFlush
  else
    sendAck d.pendingAckBytes { d.clearAckTimer with pendingAckBytes := 0 }

variable (answers : Answers)

def hasForegroundTurnBudgetRemaining (d : TerminalOutputDrain) : Bool :=
  match d.foregroundTurnStartedAt with
  | none => true
  | some startedAt => answers.now - startedAt < maxForegroundDrainTurnMs

def scheduleForeground (d : TerminalOutputDrain) : TerminalOutputDrain :=
  if d.foregroundFrame.isSome || d.foregroundTimer.isSome ||
      d.microtaskPending || d.disposed then d
  else if 0 < answers.foregroundDelayMs then
    { d.arm .foregroundDelay with foregroundTimer := some d.nextHandle }
  else if answers.lowLatency && d.hasForegroundTurnBudgetRemaining answers then
    { d with microtaskPending := true, microtasks := d.microtasks + 1 }
  else
    let generation := d.foregroundScheduleGeneration + 1
    { (d.arm (.foregroundFrame generation)).arm
        (.foregroundFallback generation) with
      foregroundScheduleGeneration := generation
      foregroundFrame := some d.nextHandle
      foregroundTimer := some (d.nextHandle + 1) }

/-- `resolveBackgroundSchedule` as it updates `backgroundCatchUp`; the interval
it also answers is only passed to `setTimeout`. -/
def resolveBackgroundSchedule : TerminalOutputDrain :=
  { d with
    backgroundCatchUp :=
      if d.backgroundCatchUp then
        decide (lowLatencyFlushBacklogBytes < d.queue.bytes)
      else decide (strainedBacklogBytes ≤ d.queue.bytes) }

def backgroundChunkBytes : Nat :=
  if d.backgroundCatchUp then backgroundCatchUpWriteChunkBytes
  else backgroundWriteChunkBytes

def armBackground : TerminalOutputDrain :=
  { d.arm .background with
    backgroundTimerCatchUp := some d.backgroundCatchUp
    backgroundTimer := some d.nextHandle }

def scheduleBackground : TerminalOutputDrain :=
  let d := d.resolveBackgroundSchedule
  if d.disposed then d
  else if d.backgroundTimer.isSome then
    if d.backgroundCatchUp && d.backgroundTimerCatchUp == some false then
      d.cancelBackground.armBackground
    else d
  else d.armBackground

def schedule (d : TerminalOutputDrain) : TerminalOutputDrain :=
  if d.disposed then d
  else if hasOutputQueueItems d.queue = false then
    flushPendingAck true { d with foregroundTurnStartedAt := none }
  else if d.writeInFlight || d.mode == .hibernating ||
      d.mode == .hibernated then d
  else if d.mode = .background then d.scheduleBackground
  else d.scheduleForeground answers

variable (payload : QueuedOutputChunk)

/-- `writePayload`, with the continuation its callers attach. -/
def writePayload (next : Continuation)
    (d : TerminalOutputDrain) : TerminalOutputDrain :=
  { d with
    writingBytes := d.writingBytes + payload.bytes
    writeInFlight := true
    writeQueue := d.writeQueue ++ [{ task := .payload payload next }] }

def flushOne (maxBytes : Nat) (d : TerminalOutputDrain) : TerminalOutputDrain :=
  if d.writeInFlight || d.disposed then d.schedule answers
  else
    match dequeueOutputChunk d.queue maxBytes with
    | (none, queue) => flushPendingAck true { d with queue }
    | (some payload, queue) => writePayload payload .schedule { d with queue }

def flushForeground (d : TerminalOutputDrain) : TerminalOutputDrain :=
  if d.mode ≠ .foreground ∨ d.disposed then d.schedule answers
  else
    flushOne answers answers.writeChunkBytes { d with
        foregroundTurnStartedAt :=
          some (d.foregroundTurnStartedAt.getD answers.now) }

def flushBackground (d : TerminalOutputDrain) : TerminalOutputDrain :=
  if d.mode ≠ .background ∨ d.disposed then d.schedule answers
  else
    let d := d.resolveBackgroundSchedule
    d.flushOne answers d.backgroundChunkBytes

def resolveIdle (result : Bool) (d : TerminalOutputDrain) :
    TerminalOutputDrain :=
  { d with idleResults := d.idleResults ++ [result] }

/-- The end of `poll`, when it has no payload to write. -/
def pollRest (deadline : Nat) (d : TerminalOutputDrain) : TerminalOutputDrain :=
  if d.writeInFlight || decide (0 < d.writingBytes) then
    d.arm (.poll deadline)
  else
    let d := d.flushPendingAck true
    d.resolveIdle (d.queue.bytes == 0 && d.writingBytes == 0)

def poll (answers : Answers) (deadline : Nat) (d : TerminalOutputDrain) :
    TerminalOutputDrain :=
  if d.disposed then d.resolveIdle false
  else if deadline < answers.now then d.resolveIdle false
  else if hasOutputQueueItems d.queue then
    match dequeueOutputChunk d.queue answers.writeChunkBytes with
    | (some payload, queue) =>
      writePayload payload (.poll deadline) { d with queue }
    | (none, queue) => pollRest deadline { d with queue }
  else d.pollRest deadline

def waitForIdle (timeoutMs : Nat)
    (d : TerminalOutputDrain) : TerminalOutputDrain :=
  d.cancelForeground.cancelBackground.poll answers (answers.now + timeoutMs)

def setMode (mode : TerminalOutputDrainMode)
    (d : TerminalOutputDrain) : TerminalOutputDrain :=
  if d.disposed then d
  else if d.mode = mode then d.schedule answers
  else
    let d := { d with mode }
    let d := if mode ≠ .foreground then d.cancelForeground else d
    let d :=
      if mode ≠ .background then
        { d.cancelBackground with backgroundCatchUp := false }
      else d
    d.schedule answers

def enqueue (chunk : QueuedOutputChunk)
    (d : TerminalOutputDrain) : TerminalOutputDrain :=
  if d.disposed || chunk.bytes == 0 || chunk.data.isEmpty then d
  else
    schedule answers { d with
        queue := pushOutputQueue d.queue chunk
        backendUnackedBytes := d.backendUnackedBytes + chunk.bytes
        enqueued := d.enqueued + chunk.bytes }

def writeExternal : TerminalOutputDrain :=
  { d with writeQueue := d.writeQueue ++ [{ task := .external }] }

def dispose (ackRemaining : Bool) (d : TerminalOutputDrain) :
    TerminalOutputDrain :=
  if d.disposed then d
  else
    let d := { d with disposed := true }
    let d := d.cancelForeground.cancelBackground.clearAckTimer
    let d := flushPendingAck true { d with microtaskPending := false }
    let d := if ackRemaining then d.sendAck d.backendUnackedBytes else d
    { d with
      queue := {}
      writingBytes := 0
      pendingAckBytes := 0
      backendUnackedBytes := 0
      writeInFlight := false
      writeQueue := [] }

/-- A payload leaves `writingBytes` without being written. -/
def abandon (d : TerminalOutputDrain) : TerminalOutputDrain :=
  { d with
    writingBytes := d.writingBytes - payload.bytes
    writeInFlight := false
    lost := d.lost + payload.bytes }

/-- The callback given to `terminal.write`. -/
def completeWrite (d : TerminalOutputDrain) : TerminalOutputDrain :=
  let d :=
    { d with
      writingBytes := d.writingBytes - payload.bytes
      pendingAckBytes := d.pendingAckBytes + payload.bytes
      writeInFlight := false }
  d.flushPendingAck (d.queue.bytes == 0)

/-- The first job of the chain starts. -/
def startWrite (outcome : WriteOutcome) (d : TerminalOutputDrain) :
    Option TerminalOutputDrain :=
  match d.writeQueue with
  | ⟨.payload payload next, .waiting⟩ :: jobs =>
    match outcome with
    | .accepts =>
      some { d with
        writeQueue := ⟨.payload payload next, .writing⟩ :: jobs }
    | .noTerminal | .throws =>
      some (abandon payload { d with
        writeQueue := ⟨.payload payload next, .settled⟩ :: jobs })
  | ⟨.external, .waiting⟩ :: jobs =>
    some { d with writeQueue := ⟨.external, .writing⟩ :: jobs }
  | _ => none

/-- The first job of the chain resolves: its text is written. -/
def finishWrite : Option TerminalOutputDrain :=
  match d.writeQueue with
  | ⟨.payload payload next, .writing⟩ :: jobs =>
    some (completeWrite payload { d with
      writeQueue := ⟨.payload payload next, .settled⟩ :: jobs })
  | ⟨.external, .writing⟩ :: jobs =>
    some { d with writeQueue := ⟨.external, .settled⟩ :: jobs }
  | _ => none

/-- The continuation of the first job runs; the next job can start. -/
def settleWrite (d : TerminalOutputDrain) : Option TerminalOutputDrain :=
  match d.writeQueue with
  | ⟨.payload _ .schedule, .settled⟩ :: jobs =>
    some (schedule answers { d with writeQueue := jobs })
  | ⟨.payload _ (.poll deadline), .settled⟩ :: jobs =>
    some ((flushPendingAck true { d with writeQueue := jobs }).poll answers
      deadline)
  | ⟨.external, .settled⟩ :: jobs => some { d with writeQueue := jobs }
  | _ => none

/-- `claimForegroundScheduleCycle` and, when it answers true, what follows. -/
def claimAndFlush (generation : Nat)
    (d : TerminalOutputDrain) : TerminalOutputDrain :=
  if generation ≠ d.foregroundScheduleGeneration ∨ d.disposed then d
  else
    flushForeground answers { d.clearForegroundSchedulers with
        foregroundScheduleGeneration := d.foregroundScheduleGeneration + 1
        foregroundTurnStartedAt := none }

def runTimer (callback : TimerCallback)
    (d : TerminalOutputDrain) : TerminalOutputDrain :=
  match callback with
  | .foregroundDelay =>
    flushForeground answers
      { d with foregroundTimer := none, foregroundTurnStartedAt := none }
  | .foregroundFrame generation => d.claimAndFlush answers generation
  | .foregroundFallback generation => d.claimAndFlush answers generation
  | .background =>
    flushBackground answers
      { d with backgroundTimer := none, backgroundTimerCatchUp := none }
  | .ack => flushPendingAck true { d with ackTimer := none }
  | .poll deadline => d.poll answers deadline

/-- A timer that fires is no longer armed. -/
def fireTimer (index : Nat) (d : TerminalOutputDrain) :
    Option TerminalOutputDrain :=
  match d.timers[index]? with
  | none => none
  | some (_, callback) =>
    some (runTimer answers callback
      { d with timers := d.timers.eraseIdx index })

def runMicrotask (d : TerminalOutputDrain) : Option TerminalOutputDrain :=
  if d.microtasks = 0 then none
  else
    some (flushForeground answers
      { d with microtasks := d.microtasks - 1, microtaskPending := false })

end TerminalOutputDrain

/-- A chunk as the callers of `enqueue` make it: `bytes` is the length of the
text in UTF-8. -/
structure SizedChunk extends QueuedOutputChunk where
  sized : toQueuedOutputChunk.Sized

inductive Action
  | enqueue (chunk : SizedChunk)
  | setMode (mode : TerminalOutputDrainMode)
  | waitForIdle (timeoutMs : Nat)
  | writeExternal
  | dispose (ackRemaining : Bool)
  | timer (index : Nat)
  | microtask
  | startWrite (outcome : WriteOutcome)
  | finishWrite
  | settleWrite

/-- One callback.  A disposed drain has no further step: its methods return at
once and what is still pending reaches neither terminal nor backend. -/
def drainStep (d : TerminalOutputDrain) (event : Answers × Action) :
    Option TerminalOutputDrain :=
  if d.disposed then none
  else
    match event.2 with
    | .enqueue chunk => some (d.enqueue event.1 chunk.toQueuedOutputChunk)
    | .setMode mode => some (d.setMode event.1 mode)
    | .waitForIdle timeoutMs => some (d.waitForIdle event.1 timeoutMs)
    | .writeExternal => some d.writeExternal
    | .dispose ackRemaining => some (d.dispose ackRemaining)
    | .timer index => d.fireTimer event.1 index
    | .microtask => d.runMicrotask event.1
    | .startWrite outcome => d.startWrite outcome
    | .finishWrite => d.finishWrite
    | .settleWrite => d.settleWrite event.1

/-- Runs of one drain, from its construction on. -/
def drainSystem : System TerminalOutputDrain (Answers × Action) where
  init d := d = {}
  step := drainStep

end NiceTerm.Drain
