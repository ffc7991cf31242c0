/-
The session-output coalescer: its state, and what each operation does while
it holds the lock.  What an operation does after the lock is released is
returned as a list of actions, in program order.
-/
import NiceTerm.Lib.RustStr

namespace NiceTerm.Output

open RustStr

def outputNormalBatchBytes : Nat := 64 * 1024
def outputFloodBatchBytes : Nat := 128 * 1024
def outputPauseHighWatermarkBytes : Nat := 1024 * 1024
def outputResumeLowWatermarkBytes : Nat := 128 * 1024
def outputCloseFlushMaxBytes : Nat := 1024 * 1024
def outputCatastrophicBacklogBytes : Nat := 64 * 1024 * 1024

/-- `usize::saturating_add` on a 64-bit target. -/
def saturatingAdd (a b : Nat) : Nat := min (a + b) (2 ^ 64 - 1)

/-- `wrapping_add(1)` on a `u64`. -/
def wrappingSucc (n : Nat) : Nat := (n + 1) % 2 ^ 64

structure TerminalOutputPayload where
  data : Str
  bytes : Nat
  droppedBytes : Nat
deriving Repr, DecidableEq

structure OutputState where
  attached : Bool := false
  pending : List Str := []
  pendingBytes : Nat := 0
  unackedBytes : Nat := 0
  nextFlushId : Nat := 0
  scheduledFlushId : Option Nat := none
  flowPaused : Bool := false
  catastrophicCloseSent : Bool := false
deriving Repr, DecidableEq

structure FlushResult where
  payload : Option TerminalOutputPayload
  flowChange : Option Bool
  reschedule : Bool
deriving Repr, DecidableEq

/-- What a caller still has to do once it has left a critical section.
`flushPending` and `reschedule` take the lock again. -/
inductive Action where
  | sendFlowChange (paused : Bool)
  | sendCloseForOverflow
  | scheduleFlush (flushId : Nat)
  | flushPending
  | sink (payload : TerminalOutputPayload)
  | reschedule
deriving Repr, DecidableEq

variable (state : OutputState)

def OutputState.backlog : Nat :=
  saturatingAdd state.pendingBytes state.unackedBytes

def updateFlowState : Option Bool × OutputState :=
  if !state.flowPaused && outputPauseHighWatermarkBytes ≤ state.backlog then
    (some true, { state with flowPaused := true })
  else if state.flowPaused && state.backlog ≤ outputResumeLowWatermarkBytes then
    (some false, { state with flowPaused := false })
  else (none, state)

@[simp] theorem updateFlowState_pending :
    (updateFlowState state).2.pending = state.pending := by
  unfold updateFlowState
  split
  · rfl
  · split <;> rfl

def shouldCloseForCatastrophicBacklog :
    Bool × OutputState :=
  if state.catastrophicCloseSent ||
      state.backlog < outputCatastrophicBacklogBytes then (false, state)
  else (true, { state with catastrophicCloseSent := true })

def batchLimit : Nat :=
  if state.flowPaused || outputPauseHighWatermarkBytes ≤ state.backlog then
    outputFloodBatchBytes
  else outputNormalBatchBytes

def byteBoundaryAtOrBefore (text : Str) (maxBytes : Nat) : Nat :=
  if len text ≤ maxBytes then len text
  else
    let index := floorCharBoundary text maxBytes
    if index = 0 then
      match text with
      | [] => len text
      | [_] => len text
      | c :: _ :: _ => c.utf8Size
    else index

def payloadFromData (data : Str) : TerminalOutputPayload × OutputState :=
  (⟨data, len data, 0⟩,
    { state with unackedBytes := saturatingAdd state.unackedBytes (len data) })

/-- The loop of `take_pending_batch`: what is left of `remaining` and of
`pending_bytes`, and the data gathered so far. -/
def takeBatchLoop (remaining pendingBytes : Nat) (data : Str) :
    List Str → Str × List Str × Nat
  | [] => (data, [], pendingBytes)
  | front :: rest =>
    if remaining = 0 then (data, front :: rest, pendingBytes)
    else if len front ≤ remaining then
      takeBatchLoop (remaining - len front) (pendingBytes - len front)
        (data ++ front) rest
    else
      let parts := splitAt front (byteBoundaryAtOrBefore front remaining)
      (data ++ parts.1, parts.2 :: rest, pendingBytes - len parts.1)

def takePendingBatch :
    Option TerminalOutputPayload × OutputState :=
  if state.pending = [] then (none, state)
  else
    let taken := takeBatchLoop (batchLimit state) state.pendingBytes []
      state.pending
    let state := { state with pending := taken.2.1, pendingBytes := taken.2.2 }
    if taken.1 = [] then (none, state)
    else
      let result := payloadFromData state taken.1
      (some result.1, result.2)

/-- The loop of `take_all_pending`. -/
def takeAllLoop (pendingBytes : Nat) (data : Str) : List Str → Str × Nat
  | [] => (data, pendingBytes)
  | chunk :: rest => takeAllLoop (pendingBytes - len chunk) (data ++ chunk) rest

def takeAllPending :
    Option TerminalOutputPayload × OutputState :=
  if state.pending = [] then (none, state)
  else
    let taken := takeAllLoop state.pendingBytes [] state.pending
    let state := { state with pending := [], pendingBytes := taken.2 }
    if taken.1 = [] then (none, state)
    else
      let result := payloadFromData state taken.1
      (some result.1, result.2)

/-- The loop of `trim_pending_to_max`. -/
def trimLoop (bytesToDrop pendingBytes : Nat) : List Str → List Str × Nat
  | [] => ([], pendingBytes)
  | front :: rest =>
    if bytesToDrop = 0 then (front :: rest, pendingBytes)
    else if len front ≤ bytesToDrop then
      trimLoop (bytesToDrop - len front) (pendingBytes - len front) rest
    else
      let parts := splitAt front (byteBoundaryAtOrBefore front bytesToDrop)
      (parts.2 :: rest, pendingBytes - len parts.1)

def trimPendingToMax (maxBytes : Nat) : OutputState :=
  if state.pendingBytes ≤ maxBytes then state
  else
    let trimmed := trimLoop (state.pendingBytes - maxBytes) state.pendingBytes
      state.pending
    { state with pending := trimmed.1, pendingBytes := trimmed.2 }

def flushFromState : FlushResult × OutputState :=
  let taken := takePendingBatch state
  let flow := updateFlowState taken.2
  (⟨taken.1, flow.1, flow.2.attached && !flow.2.pending.isEmpty⟩, flow.2)

def flushAllFromState : FlushResult × OutputState :=
  let taken := takeAllPending (trimPendingToMax state outputCloseFlushMaxBytes)
  let flow := updateFlowState taken.2
  (⟨taken.1, flow.1, false⟩, flow.2)

def sendFlowChange (flowChange : Option Bool) : List Action :=
  (flowChange.map Action.sendFlowChange).toList

def scheduleFlush (flushId : Option Nat) : List Action :=
  (flushId.map Action.scheduleFlush).toList

/-- `apply_flush_result`: the sink call, the flow command, and then a second
critical section when output is left. -/
def applyFlushResult (result : FlushResult) : List Action :=
  (result.payload.map Action.sink).toList ++
    sendFlowChange result.flowChange ++
    if result.reschedule then [.reschedule] else []

/-- Forget the armed timer and move on to a fresh flush id. -/
def OutputState.disarm : OutputState :=
  { state with
    nextFlushId := wrappingSucc state.nextFlushId
    scheduledFlushId := none }

/-- Arm a timer under a fresh flush id. -/
def OutputState.arm : Option Nat × OutputState :=
  let flushId := wrappingSucc state.nextFlushId
  (some flushId,
    { state with nextFlushId := flushId, scheduledFlushId := some flushId })

def pushOwned (text : Str) (state : OutputState) : List Action × OutputState :=
  if text = [] then ([], state)
  else
    let wasEmpty := state.pending.isEmpty
    let state := { state with
      pendingBytes := saturatingAdd state.pendingBytes (len text)
      pending := state.pending ++ [text] }
    let flow := updateFlowState state
    let overflow := shouldCloseForCatastrophicBacklog flow.2
    let state := overflow.2
    let before := sendFlowChange flow.1 ++
      if overflow.1 then [Action.sendCloseForOverflow] else []
    if state.attached && batchLimit state ≤ state.pendingBytes then
      (before ++ [.flushPending], state.disarm)
    else if state.attached && wasEmpty && state.scheduledFlushId.isNone then
      (before ++ scheduleFlush state.arm.1, state.arm.2)
    else (before, state)

def ack (bytes : Nat) (state : OutputState) : List Action × OutputState :=
  if bytes = 0 then ([], state)
  else
    let flow := updateFlowState
      { state with unackedBytes := state.unackedBytes - bytes }
    let state := flow.2
    if state.attached && !state.pending.isEmpty &&
        state.scheduledFlushId.isNone then
      (sendFlowChange flow.1 ++ scheduleFlush state.arm.1, state.arm.2)
    else (sendFlowChange flow.1, state)

def attach : List Action × OutputState :=
  let result := flushFromState
    { state with attached := true, unackedBytes := 0 }.disarm
  (applyFlushResult result.1, result.2)

def detach : List Action × OutputState :=
  let flow := updateFlowState
    { state with attached := false, unackedBytes := 0 }.disarm
  (sendFlowChange flow.1, flow.2)

def close : List Action × OutputState :=
  let result := flushAllFromState state.disarm
  (applyFlushResult result.1, result.2)

def flushIfScheduled (flushId : Nat) (state : OutputState) :
    List Action × OutputState :=
  if state.scheduledFlushId ≠ some flushId then ([], state)
  else
    let state := { state with scheduledFlushId := none }
    if !state.attached then ([], state)
    else
      let result := flushFromState state
      (applyFlushResult result.1, result.2)

def flushPending : List Action × OutputState :=
  if !state.attached then ([], state)
  else
    let result := flushFromState state.disarm
    (applyFlushResult result.1, result.2)

/-- The second critical section of `apply_flush_result`. -/
def reschedule : List Action × OutputState :=
  if !state.attached || state.pending.isEmpty ||
      state.scheduledFlushId.isSome then ([], state)
  else (scheduleFlush state.arm.1, state.arm.2)

end NiceTerm.Output
