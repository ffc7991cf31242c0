/-
The coordinator that acknowledges terminal output to the backend.  Terminals
of one session take turns as leases; each session has one acknowledgement in
flight, and a failed one is tried again while its lease is open.
-/
import NiceTerm.Lib.Transition

namespace NiceTerm.Ack

open Transition

structure OutputAckCoordinatorOptions where
  retryBaseMs : Nat := 250
  retryMaxMs : Nat := 5000
  failureLogIntervalMs : Nat := 30000
deriving DecidableEq, Repr

structure AckLeaseState where
  id : Nat
  generation : Nat
  accepting : Bool := true
  disposed : Bool := false
  pendingBytes : Nat := 0
  retryAttempt : Nat := 0
  finalAttemptAvailable : Bool := false
deriving DecidableEq, Repr

def AckLeaseState.sent (lease : AckLeaseState) : AckLeaseState :=
  { lease with
    pendingBytes := 0
    finalAttemptAvailable :=
      if lease.disposed then false else lease.finalAttemptAvailable }

def AckLeaseState.closed (lease : AckLeaseState) : AckLeaseState :=
  { lease with
    accepting := false
    disposed := true
    finalAttemptAvailable := true }

structure AckBatch where
  leaseId : Nat
  bytes : Nat
deriving DecidableEq, Repr

structure RetryTimer where
  leaseId : Nat
  handle : Nat
deriving DecidableEq, Repr

structure SessionAckState where
  sessionId : String
  activeLeaseId : Option Nat := none
  leases : List AckLeaseState := []
  leaseOrder : List Nat := []
  inFlight : Option AckBatch := none
  retryTimer : Option RetryTimer := none
  lastFailureLogAt : Option Nat := none
  suppressedFailures : Nat := 0
deriving DecidableEq, Repr

structure OutputAckFailureDetails where
  sessionId : String
  generation : Nat
  bytes : Nat
  pendingBytes : Nat
  retryDelayMs : Nat
  suppressedFailures : Nat
deriving DecidableEq, Repr

/-- What happens to the bytes of a lease.  An attempt is `last` when the lease
was disposed before it. -/
inductive AckEvent
  | acquired (leaseId : Nat)
  | accepted (leaseId bytes : Nat)
  | attempted (leaseId bytes : Nat) (last : Bool)
  | delivered (leaseId bytes : Nat)
  | failed (leaseId bytes : Nat)
  | discarded (leaseId bytes : Nat)
deriving DecidableEq, Repr

/-- A session's state with the promises and timers that hold on to it.  No
step reads `history`, the events of its leases with the latest first. -/
structure Session where
  state : SessionAckState
  invokes : List AckBatch := []
  timers : List RetryTimer := []
  nextHandle : Nat := 0
  failures : List OutputAckFailureDetails := []
  history : List AckEvent := []
deriving DecidableEq, Repr

namespace SessionAckState

variable (state : SessionAckState)

def lease? (leaseId : Nat) : Option AckLeaseState :=
  state.leases.find? fun lease => lease.id == leaseId

def setLease (lease : AckLeaseState) (state : SessionAckState) :
    SessionAckState :=
  { state with
    leases := state.leases.map fun other =>
      if other.id = lease.id then lease else other }

def completed (lease : AckLeaseState) : Bool :=
  lease.disposed && lease.pendingBytes == 0 &&
    state.inFlight.map AckBatch.leaseId != some lease.id &&
    state.retryTimer.map RetryTimer.leaseId != some lease.id

def pruneCompletedLeases : SessionAckState :=
  { state with
    leases := state.leases.filter fun lease =>
      !(state.leaseOrder.contains lease.id && state.completed lease)
    leaseOrder := state.leaseOrder.filter fun leaseId =>
      match state.lease? leaseId with
      | none => false
      | some lease => !state.completed lease }

/-- The test of `deleteSessionIfIdle` on the state itself. -/
def idle : Bool :=
  state.activeLeaseId.isNone && state.leases.isEmpty &&
    state.inFlight.isNone && state.retryTimer.isNone

end SessionAckState

namespace Session

def setLease (lease : AckLeaseState) (s : Session) : Session :=
  { s with state := s.state.setLease lease }

def prune (s : Session) : Session :=
  { s with state := s.state.pruneCompletedLeases }

def attempt (lease : AckLeaseState) (s : Session) : Session :=
  let batch : AckBatch := ⟨lease.id, lease.pendingBytes⟩
  { s with
    state := { s.state.setLease lease.sent with inFlight := some batch }
    invokes := s.invokes ++ [batch]
    history := .attempted lease.id lease.pendingBytes lease.disposed ::
      s.history }

def discard (lease : AckLeaseState) (s : Session) : Session :=
  { s.setLease { lease with pendingBytes := 0 } with
    history := .discarded lease.id lease.pendingBytes :: s.history }

/-- The loop of `pump`; the flag says that it ran to its end. -/
def pumpLoop : List Nat → Session → Session × Bool
  | [], s => (s, true)
  | leaseId :: rest, s =>
    match s.state.lease? leaseId with
    | none => pumpLoop rest s
    | some lease =>
      if lease.pendingBytes = 0 then pumpLoop rest s
      else if lease.disposed && !lease.finalAttemptAvailable then
        pumpLoop rest (s.discard lease)
      else (s.attempt lease, false)

/-- `pump` up to `deleteSessionIfIdle`, which follows when the flag is set. -/
def pump (s : Session) : Session × Bool :=
  if s.state.inFlight.isSome || s.state.retryTimer.isSome then (s, false)
  else
    let pruned := s.prune
    let (after, ended) := pumpLoop pruned.state.leaseOrder pruned
    if ended then (after.prune, true) else (after, false)

/-- The part of `acquire` that registers the lease. -/
def addLease (leaseId generation : Nat) (s : Session) : Session :=
  { s with
    state :=
      { s.state with
        activeLeaseId := some leaseId
        leases := s.state.leases ++ [{ id := leaseId, generation }]
        leaseOrder := s.state.leaseOrder ++ [leaseId] }
    history := .acquired leaseId :: s.history }

/-- `addAck` for a lease that accepts, up to its `pump`. -/
def accept (lease : AckLeaseState) (bytes : Nat) (s : Session) : Session :=
  { s.setLease { lease with pendingBytes := lease.pendingBytes + bytes } with
    history := .accepted lease.id bytes :: s.history }

/-- `closeLease` for a lease that is not disposed, up to its `pump`. -/
def close (lease : AckLeaseState) (s : Session) : Session :=
  let state := s.state.setLease lease.closed
  let state :=
    if state.activeLeaseId = some lease.id then
      { state with activeLeaseId := none }
    else state
  match state.retryTimer with
  | none => { s with state }
  | some timer =>
    if timer.leaseId = lease.id then
      { s with
        state := { state with retryTimer := none }
        timers := s.timers.filter fun other =>
          other.handle != timer.handle }
    else { s with state }

/-- `completeBatch`, up to its `pump`. -/
def complete (leaseId : Nat) (s : Session) : Session :=
  let state := { s.state with inFlight := none }
  match state.lease? leaseId with
  | none => { s with state }
  | some lease =>
    { s with state := state.setLease { lease with retryAttempt := 0 } }

variable (options : OutputAckCoordinatorOptions)

def logFailure (now : Nat) (lease : AckLeaseState) (bytes retryDelayMs : Nat)
    (s : Session) : Session :=
  let recent :=
    match s.state.lastFailureLogAt with
    | none => false
    | some loggedAt => decide (now < loggedAt + options.failureLogIntervalMs)
  if recent then
    { s with state := { s.state with
        suppressedFailures := s.state.suppressedFailures + 1 } }
  else
    { s with
      state := { s.state with
        suppressedFailures := 0
        lastFailureLogAt := some now }
      failures := s.failures ++
        [{ sessionId := s.state.sessionId
           generation := lease.generation
           bytes
           pendingBytes := lease.pendingBytes
           retryDelayMs
           suppressedFailures := s.state.suppressedFailures }] }

/-- `failBatch` for a lease that is disposed, up to its `pump`. -/
def failDisposed (now : Nat)
    (lease : AckLeaseState) (bytes : Nat) (s : Session) : Session :=
  let restored := { lease with pendingBytes := lease.pendingBytes + bytes }
  if lease.finalAttemptAvailable then
    (s.setLease restored).logFailure options now restored bytes 0
  else
    (s.discard restored).logFailure options now
      { restored with pendingBytes := 0 } bytes 0

/-- `failBatch` for an open lease: the bytes go back and a timer is set. -/
def failOpen (now : Nat)
    (lease : AckLeaseState) (bytes : Nat) (s : Session) : Session :=
  let restored :=
    { lease with
      pendingBytes := lease.pendingBytes + bytes
      retryAttempt := lease.retryAttempt + 1 }
  let retryDelayMs :=
    min options.retryMaxMs
      (options.retryBaseMs * Nat.pow 2 (min lease.retryAttempt 30))
  let logged :=
    (s.setLease restored).logFailure options now restored bytes retryDelayMs
  let timer : RetryTimer := ⟨lease.id, logged.nextHandle⟩
  { logged with
    state := { logged.state with retryTimer := some timer }
    timers := logged.timers ++ [timer]
    nextHandle := logged.nextHandle + 1 }

end Session

/-- What `acquire` returns; its functions hold on to the session's state. -/
structure LeaseHandle where
  ref : Nat
  leaseId : Nat
  leaseDisposed : Bool := false
deriving DecidableEq, Repr

/-- `objects` holds every session state made so far; `sessions` is the map,
which names them by their position. -/
structure OutputAckCoordinator where
  options : OutputAckCoordinatorOptions := {}
  sessions : List (String × Nat) := []
  objects : List Session := []
  nextLeaseId : Nat := 1
  handles : List LeaseHandle := []
deriving DecidableEq, Repr

namespace OutputAckCoordinator

variable (ref : Nat) (s : Session)

def put (c : OutputAckCoordinator) : OutputAckCoordinator :=
  { c with objects := c.objects.set ref s }

def deleteSessionIfIdle (c : OutputAckCoordinator) : OutputAckCoordinator :=
  if s.state.idle && c.sessions.lookup s.state.sessionId == some ref then
    { c with
      sessions := c.sessions.filter fun entry =>
        entry.1 != s.state.sessionId }
  else c

def pump (ref : Nat) (s : Session) (c : OutputAckCoordinator) :
    OutputAckCoordinator :=
  let (after, ended) := s.pump
  if ended then (c.put ref after).deleteSessionIfIdle ref after
  else c.put ref after

def maxSafeInteger : Int := 9007199254740991

/-- A number that is no integer is refused as one that is not positive. -/
def addAck (leaseId : Nat) (bytes : Int)
    (c : OutputAckCoordinator) : OutputAckCoordinator :=
  if ¬ (-maxSafeInteger ≤ bytes ∧ bytes ≤ maxSafeInteger) ∨ bytes ≤ 0 then c
  else
    match s.state.lease? leaseId with
    | none => c
    | some lease =>
      if !lease.accepting || s.state.activeLeaseId != some leaseId then c
      else c.pump ref (s.accept lease bytes.toNat)

def closeLease (leaseId : Nat)
    (c : OutputAckCoordinator) : OutputAckCoordinator :=
  match s.state.lease? leaseId with
  | none => c
  | some lease => if lease.disposed then c else c.pump ref (s.close lease)

def getOrCreateSession (sessionId : String) (c : OutputAckCoordinator) :
    Nat × OutputAckCoordinator :=
  match c.sessions.lookup sessionId with
  | some ref => (ref, c)
  | none =>
    (c.objects.length,
      { c with
        sessions := (sessionId, c.objects.length) :: c.sessions
        objects := c.objects ++ [{ state := { sessionId } }] })

def completeBatch (leaseId : Nat)
    (c : OutputAckCoordinator) : OutputAckCoordinator :=
  if s.state.inFlight.map AckBatch.leaseId ≠ some leaseId then c.put ref s
  else c.pump ref (s.complete leaseId)

def failBatch (leaseId bytes now : Nat)
    (c : OutputAckCoordinator) : OutputAckCoordinator :=
  if s.state.inFlight.map AckBatch.leaseId ≠ some leaseId then c.put ref s
  else
    let s := { s with state := { s.state with inFlight := none } }
    match s.state.lease? leaseId with
    | none => c.pump ref s
    | some lease =>
      if lease.disposed then
        c.pump ref (s.failDisposed c.options now lease bytes)
      else c.put ref (s.failOpen c.options now lease bytes)

def fireRetry (timer : RetryTimer)
    (c : OutputAckCoordinator) : OutputAckCoordinator :=
  if s.state.retryTimer.map RetryTimer.leaseId ≠ some timer.leaseId then
    c.put ref s
  else c.pump ref { s with state := { s.state with retryTimer := none } }

/-- `acquire` between `getOrCreateSession` and its last `pump`. -/
def openLease (generation : Nat)
    (c : OutputAckCoordinator) : OutputAckCoordinator :=
  let previousLeaseId := s.state.activeLeaseId
  let added := s.addLease c.nextLeaseId generation
  let c := put ref added
    { c with
      nextLeaseId := c.nextLeaseId + 1
      handles := c.handles ++ [LeaseHandle.mk ref c.nextLeaseId false] }
  match previousLeaseId with
  | none => c
  | some previous => c.closeLease ref added previous

def acquire (sessionId : String) (generation : Nat)
    (c : OutputAckCoordinator) : Option OutputAckCoordinator := do
  let (ref, c) := c.getOrCreateSession sessionId
  let s ← c.objects[ref]?
  let c := c.openLease ref s generation
  let s ← c.objects[ref]?
  some (c.pump ref s)

end OutputAckCoordinator

inductive Event
  | acquire (sessionId : String) (generation : Nat)
  | ack (handle : Nat) (bytes : Int)
  | dispose (handle : Nat)
  | invokeSucceeds (ref index : Nat)
  | invokeFails (ref index now : Nat)
  | retryTimer (ref index : Nat)
deriving DecidableEq, Repr

/-- One callback run to its end. -/
def coordinatorStep (c : OutputAckCoordinator) (event : Event) :
    Option OutputAckCoordinator :=
  match event with
  | .acquire sessionId generation => c.acquire sessionId generation
  | .ack handle bytes => do
    let lease ← c.handles[handle]?
    let s ← c.objects[lease.ref]?
    if lease.leaseDisposed then some c
    else some (c.addAck lease.ref s lease.leaseId bytes)
  | .dispose handle => do
    let lease ← c.handles[handle]?
    let s ← c.objects[lease.ref]?
    if lease.leaseDisposed then some c
    else
      let c := { c with
        handles := c.handles.set handle { lease with leaseDisposed := true } }
      some (c.closeLease lease.ref s lease.leaseId)
  | .invokeSucceeds ref index => do
    let s ← c.objects[ref]?
    let batch ← s.invokes[index]?
    let settled := { s with
      invokes := s.invokes.eraseIdx index
      history := .delivered batch.leaseId batch.bytes :: s.history }
    some (c.completeBatch ref settled batch.leaseId)
  | .invokeFails ref index now => do
    let s ← c.objects[ref]?
    let batch ← s.invokes[index]?
    let settled := { s with
      invokes := s.invokes.eraseIdx index
      history := .failed batch.leaseId batch.bytes :: s.history }
    some (c.failBatch ref settled batch.leaseId batch.bytes now)
  | .retryTimer ref index => do
    let s ← c.objects[ref]?
    let timer ← s.timers[index]?
    some (c.fireRetry ref { s with timers := s.timers.eraseIdx index } timer)

/-- Runs of one coordinator, whatever its options are. -/
def coordinatorSystem : System OutputAckCoordinator Event where
  init c := ∃ options, c = { options }
  step := coordinatorStep

end NiceTerm.Ack
