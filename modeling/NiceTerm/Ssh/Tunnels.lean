/-
The tunnels that run, as the tunnel manager keeps them: one tunnel id, any
number of calls that open it, and the tasks that they spawn.  Every lock
section is one step, with the sends that follow it.
-/
import NiceTerm.Lib.RustStr
import NiceTerm.Lib.Transition

namespace NiceTerm.Ssh.Tunnels

open RustStr (Str)

inductive TunnelRuntimeStatus
  | stopped
  | starting
  | running
  | reconnecting
  | disconnected
  | error
deriving DecidableEq, Repr

/-- The sender of a shutdown is named by the task that it stops, and a task by
the call of `open` that spawned it. -/
structure TunnelRuntimeEntry where
  generation : Nat
  status : TunnelRuntimeStatus
  error : Option Str
  shutdownTx : Option Nat
  connectionId : Option Str
deriving DecidableEq, Repr

inductive TunnelTaskExit
  | stopped
  | disconnected (message : Str)
  | error (message : Str)
deriving DecidableEq, Repr

def nextGeneration (generation : Nat) : Nat :=
  min (generation + 1) 18446744073709551615

def TunnelRuntimeEntry.new (connectionId : Option Str) : TunnelRuntimeEntry :=
  ⟨0, .stopped, none, none, connectionId⟩

def TunnelRuntimeEntry.hasLiveTask (entry : TunnelRuntimeEntry) : Bool :=
  entry.shutdownTx.isSome &&
    (entry.status == .starting || entry.status == .running ||
      entry.status == .reconnecting)

/-- What a lock section leaves under the id, and the tasks whose senders it
uses or drops: either way the task is told to stop. -/
abbrev Section := Option TunnelRuntimeEntry × List Nat

variable (entry : Option TunnelRuntimeEntry)

def isOpen : Bool :=
  entry.any TunnelRuntimeEntry.hasLiveTask

def beginStarting (entry : Option TunnelRuntimeEntry)
    (connectionId : Option Str) : Section :=
  let old := entry.getD (.new connectionId)
  (some { old with
      generation := nextGeneration old.generation
      connectionId := connectionId
      shutdownTx := none
      status := .starting
      error := none },
    old.shutdownTx.toList)

def close : Section :=
  let old := entry.getD (.new none)
  (some { old with
      generation := nextGeneration old.generation
      shutdownTx := none
      status := .stopped
      error := none },
    old.shutdownTx.toList)

def deleteRuntimeState : Section :=
  (none, (entry.bind (·.shutdownTx)).toList)

variable (connectionId : Str)

/-- `mark_enabled_tunnels_for_connection`, for a tunnel of the connection that
is to be open. -/
def markEnabled (status : TunnelRuntimeStatus) (error : Option Str)
    (stopTask : Bool) : Section :=
  let old := entry.getD (.new (some connectionId))
  if old.status = .reconnecting ∧ status = .disconnected then (some old, [])
  else if stopTask then
    (some { old with
        generation := nextGeneration old.generation
        shutdownTx := none
        status := status
        error := error },
      old.shutdownTx.toList)
  else (some { old with status := status, error := error }, [])

def markConnectionReconnecting : Section :=
  markEnabled entry connectionId .reconnecting none false

def markConnectionDisconnected : Section :=
  markEnabled entry connectionId .disconnected
    (some "SSH session disconnected".toList) true

/-- A sender that is not installed is used at once. -/
def installTask (entry : Option TunnelRuntimeEntry) (generation task : Nat)
    (connectionId : Option Str) : Section :=
  match entry with
  | none => (none, [task])
  | some old =>
    if old.generation = generation ∧ old.status = .starting then
      (some { old with
          status := .running
          error := none
          shutdownTx := some task
          connectionId := connectionId },
        old.shutdownTx.toList)
    else (some old, [task])

/-- The status and the error that the end of a task leaves. -/
def exitStatus (status : TunnelRuntimeStatus) (error : Option Str) :
    TunnelTaskExit → TunnelRuntimeStatus × Option Str
  | .stopped =>
    if status = .stopped then (status, error) else (.stopped, none)
  | .disconnected message =>
    if status = .reconnecting then (status, error)
    else (.disconnected, some message)
  | .error message => (.error, some message)

def finishTask (entry : Option TunnelRuntimeEntry) (generation : Nat)
    (exit : TunnelTaskExit) : Section :=
  match entry with
  | none => (none, [])
  | some old =>
    if old.generation ≠ generation then (some old, [])
    else
      (some { old with
          shutdownTx := none
          status := (exitStatus old.status old.error exit).1
          error := (exitStatus old.status old.error exit).2 },
        old.shutdownTx.toList)

def setGenerationStatus (generation : Nat) (status : TunnelRuntimeStatus)
    (error : Option Str) (clearHandles : Bool) : Section :=
  match entry with
  | none => (none, [])
  | some old =>
    if old.generation ≠ generation then (some old, [])
    else if clearHandles then
      (some { old with shutdownTx := none, status := status, error := error },
        old.shutdownTx.toList)
    else (some { old with status := status, error := error }, [])

/-- How far a call of `open` has come. -/
inductive OpenPhase
  | idle
  | checked (connectionId : Option Str)
  | starting (connectionId : Option Str)
  | spawned (connectionId : Option Str)
  | returned (ok : Bool)
deriving DecidableEq, Repr

inductive TaskPhase
  | absent
  | running
  | exited (exit : TunnelTaskExit)
  | finished
deriving DecidableEq, Repr

/-- `entry` is the manager's own state.  `told` are the tasks that have been
told to stop, `clock` counts the operations that have taken the entry over and
`began` which of them was the one of a call; `openedOk` says that a call has
returned `Ok` and that nothing has ended the tunnel since. -/
structure TunnelManager where
  entry : Option TunnelRuntimeEntry
  opens : Nat → OpenPhase
  generations : Nat → Nat
  tasks : Nat → TaskPhase
  told : Nat → Bool
  clock : Nat
  began : Nat → Nat
  openedOk : Bool

inductive TunnelEvent
  | check (i : Nat) (connectionId : Option Str)
  | beginStarting (i : Nat)
  | noConnection (i : Nat)
  | fail (i : Nat) (message : Str)
  | spawn (i : Nat)
  | installTask (i : Nat)
  | close
  | delete
  | markReconnecting (connectionId : Str)
  | markDisconnected (connectionId : Str)
  | exit (i : Nat) (exit : TunnelTaskExit)
  | finishTask (i : Nat)
deriving DecidableEq, Repr

namespace TunnelManager

open Option

def new : TunnelManager where
  entry := none
  opens := fun _ => .idle
  generations := fun _ => 0
  tasks := fun _ => .absent
  told := fun _ => false
  clock := 0
  began := fun _ => 0
  openedOk := false

variable (manager : TunnelManager)

/-- Leave a lock section. -/
def leave (result : Section) : TunnelManager :=
  { manager with
    entry := result.1
    told := fun i => manager.told i || decide (i ∈ result.2) }

variable (i : Nat)

def setOpen (phase : OpenPhase) : TunnelManager :=
  { manager with opens := Function.update manager.opens i phase }

def setTask (phase : TaskPhase) : TunnelManager :=
  { manager with tasks := Function.update manager.tasks i phase }

def setOk (ok : Bool) : TunnelManager :=
  { manager with openedOk := ok }

/-- The generation of the entry, which the lock section has just set. -/
def generation (manager : TunnelManager) : Nat :=
  (manager.entry.map TunnelRuntimeEntry.generation).getD 0

/-- A call takes the entry over. -/
def take : TunnelManager :=
  { manager with
    generations := Function.update manager.generations i manager.generation
    clock := manager.clock + 1
    began := Function.update manager.began i (manager.clock + 1) }

def tick : TunnelManager :=
  { manager with clock := manager.clock + 1 }

/-- A mark of the lost connection leaves a tunnel that reconnects alone. -/
def isReconnecting (entry : Option TunnelRuntimeEntry) : Bool :=
  entry.any fun entry => entry.status == .reconnecting

/-- The task belongs to the generation of the entry. -/
def isCurrent : Bool :=
  manager.entry.any fun entry => entry.generation == manager.generations i

def step (manager : TunnelManager) : TunnelEvent → Option TunnelManager
  | .check i connectionId =>
    match manager.opens i with
    | .idle =>
      if isOpen manager.entry then
        some ((manager.setOpen i (.returned true)).setOk true)
      else some (manager.setOpen i (.checked connectionId))
    | _ => none
  | .beginStarting i =>
    match manager.opens i with
    | .checked connectionId =>
      some (((manager.leave (beginStarting manager.entry connectionId)).take
        i).setOpen i (.starting connectionId))
    | _ => none
  | .noConnection i =>
    match manager.opens i with
    | .starting none =>
      some ((manager.setOpen i (.returned false)).setOk false)
    | _ => none
  | .fail i message =>
    match manager.opens i with
    | .starting (some _) =>
      some (((manager.leave (setGenerationStatus manager.entry
        (manager.generations i) .error (some message) true)).setOpen i
          (.returned false)).setOk false)
    | _ => none
  | .spawn i =>
    match manager.opens i with
    | .starting (some connectionId) =>
      some ((manager.setOpen i (.spawned (some connectionId))).setTask i
        .running)
    | _ => none
  | .installTask i =>
    match manager.opens i with
    | .spawned connectionId =>
      some (((manager.leave (installTask manager.entry
        (manager.generations i) i connectionId)).setOpen i
          (.returned true)).setOk true)
    | _ => none
  | .close => some (((manager.leave (close manager.entry)).tick).setOk false)
  | .delete =>
    some (((manager.leave (deleteRuntimeState manager.entry)).tick).setOk
      false)
  | .markReconnecting connectionId =>
    some (manager.leave
      (markConnectionReconnecting manager.entry connectionId))
  | .markDisconnected connectionId =>
    let marked := manager.leave
      (markConnectionDisconnected manager.entry connectionId)
    if isReconnecting manager.entry then some (marked.setOk false)
    else some (marked.tick.setOk false)
  | .exit i exit =>
    match manager.tasks i with
    | .running =>
      some ((manager.setTask i (.exited exit)).setOk
        (manager.openedOk && !manager.isCurrent i))
    | _ => none
  | .finishTask i =>
    match manager.tasks i with
    | .exited exit =>
      some (((manager.leave (finishTask manager.entry
        (manager.generations i) exit)).setTask i .finished).setOk
          (manager.openedOk && !manager.isCurrent i))
    | _ => none

def system : Transition.System TunnelManager TunnelEvent where
  init manager := manager = new
  step := step

/-- What each step does, and when it is taken. -/
inductive Stepped (manager : TunnelManager) :
    TunnelEvent → TunnelManager → Prop
  | alreadyOpen {i : Nat} {connectionId : Option Str}
      (hphase : manager.opens i = .idle)
      (hopen : isOpen manager.entry = true) :
      Stepped manager (.check i connectionId)
        ((manager.setOpen i (.returned true)).setOk true)
  | check {i : Nat} {connectionId : Option Str}
      (hphase : manager.opens i = .idle)
      (hopen : isOpen manager.entry = false) :
      Stepped manager (.check i connectionId)
        (manager.setOpen i (.checked connectionId))
  | beginStarting {i : Nat} {connectionId : Option Str}
      (hphase : manager.opens i = .checked connectionId) :
      Stepped manager (.beginStarting i)
        (((manager.leave (beginStarting manager.entry connectionId)).take
          i).setOpen i (.starting connectionId))
  | noConnection {i : Nat} (hphase : manager.opens i = .starting none) :
      Stepped manager (.noConnection i)
        ((manager.setOpen i (.returned false)).setOk false)
  | fail {i : Nat} {message connectionId : Str}
      (hphase : manager.opens i = .starting (some connectionId)) :
      Stepped manager (.fail i message)
        (((manager.leave (setGenerationStatus manager.entry
          (manager.generations i) .error (some message) true)).setOpen i
            (.returned false)).setOk false)
  | spawn {i : Nat} {connectionId : Str}
      (hphase : manager.opens i = .starting (some connectionId)) :
      Stepped manager (.spawn i)
        ((manager.setOpen i (.spawned (some connectionId))).setTask i .running)
  | installTask {i : Nat} {connectionId : Option Str}
      (hphase : manager.opens i = .spawned connectionId) :
      Stepped manager (.installTask i)
        (((manager.leave (installTask manager.entry (manager.generations i) i
          connectionId)).setOpen i (.returned true)).setOk true)
  | close : Stepped manager .close
      (((manager.leave (close manager.entry)).tick).setOk false)
  | delete : Stepped manager .delete
      (((manager.leave (deleteRuntimeState manager.entry)).tick).setOk false)
  | markReconnecting {connectionId : Str} :
      Stepped manager (.markReconnecting connectionId)
        (manager.leave (markConnectionReconnecting manager.entry connectionId))
  | spared {connectionId : Str}
      (hstatus : isReconnecting manager.entry = true) :
      Stepped manager (.markDisconnected connectionId)
        ((manager.leave (markConnectionDisconnected manager.entry
          connectionId)).setOk false)
  | markDisconnected {connectionId : Str}
      (hstatus : isReconnecting manager.entry = false) :
      Stepped manager (.markDisconnected connectionId)
        (((manager.leave (markConnectionDisconnected manager.entry
          connectionId)).tick).setOk false)
  | exit {i : Nat} {exit : TunnelTaskExit}
      (hphase : manager.tasks i = .running) :
      Stepped manager (.exit i exit) ((manager.setTask i (.exited exit)).setOk
          (manager.openedOk && !manager.isCurrent i))
  | finishTask {i : Nat} {exit : TunnelTaskExit}
      (hphase : manager.tasks i = .exited exit) :
      Stepped manager (.finishTask i)
        (((manager.leave (finishTask manager.entry (manager.generations i)
          exit)).setTask i .finished).setOk
            (manager.openedOk && !manager.isCurrent i))

theorem stepped_of_step {manager next : TunnelManager} {event : TunnelEvent}
    (h : manager.step event = some next) : Stepped manager event next := by
  cases event with
  | check i connectionId =>
    simp only [step] at h
    split at h
    · rename_i hphase
      split at h
      · rename_i hopen
        exact some.inj h ▸ .alreadyOpen hphase hopen
      · rename_i hopen
        exact some.inj h ▸ .check hphase (Bool.eq_false_iff.mpr hopen)
    · exact absurd h.symm (some_ne_none _)
  | beginStarting i =>
    simp only [step] at h
    split at h
    · rename_i hphase
      exact some.inj h ▸ .beginStarting hphase
    · exact absurd h.symm (some_ne_none _)
  | noConnection i =>
    simp only [step] at h
    split at h
    · rename_i hphase
      exact some.inj h ▸ .noConnection hphase
    · exact absurd h.symm (some_ne_none _)
  | fail i message =>
    simp only [step] at h
    split at h
    · rename_i hphase
      exact some.inj h ▸ .fail hphase
    · exact absurd h.symm (some_ne_none _)
  | spawn i =>
    simp only [step] at h
    split at h
    · rename_i hphase
      exact some.inj h ▸ .spawn hphase
    · exact absurd h.symm (some_ne_none _)
  | installTask i =>
    simp only [step] at h
    split at h
    · rename_i hphase
      exact some.inj h ▸ .installTask hphase
    · exact absurd h.symm (some_ne_none _)
  | close => exact some.inj h ▸ .close
  | delete => exact some.inj h ▸ .delete
  | markReconnecting connectionId =>
    exact some.inj h ▸ .markReconnecting
  | markDisconnected connectionId =>
    simp only [step] at h
    split at h
    · rename_i hstatus
      exact some.inj h ▸ .spared hstatus
    · rename_i hstatus
      exact some.inj h ▸ .markDisconnected (Bool.eq_false_iff.mpr hstatus)
  | exit i exit =>
    simp only [step] at h
    split at h
    · rename_i hphase
      exact some.inj h ▸ .exit hphase
    · exact absurd h.symm (some_ne_none _)
  | finishTask i =>
    simp only [step] at h
    split at h
    · rename_i hphase
      exact some.inj h ▸ .finishTask hphase
    · exact absurd h.symm (some_ne_none _)

theorem setOpen_self (phase : OpenPhase) :
    (manager.setOpen i phase).opens i = phase := by
  simp [setOpen]

theorem setOpen_of_ne {i j : Nat} (phase : OpenPhase)
    (h : j ≠ i) : (manager.setOpen i phase).opens j = manager.opens j := by
  simp [setOpen, h]

theorem setTask_self (phase : TaskPhase) :
    (manager.setTask i phase).tasks i = phase := by
  simp [setTask]

theorem setTask_of_ne {i j : Nat} (phase : TaskPhase)
    (h : j ≠ i) : (manager.setTask i phase).tasks j = manager.tasks j := by
  simp [setTask, h]

end TunnelManager

end NiceTerm.Ssh.Tunnels
