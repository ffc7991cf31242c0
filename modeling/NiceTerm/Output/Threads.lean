/-
Callers of the coalescer interleave.  A critical section is one step; each
action a caller does after releasing the lock is a later step of its own.
-/
import NiceTerm.Lib.Ledger
import NiceTerm.Output.Coalescer

namespace NiceTerm.Output

open RustStr

/-- The commands the coalescer sends to the session's command loop. -/
inductive SessionCommand where
  | pauseOutput
  | resumeOutput
  | close
deriving Repr, DecidableEq

/-- The public operations of the coalescer. -/
inductive Operation where
  | push (text : Str)
  | ack (bytes : Nat)
  | attach
  | detach
  | close
deriving Repr, DecidableEq

inductive Event where
  | call (operation : Operation)
  | timer (index : Nat)
  | perform (index : Nat)
deriving Repr, DecidableEq

/-- The coalescer, the callers between their critical sections, the sleeping
flush tasks, and what the sink and the command channel have received.  The
last four fields record history only: the text pushed, the part of it that
`close` has not dropped, and the flow commands and batches computed under the
lock, in lock order. -/
structure World where
  state : OutputState := {}
  threads : List (List Action) := []
  timers : List Nat := []
  sunk : List TerminalOutputPayload := []
  commands : List SessionCommand := []
  pushed : Str := []
  kept : Str := []
  issued : List SessionCommand := []
  taken : List TerminalOutputPayload := []
deriving Repr, DecidableEq

def flowCommand (paused : Bool) : SessionCommand :=
  if paused then .pauseOutput else .resumeOutput

def Action.flow? : Action → Option SessionCommand
  | .sendFlowChange paused => some (flowCommand paused)
  | _ => none

def Action.payload? : Action → Option TerminalOutputPayload
  | .sink payload => some payload
  | _ => none

def SessionCommand.flow? : SessionCommand → Option SessionCommand
  | .close => none
  | command => some command

/-- The pause and resume commands sent so far. -/
def World.flowSent (w : World) : List SessionCommand :=
  w.commands.filterMap SessionCommand.flow?

/-- Everything the callers still have to do. -/
def World.outstanding (w : World) : List Action :=
  w.threads.flatten

def payloadText (payloads : List TerminalOutputPayload) : Str :=
  payloads.flatMap TerminalOutputPayload.data

def OutputState.pendingText (state : OutputState) : Str :=
  state.pending.flatten

def Operation.run : Operation → OutputState → List Action × OutputState
  | .push text => pushOwned text
  | .ack bytes => Output.ack bytes
  | .attach => Output.attach
  | .detach => Output.detach
  | .close => Output.close

/-- The text `close` keeps: what was already taken, and the pending chunks
that survive the trim. -/
def keptAfterClose (w : World) : Str :=
  w.kept.take (w.kept.length - w.state.pendingText.length) ++
    (trimPendingToMax w.state outputCloseFlushMaxBytes).pendingText

def Operation.pushedAfter : Operation → World → Str
  | .push text, w => w.pushed ++ text
  | _, w => w.pushed

def Operation.keptAfter : Operation → World → Str
  | .push text, w => w.kept ++ text
  | .close, w => keptAfterClose w
  | _, w => w.kept

/-- Leave a critical section: publish its state and record what it computed. -/
def World.locked (w : World) (result : List Action × OutputState) : World :=
  { w with
    state := result.2
    issued := w.issued ++ result.1.filterMap Action.flow?
    taken := w.taken ++ result.1.filterMap Action.payload? }

/-- A new caller runs its first critical section. -/
def World.enter (w : World) (result : List Action × OutputState) : World :=
  { w.locked result with threads := w.threads ++ [result.1] }

/-- Caller `index` does its next action; `rest` is what it still has to do. -/
def World.perform (w : World) (index : Nat) (rest : List Action) :
    Action → World
  | .sendFlowChange paused =>
    { w with
      commands := w.commands ++ [flowCommand paused]
      threads := w.threads.set index rest }
  | .sendCloseForOverflow =>
    { w with
      commands := w.commands ++ [.close]
      threads := w.threads.set index rest }
  | .scheduleFlush flushId =>
    { w with
      timers := w.timers ++ [flushId]
      threads := w.threads.set index rest }
  | .flushPending =>
    let result := flushPending w.state
    { w.locked result with
      threads := w.threads.set index (result.1 ++ rest) }
  | .sink payload =>
    { w with
      sunk := w.sunk ++ [payload]
      threads := w.threads.set index rest }
  | .reschedule =>
    let result := reschedule w.state
    { w.locked result with
      threads := w.threads.set index (result.1 ++ rest) }

def World.step (w : World) : Event → Option World
  | .call operation =>
    some { w.enter (operation.run w.state) with
      pushed := operation.pushedAfter w
      kept := operation.keptAfter w }
  | .timer index =>
    match w.timers[index]? with
    | none => none
    | some flushId =>
      some ({ w with timers := w.timers.eraseIdx index }.enter
        (flushIfScheduled flushId w.state))
  | .perform index =>
    match w.threads[index]? with
    | some (action :: rest) => some (w.perform index rest action)
    | _ => none

def system : Transition.System World Event where
  init w := w = {}
  step := World.step

/-- The critical sections, each named by what runs under the lock. -/
inductive Section where
  | call (operation : Operation)
  | flushIfScheduled (flushId : Nat)
  | flushPending
  | reschedule

def Section.run : Section → OutputState → List Action × OutputState
  | .call operation => operation.run
  | .flushIfScheduled flushId => Output.flushIfScheduled flushId
  | .flushPending => Output.flushPending
  | .reschedule => Output.reschedule

def Section.pushedAfter : Section → World → Str
  | .call operation, w => operation.pushedAfter w
  | _, w => w.pushed

def Section.keptAfter : Section → World → Str
  | .call operation, w => operation.keptAfter w
  | _, w => w.kept

/-- The next action of the caller an event schedules. -/
def World.nextAction (w : World) : Event → Option Action
  | .perform index => (w.threads[index]?).bind List.head?
  | _ => none

/-- All a step can do: it runs one critical section or none, the caller it
schedules does one action or none, and `fresh` is what the section leaves for
after the lock. -/
structure StepEffect (w : World) (event : Event) (t : World)
    (fresh : List Action) : Prop where
  core : (fresh = [] ∧ t.state = w.state ∧ t.pushed = w.pushed ∧
      t.kept = w.kept) ∨
    ∃ criticalSection : Section,
      criticalSection.run w.state = (fresh, t.state) ∧
        t.pushed = criticalSection.pushedAfter w ∧
        t.kept = criticalSection.keptAfter w
  outstanding : ((w.nextAction event).toList ++ t.outstanding).Perm
    (w.outstanding ++ fresh)
  issued : t.issued = w.issued ++ fresh.filterMap Action.flow?
  taken : t.taken = w.taken ++ fresh.filterMap Action.payload?
  flowSent : t.flowSent =
    w.flowSent ++ ((w.nextAction event).bind Action.flow?).toList
  sunk : t.sunk = w.sunk ++ ((w.nextAction event).bind Action.payload?).toList

variable {w t : World} {event : Event}

theorem enter_effect (criticalSection : Section)
    (hevent : w.nextAction event = none)
    (hstate : t.state = (criticalSection.run w.state).2)
    (hpushed : t.pushed = criticalSection.pushedAfter w)
    (hkept : t.kept = criticalSection.keptAfter w)
    (hthreads : t.threads = w.threads ++ [(criticalSection.run w.state).1])
    (hissued : t.issued = w.issued ++
      (criticalSection.run w.state).1.filterMap Action.flow?)
    (htaken : t.taken = w.taken ++
      (criticalSection.run w.state).1.filterMap Action.payload?)
    (hcommands : t.commands = w.commands) (hsunk : t.sunk = w.sunk) :
    StepEffect w event t (criticalSection.run w.state).1 where
  core := .inr ⟨criticalSection, Prod.ext rfl hstate.symm, hpushed, hkept⟩
  outstanding := by simp [World.outstanding, hevent, hthreads]
  issued := hissued
  taken := htaken
  flowSent := by simp [World.flowSent, hevent, hcommands]
  sunk := by simp [hevent, hsunk]

variable {action : Action} {rest : List Action}

section

variable {index : Nat} (h : w.threads[index]? = some (action :: rest))
include h

open World

theorem perform_effect (hstate : t.state = w.state)
    (hpushed : t.pushed = w.pushed) (hkept : t.kept = w.kept)
    (hthreads : t.threads = w.threads.set index rest)
    (hissued : t.issued = w.issued) (htaken : t.taken = w.taken)
    (hsent : t.flowSent = w.flowSent ++ action.flow?.toList)
    (hsunk : t.sunk = w.sunk ++ action.payload?.toList) :
    StepEffect w (.perform index) t [] where
  core := .inl ⟨rfl, hstate, hpushed, hkept⟩
  outstanding := by
    simpa [World.outstanding, nextAction, h, hthreads] using
      Programs.cons_flatten_set_perm h []
  issued := by simp [hissued]
  taken := by simp [htaken]
  flowSent := by simpa [nextAction, h] using hsent
  sunk := by simpa [nextAction, h] using hsunk

theorem relock_effect (hflow : action.flow? = none)
    (hpayload : action.payload? = none) (criticalSection : Section)
    (hpushed : criticalSection.pushedAfter w = w.pushed)
    (hkept : criticalSection.keptAfter w = w.kept) :
    StepEffect w (.perform index) { w.locked (criticalSection.run w.state) with
        threads := w.threads.set index
          ((criticalSection.run w.state).1 ++ rest) }
      (criticalSection.run w.state).1 where
  core := .inr ⟨criticalSection, rfl, hpushed.symm, hkept.symm⟩
  outstanding := by
    simpa [World.outstanding, nextAction, h] using
      Programs.cons_flatten_set_perm h (criticalSection.run w.state).1
  issued := rfl
  taken := rfl
  flowSent := by simp [World.flowSent, locked, nextAction, h, hflow]
  sunk := by simp [locked, nextAction, h, hpayload]

theorem perform_action_effect :
    ∃ fresh,
      StepEffect w (.perform index) (w.perform index rest action) fresh := by
  cases action with
  | sendFlowChange paused =>
    refine ⟨[], perform_effect h rfl rfl rfl rfl rfl rfl ?_ ?_⟩
    · cases paused <;> simp [World.flowSent, World.perform, Action.flow?,
        flowCommand, SessionCommand.flow?]
    · simp [World.perform, Action.payload?]
  | sendCloseForOverflow =>
    refine ⟨[], perform_effect h rfl rfl rfl rfl rfl rfl ?_ ?_⟩ <;>
      simp [World.flowSent, World.perform, Action.flow?, Action.payload?,
        SessionCommand.flow?]
  | scheduleFlush flushId =>
    refine ⟨[], perform_effect h rfl rfl rfl rfl rfl rfl ?_ ?_⟩ <;>
      simp [World.flowSent, World.perform, Action.flow?, Action.payload?]
  | flushPending => exact ⟨_, relock_effect h rfl rfl .flushPending rfl rfl⟩
  | sink payload =>
    refine ⟨[], perform_effect h rfl rfl rfl rfl rfl rfl ?_ ?_⟩ <;>
      simp [World.flowSent, World.perform, Action.flow?, Action.payload?]
  | reschedule => exact ⟨_, relock_effect h rfl rfl .reschedule rfl rfl⟩

end

theorem step_effect
    (h : w.step event = some t) : ∃ fresh, StepEffect w event t fresh := by
  cases event with
  | call operation =>
    simp only [World.step, Option.some.injEq] at h
    subst t
    exact ⟨_, enter_effect (.call operation)
      rfl rfl rfl rfl rfl rfl rfl rfl rfl⟩
  | timer index =>
    simp only [World.step] at h
    cases htimer : w.timers[index]? with
    | none => simp [htimer] at h
    | some flushId =>
      simp only [htimer, Option.some.injEq] at h
      subst t
      exact ⟨_, enter_effect (.flushIfScheduled flushId)
        rfl rfl rfl rfl rfl rfl rfl rfl rfl⟩
  | perform index =>
    simp only [World.step] at h
    split at h
    · next action rest hthread =>
      simp only [Option.some.injEq] at h
      subst t
      exact perform_action_effect hthread
    · cases h

theorem World.nextAction_mem
    (h : w.nextAction event = some action) : action ∈ w.outstanding := by
  cases event with
  | perform index =>
    simp only [nextAction, Option.bind_eq_some_iff] at h
    obtain ⟨program, hprogram, hhead⟩ := h
    exact List.mem_flatten.mpr ⟨program, List.mem_of_getElem? hprogram,
      List.mem_of_head? hhead⟩
  | _ => simp [nextAction] at h

/-- The outstanding actions of one kind, after a step. -/
theorem StepEffect.filterMap_perm {β : Type} (f : Action → Option β)
    {fresh : List Action} (h : StepEffect w event t fresh) :
    (((w.nextAction event).bind f).toList ++ t.outstanding.filterMap f).Perm
      (w.outstanding.filterMap f ++ fresh.filterMap f) := by
  have hperm := h.outstanding.filterMap f
  cases hnext : w.nextAction event with
  | none => simpa [hnext] using hperm
  | some action =>
    cases hf : f action <;>
      simpa [hnext, List.filterMap_cons, hf] using hperm

end NiceTerm.Output
