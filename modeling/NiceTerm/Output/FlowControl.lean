/-
Pause and resume commands against the coalescer's own flow state.  The state
turns under the lock; the command leaves later, in whatever order the callers
are scheduled.
-/
import NiceTerm.Output.Threads

namespace NiceTerm.Output

open List RustStr

/-- What one critical section does to the flow state, and the commands it
computes. -/
inductive FlowTurn : Bool → List SessionCommand → Bool → Prop where
  | stay (paused : Bool) : FlowTurn paused [] paused
  | pause : FlowTurn false [.pauseOutput] true
  | resume : FlowTurn true [.resumeOutput] false

theorem updateFlowState_turn (state : OutputState) :
    FlowTurn state.flowPaused
      ((updateFlowState state).1.toList.map flowCommand)
      (updateFlowState state).2.flowPaused := by
  unfold updateFlowState
  split
  · next h =>
    simp only [Bool.and_eq_true, Bool.not_eq_true'] at h
    simpa [h.1, flowCommand] using FlowTurn.pause
  · split
    · next h =>
      simp only [Bool.and_eq_true] at h
      simpa [h.1, flowCommand] using FlowTurn.resume
    · exact FlowTurn.stay _

@[simp] theorem flow_sendFlowChange (flowChange : Option Bool) :
    (sendFlowChange flowChange).filterMap Action.flow? =
      flowChange.toList.map flowCommand := by
  cases flowChange <;> rfl

@[simp] theorem flow_scheduleFlush (flushId : Option Nat) :
    (scheduleFlush flushId).filterMap Action.flow? = [] := by
  cases flushId <;> rfl

@[simp] theorem flow_applyFlushResult (result : FlushResult) :
    (applyFlushResult result).filterMap Action.flow? =
      result.flowChange.toList.map flowCommand := by
  rcases result with ⟨_ | payload, flowChange, _ | _⟩ <;>
    simp [applyFlushResult, filterMap_cons, Action.flow?]

section

variable (state : OutputState)
include state

@[simp] theorem disarm_flowPaused :
    state.disarm.flowPaused = state.flowPaused := rfl

@[simp] theorem arm_flowPaused :
    state.arm.2.flowPaused = state.flowPaused := rfl

@[simp] theorem shouldCloseForCatastrophicBacklog_flowPaused :
    (shouldCloseForCatastrophicBacklog state).2.flowPaused =
      state.flowPaused := by
  unfold shouldCloseForCatastrophicBacklog
  split <;> rfl

@[simp] theorem takePendingBatch_flowPaused :
    (takePendingBatch state).2.flowPaused = state.flowPaused := by
  simp only [takePendingBatch]
  split
  · rfl
  · split <;> rfl

@[simp] theorem takeAllPending_flowPaused :
    (takeAllPending state).2.flowPaused = state.flowPaused := by
  simp only [takeAllPending]
  split
  · rfl
  · split <;> rfl

@[simp] theorem trimPendingToMax_flowPaused (maxBytes : Nat) :
    (trimPendingToMax state maxBytes).flowPaused = state.flowPaused := by
  unfold trimPendingToMax
  split <;> rfl

theorem flushFromState_turn :
    FlowTurn state.flowPaused
      ((flushFromState state).1.flowChange.toList.map flowCommand)
      (flushFromState state).2.flowPaused := by
  have h := updateFlowState_turn (takePendingBatch state).2
  rwa [takePendingBatch_flowPaused] at h

theorem flushAllFromState_turn :
    FlowTurn state.flowPaused
      ((flushAllFromState state).1.flowChange.toList.map flowCommand)
      (flushAllFromState state).2.flowPaused := by
  have h := updateFlowState_turn
    (takeAllPending (trimPendingToMax state outputCloseFlushMaxBytes)).2
  rwa [takeAllPending_flowPaused, trimPendingToMax_flowPaused] at h

end

/-- A critical section turns the flow state the way its commands say. -/
def Turns (run : OutputState → List Action × OutputState) : Prop :=
  ∀ state, FlowTurn state.flowPaused ((run state).1.filterMap Action.flow?)
    (run state).2.flowPaused

variable (text : Str)

theorem pushOwned_turns : Turns (pushOwned text) := by
  intro state
  unfold pushOwned
  split
  · exact FlowTurn.stay _
  · have h := updateFlowState_turn { state with
        pendingBytes := saturatingAdd state.pendingBytes (len text)
        pending := state.pending ++ [text] }
    dsimp only
    split <;> split <;> try split
    all_goals simpa [filterMap_cons, Action.flow?] using h

theorem ack_turns (bytes : Nat) : Turns (ack bytes) := by
  intro state
  unfold ack
  split
  · exact FlowTurn.stay _
  · have h := updateFlowState_turn
      { state with unackedBytes := state.unackedBytes - bytes }
    dsimp only
    split
    all_goals simpa using h

theorem attach_turns : Turns attach := by
  intro state
  simp only [attach, flow_applyFlushResult]
  exact flushFromState_turn
    { state with attached := true, unackedBytes := 0 }.disarm

theorem detach_turns : Turns detach := by
  intro state
  simp only [detach, flow_sendFlowChange]
  exact updateFlowState_turn
    { state with attached := false, unackedBytes := 0 }.disarm

theorem close_turns : Turns close := by
  intro state
  simp only [close, flow_applyFlushResult]
  exact flushAllFromState_turn state.disarm

theorem flushIfScheduled_turns (flushId : Nat) :
    Turns (flushIfScheduled flushId) := by
  intro state
  unfold flushIfScheduled
  split
  · exact FlowTurn.stay _
  · dsimp only
    split
    · exact FlowTurn.stay _
    · simpa using flushFromState_turn { state with scheduledFlushId := none }

theorem flushPending_turns : Turns flushPending := by
  intro state
  unfold flushPending
  split
  · exact FlowTurn.stay _
  · simpa using flushFromState_turn state.disarm

theorem reschedule_turns : Turns reschedule := by
  intro state
  unfold reschedule
  split
  · exact FlowTurn.stay _
  · simpa using FlowTurn.stay state.flowPaused

theorem operation_turns (operation : Operation) : Turns operation.run := by
  cases operation with
  | push text => exact pushOwned_turns text
  | ack bytes => exact ack_turns bytes
  | attach => exact attach_turns
  | detach => exact detach_turns
  | close => exact close_turns

theorem section_turns (criticalSection : Section) :
    Turns criticalSection.run := by
  cases criticalSection with
  | call operation => exact operation_turns operation
  | flushIfScheduled flushId => exact flushIfScheduled_turns flushId
  | flushPending => exact flushPending_turns
  | reschedule => exact reschedule_turns

/-- The flow commands as a ledger: issued under the lock, delivered by their
callers. -/
def flowLedger : Ledger system SessionCommand where
  issued := World.issued
  delivered := World.flowSent
  outstanding w := w.outstanding.filterMap Action.flow?
  next w event := (w.nextAction event).bind Action.flow?
  next_mem w event command h := by
    obtain ⟨action, haction, hflow⟩ := Option.bind_eq_some_iff.mp h
    exact mem_filterMap.mpr
      ⟨action, World.nextAction_mem haction, hflow⟩
  step w event t h := by
    obtain ⟨fresh, heffect⟩ := step_effect h
    exact ⟨_, heffect.issued, heffect.flowSent, heffect.filterMap_perm _⟩

/-- Every flow command has left its caller. -/
def World.FlowQuiescent (w : World) : Prop :=
  ∀ program ∈ w.threads, ∀ paused, Action.sendFlowChange paused ∉ program

/-- Pause, Resume, Pause, ... -/
def Alternates (commands : List SessionCommand) : Prop :=
  ∀ i command, commands[i]? = some command → command = flowCommand (i % 2 == 0)

/-- The pause flag of the reader after the command loop has handled the
commands in order. -/
def readerPaused (commands : List SessionCommand) : Bool :=
  commands.foldl (fun paused command =>
    match command with
    | .pauseOutput => true
    | .resumeOutput => false
    | .close => paused) false

/-- The commands sent tell the reader what the coalescer believes. -/
structure FlowAgrees (w : World) : Prop where
  alternates : Alternates w.flowSent
  last : w.flowSent.getLast? = some .pauseOutput ↔ w.state.flowPaused = true
  reader : readerPaused w.commands = w.state.flowPaused

/-- The event does not overtake: a flow command that is sent equals the oldest
one computed under the lock and not sent yet. -/
def SendsOldest (w : World) (event : Event) : Prop :=
  ∀ paused, w.nextAction event = some (.sendFlowChange paused) →
    w.issued[w.flowSent.length]? = some (flowCommand paused)

theorem sendsOldest_iff (w : World) (event : Event) :
    SendsOldest w event ↔ flowLedger.DeliversOldest w event := by
  constructor
  · intro h command hcommand
    obtain ⟨action, haction, hflow⟩ := Option.bind_eq_some_iff.mp hcommand
    cases action with
    | sendFlowChange paused =>
      obtain rfl := Option.some.inj hflow
      exact h paused haction
    | _ => cases hflow
  · intro h paused hpaused
    exact h (flowCommand paused)
      (Option.bind_eq_some_iff.mpr ⟨_, hpaused, rfl⟩)

/-- Lock order is right whatever the schedule: the commands computed
alternate, and their number says whether the flow is paused. -/
structure FlowInvariant (w : World) : Prop where
  alternates : Alternates w.issued
  parity : w.state.flowPaused = (w.issued.length % 2 == 1)

theorem flowInvariant_initial : FlowInvariant {} where
  alternates := by simp [Alternates]
  parity := rfl

variable {commands : List SessionCommand}

theorem Alternates.append_singleton
    (h : Alternates commands) {command : SessionCommand}
    (hcommand : command = flowCommand (commands.length % 2 == 0)) :
    Alternates (commands ++ [command]) := by
  intro i c hc
  rcases Nat.lt_trichotomy i commands.length with hlt | heq | hgt
  · rw [getElem?_append_left hlt] at hc
    exact h i c hc
  · subst heq
    simp only [getElem?_concat_length, Option.some.injEq] at hc
    exact hc ▸ hcommand
  · rw [getElem?_eq_none (by simp; omega)] at hc
    cases hc

theorem FlowTurn.alternates {before after : Bool} {turn : List SessionCommand}
    (h : FlowTurn before turn after) (halternates : Alternates commands)
    (hparity : before = (commands.length % 2 == 1)) :
    Alternates (commands ++ turn) ∧
      after = ((commands ++ turn).length % 2 == 1) := by
  cases h with
  | stay => simpa using ⟨halternates, hparity⟩
  | pause =>
    have heven : commands.length % 2 = 0 := by
      have hne : commands.length % 2 ≠ 1 := by simpa using hparity
      omega
    refine ⟨halternates.append_singleton (by simp [heven, flowCommand]), ?_⟩
    simp only [length_append, length_singleton]
    have : (commands.length + 1) % 2 = 1 := by omega
    simp [this]
  | resume =>
    have hodd : commands.length % 2 = 1 := by simpa using hparity
    refine ⟨halternates.append_singleton (by simp [hodd, flowCommand]), ?_⟩
    simp only [length_append, length_singleton]
    have : (commands.length + 1) % 2 = 0 := by omega
    simp [this]

theorem FlowInvariant.step {w t : World} {event : Event}
    (hw : FlowInvariant w) (h : w.step event = some t) : FlowInvariant t := by
  obtain ⟨fresh, heffect⟩ := step_effect h
  have hturn : FlowTurn w.state.flowPaused (fresh.filterMap Action.flow?)
      t.state.flowPaused := by
    rcases heffect.core with ⟨rfl, hstate, -⟩ | ⟨criticalSection, hrun, -⟩
    · exact hstate ▸ FlowTurn.stay _
    · simpa [hrun] using section_turns criticalSection w.state
  obtain ⟨halternates, hparity⟩ := hturn.alternates hw.alternates hw.parity
  exact ⟨heffect.issued ▸ halternates, heffect.issued ▸ hparity⟩

theorem run_flowInvariant {w t : World} {events : List Event}
    (hw : FlowInvariant w) (hrun : system.runFrom w events = some t) :
    FlowInvariant t :=
  system.run_invariant (fun _ _ _ hs hst => hs.step hst) hw hrun

/-- Two alternating command sequences of one length are equal. -/
theorem Alternates.eq_of_length {left right : List SessionCommand}
    (hleft : Alternates left) (hright : Alternates right)
    (hlength : left.length = right.length) : left = right := by
  apply ext_getElem hlength
  intro i hl hr
  rw [hleft i _ (getElem?_eq_getElem hl), hright i _ (getElem?_eq_getElem hr)]

theorem Alternates.getLast?_eq_pause_iff (h : Alternates commands) :
    commands.getLast? = some .pauseOutput ↔ commands.length % 2 = 1 := by
  rcases eq_nil_or_concat commands with rfl | ⟨front, last, rfl⟩
  · simp
  · have hlast := h front.length last (by simp)
    rw [hlast]
    simp only [concat_eq_append, getLast?_append, getLast?_singleton,
      Option.some_or, Option.some.injEq, length_append, length_singleton]
    rcases Nat.mod_two_eq_zero_or_one front.length with hm | hm <;>
      simp [hm, flowCommand] <;> omega

/-- The reader's gate ignores every command but the last pause or resume. -/
theorem readerPaused_append (commands : List SessionCommand)
    (command : SessionCommand) :
    readerPaused (commands ++ [command]) =
      match command with
      | .pauseOutput => true
      | .resumeOutput => false
      | .close => readerPaused commands := by
  simp [readerPaused, foldl_append]

theorem readerPaused_eq_last (commands : List SessionCommand) :
    readerPaused commands =
      ((commands.filterMap SessionCommand.flow?).getLast? ==
        some .pauseOutput) := by
  induction commands using reverseRecOn with
  | nil => rfl
  | append_singleton front last ih =>
    rw [readerPaused_append, filterMap_append]
    cases last <;> simp [SessionCommand.flow?, ih]

theorem World.FlowQuiescent.outstanding {w : World} (h : w.FlowQuiescent) :
    flowLedger.outstanding w = [] := by
  refine filterMap_eq_nil_iff.mpr fun action haction => ?_
  obtain ⟨program, hprogram, hmem⟩ := mem_flatten.mp haction
  cases action with
  | sendFlowChange paused => exact absurd hmem (h program hprogram paused)
  | _ => rfl

/-- With nothing outstanding, the reader is told the truth exactly when the
commands went out in lock order. -/
theorem flowAgrees_iff_sent_eq_issued {w : World} (hw : FlowInvariant w)
    (hbalanced : flowLedger.Balanced w) (hquiet : w.FlowQuiescent) :
    FlowAgrees w ↔ w.flowSent = w.issued := by
  have hperm : w.flowSent.Perm w.issued := by
    have h := hbalanced
    rw [Ledger.Balanced, hquiet.outstanding, append_nil] at h
    exact h
  constructor
  · intro hagrees
    exact hagrees.alternates.eq_of_length hw.alternates hperm.length_eq
  · intro heq
    have halternates : Alternates w.flowSent := heq ▸ hw.alternates
    have hlast := halternates.getLast?_eq_pause_iff
    have hparity := hw.parity
    rw [← heq] at hparity
    refine ⟨halternates, ?_, ?_⟩
    · rw [hlast, hparity, beq_iff_eq]
    · rw [readerPaused_eq_last, hparity, Bool.eq_iff_iff, beq_iff_eq,
        beq_iff_eq]
      exact hlast

theorem flowLedger_balanced_initial : flowLedger.Balanced {} :=
  Perm.refl _

/-- At the end of a run with no send outstanding, the commands agree with the
flow state exactly when every send of the run was the oldest one outstanding.
The lock orders the commands; nothing orders the sends. -/
theorem flow_commands_agree_iff {events : List Event} {w : World}
    (hrun : system.runFrom {} events = some w) (hquiet : w.FlowQuiescent) :
    FlowAgrees w ↔ system.Along SendsOldest {} events := by
  have hw := run_flowInvariant flowInvariant_initial hrun
  have hbalanced := flowLedger_balanced_initial.run hrun
  have halong : system.Along SendsOldest {} events ↔
      system.Along flowLedger.DeliversOldest {} events :=
    system.along_congr sendsOldest_iff
  calc
    FlowAgrees w ↔ w.flowSent = w.issued :=
      flowAgrees_iff_sent_eq_issued hw hbalanced hquiet
    _ ↔ w.flowSent <+: w.issued := hbalanced.eq_iff_isPrefix hquiet.outstanding
    _ ↔ system.Along flowLedger.DeliversOldest {} events :=
      flowLedger.isPrefix_iff_deliversOldest flowLedger_balanced_initial rfl hrun
    _ ↔ system.Along SendsOldest {} events := halong.symm

/-- A pause is computed for a mebibyte of output, `close` hands the output
out, and its acknowledgement computes a resume.  Both sends are outstanding. -/
def contestedEvents : List Event :=
  [.call (.push text), .call .close, .perform 1, .call (.ack (1024 * 1024))]

def contestedWorld (threads : List (List Action))
    (commands : List SessionCommand) : World where
  state := { nextFlushId := 1 }
  threads := threads
  sunk := [⟨text, 1024 * 1024, 0⟩]
  commands := commands
  pushed := text
  kept := text
  issued := [.pauseOutput, .resumeOutput]
  taken := [⟨text, 1024 * 1024, 0⟩]

theorem contested_run {text : Str} (hlen : len text = 1024 * 1024) :
    system.runFrom {} (contestedEvents text) = some (contestedWorld text
      [[.sendFlowChange true], [], [.sendFlowChange false]] []) := by
  have hne : text ≠ [] := by
    intro h
    simp [h] at hlen
  simp [contestedEvents, contestedWorld, Transition.System.runFrom, system,
    World.step, World.enter, World.locked, World.perform, Operation.run,
    Operation.pushedAfter, Operation.keptAfter, keptAfterClose,
    OutputState.pendingText, pushOwned, close, ack, hne, hlen, saturatingAdd,
    wrappingSucc, OutputState.backlog, OutputState.disarm, updateFlowState,
    shouldCloseForCatastrophicBacklog, sendFlowChange, flushAllFromState,
    trimPendingToMax, takeAllPending, takeAllLoop, payloadFromData,
    applyFlushResult, Action.flow?, Action.payload?, filterMap_cons,
    flowCommand, outputPauseHighWatermarkBytes, outputResumeLowWatermarkBytes,
    outputCloseFlushMaxBytes, outputCatastrophicBacklogBytes]

theorem len_mebibyte :
    len (replicate (1024 * 1024) 'a') = 1024 * 1024 := by
  rw [len_replicate]
  decide

theorem contestedWorld_quiescent (commands : List SessionCommand) :
    (contestedWorld text [[], [], []] commands).FlowQuiescent := by
  intro program hprogram paused
  simp only [contestedWorld, mem_cons, not_mem_nil, or_false,
    or_self] at hprogram
  simp [hprogram]

/-- The renderer's resume overtakes the pause: the coalescer is running and
the reader stays paused. -/
theorem flow_commands_disagree :
    ∃ events w, system.runFrom {} events = some w ∧ w.FlowQuiescent ∧
      w.flowSent = [.resumeOutput, .pauseOutput] ∧ w.state.flowPaused = false ∧
      readerPaused w.commands = true ∧ ¬ FlowAgrees w := by
  let text := replicate (1024 * 1024) 'a'
  refine ⟨contestedEvents text ++ [.perform 2, .perform 0],
    contestedWorld text [[], [], []] [.resumeOutput, .pauseOutput],
    (system.runFrom_append_eq_some).mpr
      ⟨_, contested_run len_mebibyte, rfl⟩,
    contestedWorld_quiescent text _, rfl, rfl, rfl, ?_⟩
  intro h
  have hreader := h.reader
  simp [readerPaused, contestedWorld] at hreader

theorem contested_in_order :
    system.Along SendsOldest (contestedWorld text
      [[.sendFlowChange true], [], [.sendFlowChange false]] [])
      [.perform 0, .perform 2] := by
  simp [Transition.System.Along, SendsOldest, World.nextAction, system,
    World.step, World.perform, contestedWorld, World.flowSent,
    SessionCommand.flow?, flowCommand]

/-- In lock order the same commands leave the reader running. -/
theorem flow_commands_agree_in_order :
    FlowAgrees (contestedWorld (replicate (1024 * 1024) 'a')
      [[], [], []] [.pauseOutput, .resumeOutput]) := by
  let inOrder : List Event := [.perform 0, .perform 2]
  let text := replicate (1024 * 1024) 'a'
  have hrun : system.runFrom {} (contestedEvents text ++ inOrder) = some _ :=
    (system.runFrom_append_eq_some).mpr ⟨_, contested_run len_mebibyte, rfl⟩
  refine (flow_commands_agree_iff hrun (contestedWorld_quiescent _ _)).mpr ?_
  refine (system.along_append).mpr ⟨?_, ?_⟩
  · refine (system.along_congr sendsOldest_iff).mpr ?_
    exact flowLedger.deliversOldest_of_isPrefix flowLedger_balanced_initial
      (contested_run len_mebibyte) nil_prefix
  · intro w hw
    obtain rfl := Option.some.inj ((contested_run len_mebibyte).symm.trans hw)
    exact contested_in_order _

end NiceTerm.Output
