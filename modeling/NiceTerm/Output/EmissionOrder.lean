/-
Batches against the text pushed.  A batch is cut off the pending text under the
lock and handed to the sink later, in whatever order the callers are scheduled.
-/
import NiceTerm.Output.Threads

namespace NiceTerm.Output

open Output.Action List Option OutputState RustStr

@[simp] theorem payload_sendFlowChange (flowChange : Option Bool) :
    (sendFlowChange flowChange).filterMap payload? = [] := by
  cases flowChange <;> rfl

@[simp] theorem payload_scheduleFlush (flushId : Option Nat) :
    (scheduleFlush flushId).filterMap payload? = [] := by
  cases flushId <;> rfl

@[simp] theorem payload_applyFlushResult (result : FlushResult) :
    (applyFlushResult result).filterMap payload? =
      result.payload.toList := by
  rcases result with ⟨_ | payload, flowChange, _ | _⟩ <;>
    simp [applyFlushResult, filterMap_cons, payload?]

section

variable (state : OutputState)
include state

@[simp] theorem updateFlowState_pendingText :
    (updateFlowState state).2.pendingText = state.pendingText := by
  unfold updateFlowState
  split
  · rfl
  · split <;> rfl

@[simp] theorem shouldCloseForCatastrophicBacklog_pendingText :
    (shouldCloseForCatastrophicBacklog state).2.pendingText =
      state.pendingText := by
  unfold shouldCloseForCatastrophicBacklog
  split <;> rfl

@[simp] theorem disarm_pendingText :
    state.disarm.pendingText = state.pendingText := rfl

@[simp] theorem disarm_trimmed (maxBytes : Nat) :
    (trimPendingToMax state.disarm maxBytes).pendingText =
      (trimPendingToMax state maxBytes).pendingText := by
  by_cases h : state.pendingBytes ≤ maxBytes
  · simp [trimPendingToMax, disarm, pendingText, h]
  · simp [trimPendingToMax, disarm, pendingText, h]

@[simp] theorem arm_pendingText :
    state.arm.2.pendingText = state.pendingText := rfl

end

/-- Cutting a batch moves text from the front of the queue to the batch. -/
theorem takeBatchLoop_text (remaining pendingBytes : Nat) (data : Str)
    (pending : List Str) :
    (takeBatchLoop remaining pendingBytes data pending).1 ++
        (takeBatchLoop remaining pendingBytes data pending).2.1.flatten =
      data ++ pending.flatten := by
  induction pending generalizing remaining pendingBytes data with
  | nil => rfl
  | cons front rest ih =>
    unfold takeBatchLoop
    split
    · rfl
    · split
      · rw [ih]
        simp
      · simp only [flatten_cons, append_assoc]
        rw [← append_assoc (splitAt front _).1, splitAt_append]

theorem takeAllLoop_text (pendingBytes : Nat) (data : Str)
    (pending : List Str) :
    (takeAllLoop pendingBytes data pending).1 = data ++ pending.flatten := by
  induction pending generalizing pendingBytes data with
  | nil => simp [takeAllLoop]
  | cons chunk rest ih => simp [takeAllLoop, ih]

/-- Trimming drops text from the front of the queue only. -/
theorem trimLoop_suffix (bytesToDrop pendingBytes : Nat) (pending : List Str) :
    (trimLoop bytesToDrop pendingBytes pending).1.flatten <:+
      pending.flatten := by
  induction pending generalizing bytesToDrop pendingBytes with
  | nil => exact suffix_rfl
  | cons front rest ih =>
    unfold trimLoop
    split
    · exact suffix_rfl
    · split
      · exact (ih _ _).trans (suffix_append front _)
      · refine ⟨(splitAt front (byteBoundaryAtOrBefore front bytesToDrop)).1,
          ?_⟩
        simp only [flatten_cons, ← append_assoc, splitAt_append]

variable (state : OutputState)

theorem trimPendingToMax_suffix (maxBytes : Nat) :
    (trimPendingToMax state maxBytes).pendingText <:+ state.pendingText := by
  unfold trimPendingToMax
  split
  · exact suffix_rfl
  · exact trimLoop_suffix _ _ _

theorem takePendingBatch_text :
    payloadText (takePendingBatch state).1.toList ++
        (takePendingBatch state).2.pendingText = state.pendingText := by
  have h := takeBatchLoop_text (batchLimit state) state.pendingBytes []
    state.pending
  simp only [takePendingBatch]
  split
  · rfl
  · split
    · next hempty =>
      simpa [hempty, payloadText, pendingText] using h
    · simpa [payloadFromData, payloadText, pendingText] using h

theorem takeAllPending_text :
    payloadText (takeAllPending state).1.toList ++
        (takeAllPending state).2.pendingText = state.pendingText := by
  have h := takeAllLoop_text state.pendingBytes [] state.pending
  simp only [takeAllPending]
  split
  · rfl
  · split
    · next hempty =>
      simpa [hempty, payloadText, pendingText] using h
    · simpa [payloadFromData, payloadText, pendingText] using h

/-- A critical section accounts for the pending text: what it computes as
batches, followed by what stays pending, is `accounted`. -/
def TakesText (run : OutputState → List Action × OutputState)
    (accounted : OutputState → Str) : Prop :=
  ∀ state, payloadText ((run state).1.filterMap payload?) ++
    (run state).2.pendingText = accounted state

theorem flushFromState_text :
    payloadText (flushFromState state).1.payload.toList ++
        (flushFromState state).2.pendingText = state.pendingText := by
  simpa [flushFromState] using takePendingBatch_text state

theorem flushAllFromState_text :
    payloadText (flushAllFromState state).1.payload.toList ++
        (flushAllFromState state).2.pendingText =
      (trimPendingToMax state outputCloseFlushMaxBytes).pendingText := by
  simpa [flushAllFromState] using
    takeAllPending_text (trimPendingToMax state outputCloseFlushMaxBytes)

theorem pushOwned_text (text : Str) :
    TakesText (pushOwned text) fun state => state.pendingText ++ text := by
  intro state
  unfold pushOwned
  split
  · next h => simp [h, payloadText]
  · dsimp only
    split <;> split <;> try split
    all_goals
      simp [filterMap_cons, payload?, payloadText]
      simp [pendingText]

theorem ack_text (bytes : Nat) : TakesText (ack bytes) pendingText := by
  intro state
  unfold ack
  split
  · rfl
  · dsimp only
    split <;> simp [payloadText] <;> rfl

theorem attach_text : TakesText attach pendingText := by
  intro state
  simp only [attach, payload_applyFlushResult]
  exact flushFromState_text
    { state with attached := true, unackedBytes := 0 }.disarm

theorem detach_text : TakesText detach pendingText := by
  intro state
  simp [detach, payloadText]
  rfl

theorem close_text : TakesText close fun state =>
    (trimPendingToMax state outputCloseFlushMaxBytes).pendingText := by
  intro state
  simp only [close, payload_applyFlushResult]
  rw [flushAllFromState_text, disarm_trimmed]

theorem flushIfScheduled_text (flushId : Nat) :
    TakesText (flushIfScheduled flushId) pendingText := by
  intro state
  unfold flushIfScheduled
  split
  · rfl
  · dsimp only
    split
    · rfl
    · simp only [payload_applyFlushResult]
      exact flushFromState_text { state with scheduledFlushId := none }

theorem flushPending_text :
    TakesText flushPending pendingText := by
  intro state
  unfold flushPending
  split
  · rfl
  · simp only [payload_applyFlushResult]
    exact flushFromState_text state.disarm

theorem reschedule_text : TakesText reschedule pendingText := by
  intro state
  unfold reschedule
  split
  · rfl
  · simp [payloadText]

/-- The text an operation leaves to account for. -/
def Section.accounted : Section → OutputState → Str
  | .call (.push text), state => state.pendingText ++ text
  | .call .close, state =>
    (trimPendingToMax state outputCloseFlushMaxBytes).pendingText
  | _, state => state.pendingText

theorem section_text (criticalSection : Section) :
    TakesText criticalSection.run criticalSection.accounted := by
  cases criticalSection with
  | call operation =>
    cases operation with
    | push text => exact pushOwned_text text
    | ack bytes => exact ack_text bytes
    | attach => exact attach_text
    | detach => exact detach_text
    | close => exact close_text
  | flushIfScheduled flushId => exact flushIfScheduled_text flushId
  | flushPending => exact flushPending_text
  | reschedule => exact reschedule_text

/-- Lock order is right whatever the schedule: the batches cut, followed by
the pending text, are the text kept, and that is the text pushed less what
`close` dropped. -/
structure TextInvariant (w : World) : Prop where
  text : payloadText w.taken ++ w.state.pendingText = w.kept
  retained : w.kept.Sublist w.pushed

theorem textInvariant_initial : TextInvariant {} where
  text := rfl
  retained := Sublist.refl []

variable {w : World}

theorem keptAfterClose_eq (hw : TextInvariant w) :
    keptAfterClose w = payloadText w.taken ++
      (trimPendingToMax w.state outputCloseFlushMaxBytes).pendingText := by
  simp [keptAfterClose, ← hw.text]

theorem TextInvariant.accounted (hw : TextInvariant w)
    (criticalSection : Section) :
    payloadText w.taken ++ criticalSection.accounted w.state =
      criticalSection.keptAfter w := by
  cases criticalSection with
  | call operation =>
    cases operation with
    | push text =>
      simp [Section.accounted, Section.keptAfter, Operation.keptAfter,
        ← hw.text]
    | close => exact (keptAfterClose_eq hw).symm
    | _ => exact hw.text
  | _ => exact hw.text

theorem TextInvariant.retainedAfter (hw : TextInvariant w)
    (criticalSection : Section) :
    (criticalSection.keptAfter w).Sublist (criticalSection.pushedAfter w) := by
  cases criticalSection with
  | call operation =>
    cases operation with
    | push text => exact hw.retained.append (Sublist.refl text)
    | close =>
      have hsuffix := trimPendingToMax_suffix w.state outputCloseFlushMaxBytes
      have hkept : (keptAfterClose w).Sublist w.kept := by
        rw [keptAfterClose_eq hw, ← hw.text]
        exact hsuffix.sublist.append_left _
      exact hkept.trans hw.retained
    | _ => exact hw.retained
  | _ => exact hw.retained

theorem TextInvariant.step {w t : World} {event : Event}
    (hw : TextInvariant w) (h : w.step event = some t) : TextInvariant t := by
  obtain ⟨fresh, heffect⟩ := step_effect h
  rcases heffect.core with
    ⟨rfl, hstate, hpushed, hkept⟩ | ⟨criticalSection, hrun, hpushed, hkept⟩
  · have htaken : t.taken = w.taken := by simpa using heffect.taken
    exact ⟨by rw [htaken, hstate, hkept, hw.text],
      by rw [hkept, hpushed]; exact hw.retained⟩
  · have htext := section_text criticalSection w.state
    rw [hrun] at htext
    refine ⟨?_, by rw [hkept, hpushed]; exact hw.retainedAfter _⟩
    calc
      payloadText t.taken ++ t.state.pendingText = payloadText w.taken ++
            (payloadText (fresh.filterMap payload?) ++
              t.state.pendingText) := by
        simp [heffect.taken, payloadText]
      _ = payloadText w.taken ++ criticalSection.accounted w.state := by
        rw [htext]
      _ = t.kept := by rw [hkept, hw.accounted]

theorem run_textInvariant {t : World} {events : List Event}
    (hw : TextInvariant w) (hrun : system.runFrom w events = some t) :
    TextInvariant t :=
  system.run_invariant (fun _ _ _ hs hst => hs.step hst) hw hrun

/-- Only `close` drops text. -/
theorem step_keeps_pushed {t : World} {event : Event}
    (hevent : event ≠ .call .close) (h : w.step event = some t)
    (hw : w.kept = w.pushed) : t.kept = t.pushed := by
  cases event with
  | call operation =>
    simp only [World.step, some.injEq] at h
    subst t
    cases operation with
    | push text => simpa [Operation.keptAfter, Operation.pushedAfter] using hw
    | close => exact absurd rfl hevent
    | _ => exact hw
  | timer index =>
    simp only [World.step] at h
    split at h
    · cases h
    · simp only [some.injEq] at h
      subst t
      exact hw
  | perform index =>
    simp only [World.step] at h
    split at h
    · next action rest hthread =>
      simp only [some.injEq] at h
      subst t
      cases action <;> exact hw
    · cases h

theorem run_keeps_pushed {t : World} {events : List Event}
    (hevents : Event.call .close ∉ events) (hw : w.kept = w.pushed)
    (hrun : system.runFrom w events = some t) : t.kept = t.pushed := by
  induction events generalizing w with
  | nil =>
    obtain rfl := some.inj hrun
    exact hw
  | cons event events ih =>
    obtain ⟨r, hr, hrest⟩ := (system.runFrom_cons_eq_some).mp hrun
    simp only [mem_cons, not_or] at hevents
    exact ih hevents.2 (step_keeps_pushed (Ne.symm hevents.1) hr hw) hrest

/-- The batches as a ledger: cut under the lock, handed to the sink by their
callers. -/
def payloadLedger : Ledger system TerminalOutputPayload where
  issued := World.taken
  delivered := World.sunk
  outstanding w := w.outstanding.filterMap payload?
  next w event := (w.nextAction event).bind payload?
  next_mem w event payload h := by
    obtain ⟨action, haction, hpayload⟩ := bind_eq_some_iff.mp h
    exact mem_filterMap.mpr
      ⟨action, World.nextAction_mem haction, hpayload⟩
  step w event t h := by
    obtain ⟨fresh, heffect⟩ := step_effect h
    exact ⟨_, heffect.taken, heffect.sunk, heffect.filterMap_perm _⟩

/-- What the sink has received after a run: the batches in the order they were
cut, and as text the beginning of what was pushed.  The text is all that was
pushed up to the first `close`, and what is retained of it from then on. -/
structure InEmissionOrder (events : List Event) (w : World) : Prop where
  batches : w.sunk <+: w.taken
  text : payloadText w.sunk <+: w.kept
  retained : w.kept.Sublist w.pushed
  whole : Event.call .close ∉ events → w.kept = w.pushed

/-- The event does not overtake: a batch that reaches the sink is the oldest
one cut under the lock and not emitted yet. -/
def EmitsOldest (w : World) (event : Event) : Prop :=
  ∀ payload, w.nextAction event = some (.sink payload) →
    w.taken[w.sunk.length]? = some payload

theorem emitsOldest_iff (w : World) (event : Event) :
    EmitsOldest w event ↔ payloadLedger.DeliversOldest w event := by
  constructor
  · intro h payload hpayload
    obtain ⟨action, haction, heq⟩ := bind_eq_some_iff.mp hpayload
    cases action with
    | sink emitted =>
      obtain rfl := some.inj heq
      exact h emitted haction
    | _ => cases heq
  · intro h payload hpayload
    exact h payload (bind_eq_some_iff.mpr ⟨_, hpayload, rfl⟩)

theorem payloadLedger_balanced_initial : payloadLedger.Balanced {} :=
  Perm.refl _

theorem payloadText_mono {left right : List TerminalOutputPayload}
    (h : left <+: right) : payloadText left <+: payloadText right := by
  obtain ⟨later, rfl⟩ := h
  exact ⟨payloadText later, by simp [payloadText]⟩

/-- The sink has received the pushed text in order exactly when every batch
that reached it was the oldest one cut and not emitted.  The lock orders the
cuts; nothing orders the calls of the sink. -/
theorem emission_in_order_iff {events : List Event} {w : World}
    (hrun : system.runFrom {} events = some w) :
    InEmissionOrder events w ↔ system.Along EmitsOldest {} events := by
  have hw := run_textInvariant textInvariant_initial hrun
  have hordered : w.sunk <+: w.taken ↔ system.Along EmitsOldest {} events :=
    (payloadLedger.isPrefix_iff_deliversOldest payloadLedger_balanced_initial
      rfl hrun).trans (system.along_congr emitsOldest_iff).symm
  constructor
  · intro h
    exact hordered.mp h.batches
  · intro h
    have hbatches := hordered.mpr h
    refine ⟨hbatches, ?_, hw.retained,
      fun hevents => run_keeps_pushed hevents rfl hrun⟩
    rw [← hw.text]
    exact (payloadText_mono hbatches).trans (prefix_append _ _)

/-- Two pushes, each cut off by its own timer before either batch has reached
the sink.  Callers 2 and 4 hold the batches. -/
def overlappingFlushes : List Event :=
  [.call .attach, .call (.push ['a']), .perform 1, .timer 0,
    .call (.push ['b']), .perform 3, .timer 0]

/-- The second flush reaches the sink first. -/
theorem emission_out_of_order :
    ∃ events w, system.runFrom {} events = some w ∧
      Event.call .close ∉ events ∧ w.pushed = ['a', 'b'] ∧
      payloadText w.sunk = ['b', 'a'] ∧ ¬ InEmissionOrder events w := by
  refine ⟨overlappingFlushes ++ [.perform 4, .perform 2], _, rfl,
    by decide, by decide, by decide, ?_⟩
  intro h
  exact absurd h.batches (by decide)

/-- In lock order the sink receives what was pushed. -/
theorem emission_in_order :
    ∃ w, InEmissionOrder (overlappingFlushes ++ [.perform 2, .perform 4]) w ∧
      payloadText w.sunk = ['a', 'b'] := by
  refine ⟨_, (emission_in_order_iff rfl).mpr ?_, by decide⟩
  refine (system.along_congr emitsOldest_iff).mpr ?_
  exact payloadLedger.deliversOldest_of_isPrefix payloadLedger_balanced_initial
    rfl (by decide)

end NiceTerm.Output
