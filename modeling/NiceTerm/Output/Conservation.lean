/-
Bytes and text of the coalescer in lock order.  The hand-kept byte counter is
the length of the pending text, a batch overshoots its limit by at most the rest
of one character, and only the trim at `close` loses text.
-/
import NiceTerm.Output.EmissionOrder

namespace NiceTerm.Output

open OutputState RustStr World

/-- No character boundary lies inside the first character. -/
theorem firstChar_le_of_isCharBoundary {c : Char} {cs : Str} {n : Nat}
    (h : isCharBoundary (c :: cs) n = true) (hn : 0 < n) : c.utf8Size ≤ n := by
  cases n with
  | zero => omega
  | succ n =>
    by_cases hlt : n + 1 < c.utf8Size
    · simp [isCharBoundary, hlt] at h
    · omega

theorem isCharBoundary_firstChar (c : Char) (cs : Str) :
    isCharBoundary (c :: cs) c.utf8Size = true := by
  cases hsize : c.utf8Size with
  | zero => exact absurd hsize (Nat.ne_of_gt c.utf8Size_pos)
  | succ n => cases cs <;> simp [isCharBoundary, hsize]

theorem splitAt_firstChar (c : Char) (cs : Str) :
    (splitAt (c :: cs) c.utf8Size).1 = [c] := by
  simp [splitAt, splitAt_zero]

/-- The cut of `byte_boundary_at_or_before`: a character boundary, at most three
bytes late, and never early exactly when the offset is a boundary or lies in
the first character. -/
structure CutAt (text : Str) (offset cut : Nat) : Prop where
  boundary : len (splitAt text cut).1 = cut
  late : cut ≤ offset + 3
  early : offset ≤ cut ↔
    isCharBoundary text offset = true ∨ offset < len (text.take 1)

variable {text : Str}

theorem byteBoundaryAtOrBefore_cut {offset : Nat}
    (hlt : offset < len text) (hpos : 0 < offset) :
    CutAt text offset (byteBoundaryAtOrBefore text offset) := by
  cases text with
  | nil => simp at hlt
  | cons c cs =>
    have hsize := c.utf8Size_le_four
    have hfirst : len ((c :: cs).take 1) = c.utf8Size := by simp
    have hfloor := isCharBoundary_floorCharBoundary (c :: cs) offset
    have hle := floorCharBoundary_le (c :: cs) offset
    by_cases hzero : floorCharBoundary (c :: cs) offset = 0
    · have hinside : offset < c.utf8Size := by
        by_contra hnot
        have := le_floorCharBoundary (Nat.le_of_not_lt hnot)
          (isCharBoundary_firstChar c cs)
        have := c.utf8Size_pos
        omega
      have hcut : byteBoundaryAtOrBefore (c :: cs) offset =
          c.utf8Size := by
        cases cs <;> simp_all [byteBoundaryAtOrBefore]
      rw [hcut]
      refine ⟨by simp [splitAt_firstChar], by omega, ?_⟩
      rw [hfirst]
      exact ⟨fun _ => .inr hinside, fun _ => Nat.le_of_lt hinside⟩
    · have hcut : byteBoundaryAtOrBefore (c :: cs) offset =
          floorCharBoundary (c :: cs) offset := by
        simp only [byteBoundaryAtOrBefore, Nat.not_le.mpr hlt, hzero,
          ↓reduceIte]
      rw [hcut]
      refine ⟨len_splitAt hfloor, by omega, ?_⟩
      have hpast := firstChar_le_of_isCharBoundary hfloor
        (Nat.pos_of_ne_zero hzero)
      rw [hfirst, ← floorCharBoundary_eq_self_iff]
      omega

/-- The loop of `take_pending_batch` keeps the counter exact. -/
theorem takeBatchLoop_bytes (remaining : Nat) (data : Str)
    (pending : List Str) :
    (takeBatchLoop remaining (len pending.flatten) data pending).2.2 =
      len (takeBatchLoop remaining (len pending.flatten) data
        pending).2.1.flatten := by
  induction pending generalizing remaining data with
  | nil => rfl
  | cons front rest ih =>
    unfold takeBatchLoop
    split
    · rfl
    · split
      · have hrest : len (front :: rest).flatten - len front =
            len rest.flatten := by
          simp only [List.flatten_cons, len_append]
          omega
        rw [hrest]
        exact ih _ _
      · have hsplit := congrArg len (splitAt_append front
          (byteBoundaryAtOrBefore front remaining))
        simp only [len_append, List.flatten_cons] at hsplit ⊢
        omega

/-- A batch is at most three bytes over its limit. -/
theorem takeBatchLoop_le (remaining pendingBytes : Nat) (data : Str)
    (pending : List Str) :
    len (takeBatchLoop remaining pendingBytes data pending).1 ≤
      len data + remaining + 3 := by
  induction pending generalizing remaining pendingBytes data with
  | nil =>
    simp only [takeBatchLoop]
    omega
  | cons front rest ih =>
    unfold takeBatchLoop
    split
    · dsimp only
      omega
    · split
      · have := ih (remaining - len front) (pendingBytes - len front)
          (data ++ front)
        simp only [len_append] at this
        omega
      · next hpos hlt =>
        have hcut := byteBoundaryAtOrBefore_cut (Nat.lt_of_not_le hlt)
          (Nat.pos_of_ne_zero hpos)
        simp only [len_append, hcut.boundary]
        have := hcut.late
        omega

theorem takeAllLoop_bytes (data : Str) (pending : List Str) :
    (takeAllLoop (len pending.flatten) data pending).2 = 0 := by
  induction pending generalizing data with
  | nil => rfl
  | cons chunk rest ih =>
    have hrest : len (chunk :: rest).flatten - len chunk =
        len rest.flatten := by
      simp only [List.flatten_cons, len_append]
      omega
    rw [takeAllLoop, hrest, ih]

theorem trimLoop_bytes (bytesToDrop : Nat) (pending : List Str) :
    (trimLoop bytesToDrop (len pending.flatten) pending).2 =
      len (trimLoop bytesToDrop (len pending.flatten) pending).1.flatten := by
  induction pending generalizing bytesToDrop with
  | nil => rfl
  | cons front rest ih =>
    unfold trimLoop
    split
    · rfl
    · split
      · have hrest : len (front :: rest).flatten - len front =
            len rest.flatten := by
          simp only [List.flatten_cons, len_append]
          omega
        rw [hrest]
        exact ih _
      · have hsplit := congrArg len (splitAt_append front
          (byteBoundaryAtOrBefore front bytesToDrop))
        simp only [len_append, List.flatten_cons] at hsplit ⊢
        omega

/-- Where `bytes` bytes of the pending chunks end: at a character boundary, or
inside the first character of a chunk. -/
def EndsAligned (bytes : Nat) : List Str → Prop
  | [] => True
  | front :: rest =>
    if len front ≤ bytes then EndsAligned (bytes - len front) rest
    else isCharBoundary front bytes = true ∨ bytes < len (front.take 1)

theorem endsAligned_zero (pending : List Str) : EndsAligned 0 pending := by
  induction pending with
  | nil => trivial
  | cons front rest ih =>
    unfold EndsAligned
    split
    · rwa [Nat.zero_sub]
    · exact .inl (by cases front <;> rfl)

/-- Trimming drops enough exactly when what it is to drop ends aligned. -/
theorem trimLoop_drops_iff (bytesToDrop pendingBytes : Nat)
    {pending : List Str} (hle : bytesToDrop ≤ len pending.flatten) :
    len (trimLoop bytesToDrop pendingBytes pending).1.flatten +
        bytesToDrop ≤ len pending.flatten ↔
      EndsAligned bytesToDrop pending := by
  induction pending generalizing bytesToDrop pendingBytes with
  | nil => simpa [trimLoop, EndsAligned] using hle
  | cons front rest ih =>
    simp only [List.flatten_cons, len_append] at hle ⊢
    unfold trimLoop
    split
    · next hzero =>
      subst hzero
      simp [endsAligned_zero]
    · next hne =>
      split
      · next hfront =>
        have hrest := ih (bytesToDrop - len front)
          (pendingBytes - len front) (by omega)
        rw [EndsAligned, if_pos hfront, ← hrest]
        omega
      · next hfront =>
        have hcut := byteBoundaryAtOrBefore_cut
          (Nat.lt_of_not_le hfront) (Nat.pos_of_ne_zero hne)
        have hsplit := congrArg len (splitAt_append front
          (byteBoundaryAtOrBefore front bytesToDrop))
        rw [EndsAligned, if_neg hfront, ← hcut.early]
        simp only [List.flatten_cons, len_append] at hsplit ⊢
        rw [hcut.boundary] at hsplit
        omega

/-- The counter is the length of the pending text. -/
def OutputState.Counted (state : OutputState) : Prop :=
  state.pendingBytes = len state.pendingText

@[simp] theorem updateFlowState_pendingBytes (state : OutputState) :
    (updateFlowState state).2.pendingBytes = state.pendingBytes := by
  unfold updateFlowState
  split
  · rfl
  · split <;> rfl

@[simp] theorem shouldCloseForCatastrophicBacklog_pendingBytes
    (state : OutputState) :
    (shouldCloseForCatastrophicBacklog state).2.pendingBytes =
      state.pendingBytes := by
  unfold shouldCloseForCatastrophicBacklog
  split <;> rfl

theorem updateFlowState_counted (state : OutputState)
    (h : state.Counted) : (updateFlowState state).2.Counted := by
  simpa [OutputState.Counted] using h

theorem takePendingBatch_counted (state : OutputState) (h : state.Counted) :
    (takePendingBatch state).2.Counted := by
  have hloop := takeBatchLoop_bytes (batchLimit state) [] state.pending
  have hbytes : state.pendingBytes = len state.pending.flatten := h
  simp only [takePendingBatch, hbytes]
  split
  · exact h
  · split <;> exact hloop

variable {state : OutputState}

theorem trimPendingToMax_counted (h : state.Counted)
    (maxBytes : Nat) : (trimPendingToMax state maxBytes).Counted := by
  have hloop := trimLoop_bytes (state.pendingBytes - maxBytes) state.pending
  have hbytes : state.pendingBytes = len state.pending.flatten := h
  unfold trimPendingToMax
  split
  · exact h
  · rw [← hbytes] at hloop
    exact hloop

theorem takeAllPending_counted (state : OutputState) (h : state.Counted) :
    (takeAllPending state).2.Counted := by
  have hloop := takeAllLoop_bytes [] state.pending
  have hbytes : state.pendingBytes = len state.pending.flatten := h
  simp only [takeAllPending, hbytes]
  split
  · exact h
  · split <;> exact hloop

theorem flushFromState_counted (state : OutputState) (h : state.Counted) :
    (flushFromState state).2.Counted :=
  updateFlowState_counted _ (takePendingBatch_counted _ h)

theorem flushAllFromState_counted (state : OutputState)
    (h : state.Counted) : (flushAllFromState state).2.Counted :=
  updateFlowState_counted _
    (takeAllPending_counted _ (trimPendingToMax_counted h _))

theorem pushOwned_pendingBytes (htext : text ≠ []) (state : OutputState) :
    (pushOwned text state).2.pendingBytes =
      saturatingAdd state.pendingBytes (len text) := by
  unfold pushOwned
  rw [if_neg htext]
  dsimp only
  split
  · simp [disarm]
  · split <;> simp [arm]

@[simp] theorem shouldCloseForCatastrophicBacklog_pending
    (state : OutputState) :
    (shouldCloseForCatastrophicBacklog state).2.pending = state.pending := by
  unfold shouldCloseForCatastrophicBacklog
  split <;> rfl

theorem pushOwned_pending (htext : text ≠ []) (state : OutputState) :
    (pushOwned text state).2.pending = state.pending ++ [text] := by
  unfold pushOwned
  rw [if_neg htext]
  dsimp only
  split
  · simp [disarm]
  · split <;> simp [arm]

theorem pushOwned_payloads (text : Str) (state : OutputState) :
    (pushOwned text state).1.filterMap Action.payload? = [] := by
  unfold pushOwned
  split
  · rfl
  · dsimp only
    split <;> split <;> try split
    all_goals simp [List.filterMap_cons, Action.payload?]

theorem pushOwned_pendingText (text : Str) (state : OutputState) :
    (pushOwned text state).2.pendingText = state.pendingText ++ text := by
  simpa [pushOwned_payloads, payloadText] using pushOwned_text text state

/-- A push keeps the counter exact exactly when the pending text fits into the
counter. -/
theorem pushOwned_counted_iff
    (h : state.Counted) (hsmall : len state.pendingText < 2 ^ 64) :
    (pushOwned text state).2.Counted ↔
      len state.pendingText + len text < 2 ^ 64 := by
  by_cases htext : text = []
  · subst htext
    simpa [pushOwned, h] using hsmall
  · have hbytes : state.pendingBytes = len state.pendingText := h
    unfold OutputState.Counted
    rw [pushOwned_pendingBytes htext, pushOwned_pendingText, len_append,
      hbytes, saturatingAdd]
    omega

theorem section_counted {criticalSection : Section} (h : state.Counted)
    (hpush : ∀ text, criticalSection ≠ .call (.push text)) :
    (criticalSection.run state).2.Counted := by
  cases criticalSection with
  | call operation =>
    cases operation with
    | push text => exact absurd rfl (hpush text)
    | ack bytes =>
      simp only [Section.run, Operation.run, ack]
      split
      · exact h
      · split <;> exact updateFlowState_counted
          { state with unackedBytes := state.unackedBytes - bytes } h
    | attach =>
      exact flushFromState_counted
        { state with attached := true, unackedBytes := 0 }.disarm h
    | detach =>
      exact updateFlowState_counted
        { state with attached := false, unackedBytes := 0 }.disarm h
    | close => exact flushAllFromState_counted state.disarm h
  | flushIfScheduled flushId =>
    simp only [Section.run, flushIfScheduled]
    split
    · exact h
    · split
      · exact h
      · exact flushFromState_counted { state with scheduledFlushId := none } h
  | flushPending =>
    simp only [Section.run, flushPending]
    split
    · exact h
    · exact flushFromState_counted state.disarm h
  | reschedule =>
    simp only [Section.run, reschedule]
    split <;> exact h

/-- The critical section an event runs. -/
def World.criticalSection? (w : World) : Event → Option Section
  | .call operation => some (.call operation)
  | .timer index => (w.timers[index]?).map Section.flushIfScheduled
  | .perform index =>
    match w.nextAction (.perform index) with
    | some .flushPending => some .flushPending
    | some .reschedule => some .reschedule
    | _ => none

/-- The state a section hands to `take_pending_batch`. -/
def Section.batchState : Section → OutputState → OutputState
  | .call .attach, state =>
    { state with attached := true, unackedBytes := 0 }.disarm
  | .flushIfScheduled _, state => { state with scheduledFlushId := none }
  | .flushPending, state => state.disarm
  | _, state => state

def Section.isClose : Section → Bool
  | .call .close => true
  | _ => false

/-- The payloads a section computes. -/
def Section.payloads (criticalSection : Section) (state : OutputState) :
    List TerminalOutputPayload :=
  (criticalSection.run state).1.filterMap Action.payload?

/-- What one step does to the text and to the byte counter.  A batch and what
`close` retains are cut between characters. -/
structure Conserves (w : World) (event : Event) : Prop where
  text : ∀ t, w.step event = some t →
    payloadText t.taken ++ t.state.pendingText = t.kept
  bytes : ∀ t, w.step event = some t → t.state.Counted
  batch : ∀ criticalSection, w.criticalSection? event = some criticalSection →
    criticalSection.isClose = false →
      ∀ payload ∈ criticalSection.payloads w.state,
        payload.bytes = len payload.data ∧
          payload.data <+: w.state.pendingText ∧
          payload.bytes ≤ batchLimit (criticalSection.batchState w.state) + 3
  close : event = .call .close → ∃ dropped retained,
    w.state.pendingText = dropped ++ retained ∧
      payloadText ((Section.call .close).payloads w.state) = retained ∧
      keptAfterClose w = payloadText w.taken ++ retained ∧
      len retained ≤ outputCloseFlushMaxBytes

/-- A run conserves the output: every step does, and without `close` the taken
and the pending text are all that was pushed. -/
structure OutputConserved (events : List Event) : Prop where
  steps : system.Along Conserves {} events
  whole : ∀ w, system.runFrom {} events = some w → Event.call .close ∉ events →
      payloadText w.taken ++ w.state.pendingText = w.pushed

/-- What is pushed fits into the byte counter, and what `close` is to drop ends
at a character boundary or inside the first character of a chunk. -/
def FitsAndAligned (w : World) : Event → Prop
  | .call (.push text) => len w.state.pendingText + len text < 2 ^ 64
  | .call .close =>
    EndsAligned (w.state.pendingBytes - outputCloseFlushMaxBytes)
      w.state.pending
  | _ => True

/-- The invariant of the runs that meet the condition. -/
structure ByteInvariant (w : World) : Prop where
  text : TextInvariant w
  counted : w.state.Counted
  small : len w.state.pendingText < 2 ^ 64

theorem byteInvariant_initial : ByteInvariant {} where
  text := textInvariant_initial
  counted := rfl
  small := by decide

theorem step_state {w t : World} {event : Event} (h : w.step event = some t) :
    (∃ criticalSection, w.criticalSection? event = some criticalSection ∧
        t.state = (criticalSection.run w.state).2) ∨
      (w.criticalSection? event = none ∧ t.state = w.state) := by
  cases event with
  | call operation =>
    obtain rfl := Option.some.inj h
    exact .inl ⟨.call operation, rfl, rfl⟩
  | timer index =>
    simp only [step] at h
    cases htimer : w.timers[index]? with
    | none => simp [htimer] at h
    | some flushId =>
      simp only [htimer, Option.some.injEq] at h
      subst t
      exact .inl ⟨.flushIfScheduled flushId,
        by simp [criticalSection?, htimer], rfl⟩
  | perform index =>
    simp only [step] at h
    split at h
    · next action rest hthread =>
      obtain rfl := Option.some.inj h
      have hnext : w.nextAction (.perform index) = some action := by
        simp [nextAction, hthread]
      cases action with
      | flushPending =>
        exact .inl ⟨.flushPending,
          by simp [criticalSection?, hnext], rfl⟩
      | reschedule =>
        exact .inl ⟨.reschedule,
          by simp [criticalSection?, hnext], rfl⟩
      | _ => exact .inr ⟨by simp [criticalSection?, hnext], rfl⟩
    · cases h

theorem flushFromState_batch (state : OutputState) :
    ∀ payload ∈ (flushFromState state).1.payload,
      payload.bytes = len payload.data ∧
        payload.data <+: state.pendingText ∧
        payload.bytes ≤ batchLimit state + 3 := by
  have htext := takePendingBatch_text state
  have hle := takeBatchLoop_le (batchLimit state) state.pendingBytes []
    state.pending
  intro payload hpayload
  have htaken : (takePendingBatch state).1 = some payload := hpayload
  rw [htaken] at htext
  have hbytes : payload.bytes = len payload.data ∧
      payload.data = (takeBatchLoop (batchLimit state) state.pendingBytes []
        state.pending).1 := by
    simp only [takePendingBatch] at htaken
    split at htaken
    · cases htaken
    · split at htaken
      · cases htaken
      · obtain rfl := Option.some.inj htaken
        exact ⟨rfl, rfl⟩
  refine ⟨hbytes.1, ?_, ?_⟩
  · rw [← htext]
    simp [payloadText]
  · rw [hbytes.1, hbytes.2]
    simpa using hle

/-- Every batch is cut from the front of the pending text. -/
theorem section_batch {criticalSection : Section}
    (hclose : criticalSection.isClose = false) :
    ∀ payload ∈ criticalSection.payloads state,
      payload.bytes = len payload.data ∧
        payload.data <+: state.pendingText ∧
        payload.bytes ≤ batchLimit (criticalSection.batchState state) + 3 := by
  have hnone : ∀ {actions : List Action},
      actions.filterMap Action.payload? = [] →
        ∀ payload ∈ actions.filterMap Action.payload?,
          payload.bytes = len payload.data ∧
            payload.data <+: state.pendingText ∧
            payload.bytes ≤
              batchLimit (criticalSection.batchState state) + 3 := by
    intro actions hactions payload hpayload
    simp [hactions] at hpayload
  have hflush : ∀ from_, from_.pendingText = state.pendingText →
      criticalSection.batchState state = from_ →
        ∀ payload ∈ (applyFlushResult (flushFromState from_).1).filterMap
            Action.payload?,
          payload.bytes = len payload.data ∧ payload.data <+: state.pendingText
            ∧ payload.bytes ≤
              batchLimit (criticalSection.batchState state) + 3 := by
    rintro from_ hpending rfl payload hpayload
    rw [payload_applyFlushResult, Option.mem_toList] at hpayload
    rw [← hpending]
    exact flushFromState_batch _ payload hpayload
  cases criticalSection with
  | call operation =>
    cases operation with
    | push text => exact hnone (pushOwned_payloads text state)
    | ack bytes =>
      apply hnone
      simp only [Section.run, Operation.run, ack]
      split
      · rfl
      · split <;> simp
    | attach => exact hflush _ rfl rfl
    | detach => exact hnone (by simp [Section.run, Operation.run, detach])
    | close => simp [Section.isClose] at hclose
  | flushIfScheduled flushId =>
    unfold Section.payloads
    simp only [Section.run, flushIfScheduled]
    split
    · exact hnone rfl
    · split
      · exact hnone rfl
      · exact hflush _ rfl rfl
  | flushPending =>
    unfold Section.payloads
    simp only [Section.run, flushPending]
    split
    · exact hnone rfl
    · exact hflush _ rfl rfl
  | reschedule =>
    apply hnone
    simp only [Section.run, reschedule]
    split
    · rfl
    · simp

/-- What `close` hands out is what the trim retains. -/
theorem close_payloads (state : OutputState) :
    payloadText ((Section.call .close).payloads state) =
      (trimPendingToMax state outputCloseFlushMaxBytes).pendingText := by
  have htext := close_text state
  have hempty : (close state).2.pendingText = [] := by
    have htake : ∀ state, (takeAllPending state).2.pendingText = [] := by
      intro state
      simp only [takeAllPending]
      split
      · next hpending => simp [pendingText, hpending]
      · split <;> rfl
    simp [close, flushAllFromState, htake]
  rw [hempty, List.append_nil] at htext
  exact htext

theorem trimPendingToMax_le_iff (h : state.Counted) :
    len (trimPendingToMax state outputCloseFlushMaxBytes).pendingText ≤
        outputCloseFlushMaxBytes ↔
      EndsAligned (state.pendingBytes - outputCloseFlushMaxBytes)
        state.pending := by
  have hbytes : state.pendingBytes = len state.pending.flatten := h
  have hdrops := trimLoop_drops_iff
    (state.pendingBytes - outputCloseFlushMaxBytes) state.pendingBytes
    (show state.pendingBytes - outputCloseFlushMaxBytes ≤
      len state.pending.flatten by omega)
  unfold trimPendingToMax
  by_cases hle : state.pendingBytes ≤ outputCloseFlushMaxBytes
  · rw [if_pos hle, Nat.sub_eq_zero_of_le hle]
    have htext : len state.pendingText ≤ outputCloseFlushMaxBytes := h ▸ hle
    simp [htext, endsAligned_zero]
  · rw [if_neg hle, ← hdrops]
    change len (List.flatten (trimLoop _ _ _).1) ≤ _ ↔ _
    omega

theorem step_conserves_iff {w : World} (hw : ByteInvariant w)
    (event : Event) : Conserves w event ↔ FitsAndAligned w event := by
  constructor
  · intro h
    cases event with
    | call operation =>
      cases operation with
      | push text =>
        have hcounted := h.bytes _ rfl
        exact (pushOwned_counted_iff hw.counted hw.small).mp hcounted
      | close =>
        obtain ⟨-, retained, -, hretained, -, hle⟩ := h.close rfl
        rw [close_payloads] at hretained
        rw [← hretained] at hle
        exact (trimPendingToMax_le_iff hw.counted).mp hle
      | _ => trivial
    | _ => trivial
  · intro h
    refine ⟨fun t ht => (hw.text.step ht).text, fun t ht => ?_,
      fun criticalSection _ hclose => section_batch hclose, ?_⟩
    · rcases step_state ht with ⟨criticalSection, hrun, hstate⟩ |
        ⟨-, hstate⟩
      · rw [hstate]
        by_cases hpush : ∃ text, criticalSection = .call (.push text)
        · obtain ⟨text, rfl⟩ := hpush
          have hevent : event = .call (.push text) := by
            cases event with
            | call operation =>
              simpa [criticalSection?] using hrun
            | timer index => simp [criticalSection?] at hrun
            | perform index =>
              simp only [criticalSection?] at hrun
              split at hrun <;> simp at hrun
          subst hevent
          exact (pushOwned_counted_iff hw.counted hw.small).mpr h
        · exact section_counted hw.counted (fun text heq => hpush ⟨text, heq⟩)
      · exact hstate ▸ hw.counted
    · rintro rfl
      obtain ⟨dropped, hdropped⟩ :=
        trimPendingToMax_suffix w.state outputCloseFlushMaxBytes
      exact ⟨dropped, _, hdropped.symm, close_payloads w.state,
        keptAfterClose_eq hw.text, (trimPendingToMax_le_iff hw.counted).mpr h⟩

theorem section_accounted_le (criticalSection : Section) (state : OutputState) :
    len (criticalSection.run state).2.pendingText ≤
      len (criticalSection.accounted state) := by
  rw [← section_text criticalSection state, len_append]
  exact Nat.le_add_left _ _

theorem ByteInvariant.step {w t : World} {event : Event}
    (hw : ByteInvariant w) (hcond : FitsAndAligned w event)
    (h : w.step event = some t) : ByteInvariant t := by
  have hconserves := (step_conserves_iff hw event).mpr hcond
  refine ⟨hw.text.step h, hconserves.bytes t h, ?_⟩
  rcases step_state h with ⟨criticalSection, hrun, hstate⟩ | ⟨-, hstate⟩
  · rw [hstate]
    apply Nat.lt_of_le_of_lt (section_accounted_le _ _)
    have hsmall := hw.small
    cases criticalSection with
    | call operation =>
      cases operation with
      | push text =>
        cases event with
        | call operation =>
          obtain rfl : operation = .push text := by
            simpa [criticalSection?] using hrun
          have hfits : len w.state.pendingText + len text < 2 ^ 64 :=
            hcond
          rwa [Section.accounted, len_append]
        | timer index => simp [criticalSection?] at hrun
        | perform index =>
          simp only [criticalSection?] at hrun
          split at hrun <;> simp at hrun
      | close =>
        obtain ⟨dropped, hdropped⟩ :=
          trimPendingToMax_suffix w.state outputCloseFlushMaxBytes
        have hlen := congrArg len hdropped
        simp only [len_append] at hlen
        simp only [Section.accounted]
        omega
      | _ => exact hsmall
    | _ => exact hsmall
  · rw [hstate]
    exact hw.small

theorem along_conserves_iff {w : World} (hw : ByteInvariant w)
    (events : List Event) :
    system.Along Conserves w events ↔
      system.Along FitsAndAligned w events := by
  induction events generalizing w with
  | nil => exact Iff.rfl
  | cons event events ih =>
    simp only [Transition.System.Along, step_conserves_iff hw event]
    constructor
    · rintro ⟨hcond, hrest⟩
      exact ⟨hcond, fun t ht =>
        (ih (hw.step hcond ht)).mp (hrest t ht)⟩
    · rintro ⟨hcond, hrest⟩
      exact ⟨hcond, fun t ht =>
        (ih (hw.step hcond ht)).mpr (hrest t ht)⟩

/-- In lock order the coalescer conserves its output exactly in the runs whose
pushes fit into the counter and whose closes drop whole characters. -/
theorem output_conserved_iff (events : List Event) :
    OutputConserved events ↔ system.Along FitsAndAligned {} events := by
  constructor
  · intro h
    exact (along_conserves_iff byteInvariant_initial events).mp h.steps
  · intro h
    refine ⟨(along_conserves_iff byteInvariant_initial events).mpr h,
      fun w hrun hclose => ?_⟩
    rw [(run_textInvariant textInvariant_initial hrun).text]
    exact run_keeps_pushed hclose rfl hrun

/-- A mebibyte of two-byte characters and three bytes more. -/
def overlongText : Str := List.replicate 524288 'é' ++ "abc".toList

theorem len_overlongText : len overlongText = 1024 * 1024 + 3 := by
  rw [overlongText, len_append, len_replicate]
  rfl

/-- Dropping three bytes would end inside the second character. -/
theorem overlongText_not_aligned : ¬ EndsAligned 3 [overlongText] := by
  have hlong : ¬ len overlongText ≤ 3 := by
    rw [len_overlongText]
    decide
  have hinside : ∀ rest : Str,
      ¬ (isCharBoundary ('é' :: 'é' :: rest) 3 = true ∨
        3 < len (('é' :: 'é' :: rest).take 1)) := by
    intro rest
    simp [isCharBoundary, show 'é'.utf8Size = 2 from rfl]
  have hfront : overlongText =
      'é' :: 'é' :: (List.replicate 524286 'é' ++ "abc".toList) := by
    rw [overlongText, show 524288 = 524286 + 1 + 1 from rfl,
      List.replicate_succ, List.replicate_succ, List.cons_append,
      List.cons_append]
  rw [EndsAligned, if_neg hlong, hfront]
  exact hinside _

/-- Output that waits while no renderer is attached, and is then closed. -/
theorem close_not_conserved
    (hlen : len text = 1024 * 1024 + 3) (hcut : ¬ EndsAligned 3 [text]) :
    ¬ OutputConserved [.call (.push text), .call .close] := by
  intro h
  have hne : text ≠ [] := by
    rintro rfl
    simp at hlen
  have hcond := (along_conserves_iff byteInvariant_initial _).mp h.steps
  have hclose : EndsAligned
      ((pushOwned text {}).2.pendingBytes - outputCloseFlushMaxBytes)
      (pushOwned text {}).2.pending := (hcond.2 _ rfl).1
  rw [pushOwned_pendingBytes hne, pushOwned_pending hne, hlen] at hclose
  exact hcut hclose

/-- Of a mebibyte and three bytes, `close` retains a mebibyte and one byte. -/
theorem close_retains_too_much : ¬ ∀ events, OutputConserved events :=
  fun h => close_not_conserved len_overlongText overlongText_not_aligned (h _)

end NiceTerm.Output
