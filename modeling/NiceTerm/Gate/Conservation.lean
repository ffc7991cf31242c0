/-
The frame gate over whole runs.  In every state of a run the text sent and the
text held make up the input, exactly as long as every flush finds the text in
its order and no chunk is refused.
-/
import NiceTerm.Gate.Bytes

namespace NiceTerm.Gate

open JsString List Transition

namespace FrameGate

variable {gate : FrameGate} {text : JsStr}

/-- A refused chunk is empty, and a chunk that is taken flushes in order. -/
def EnqueueInOrder (gate : FrameGate) (chunk : QueuedOutputChunk)
    (pressure : Dec2026FrameCandidateContext) : Prop :=
  if gate.disposed ∨ chunk.bytes ≤ 0 ∨ chunk.data = [] then
    chunk.data = [] ∧ chunk.bytes = 0
  else if chunk.bytes = utf8Length chunk.data ∧
      gate.canCollapseNow pressure then
    gate.ProcessInOrder chunk.data
  else gate.FlushInOrder

instance (chunk : QueuedOutputChunk)
    (pressure : Dec2026FrameCandidateContext) :
    Decidable (gate.EnqueueInOrder chunk pressure) :=
  inferInstanceAs (Decidable (ite _ _ _))

/-- A teardown that acknowledges what is left sends nothing. -/
def DisposeInOrder (gate : FrameGate) (ackRemaining : Bool) : Prop :=
  (ackRemaining ∧ 0 < gate.getHeldBytes) ∨ gate.FlushInOrder

instance (ackRemaining : Bool) : Decidable (gate.DisposeInOrder ackRemaining) :=
  inferInstanceAs (Decidable (_ ∨ _))

/-- A gate in collapse mode that holds nothing once it is disposed. -/
structure Collapsing (gate : FrameGate) : Prop where
  mode : gate.mode = .collapse
  sound : gate.Sound
  emptied : gate.disposed = true →
    gate.pendingPrefix = [] ∧ gate.currentFrameData = [] ∧
      gate.heldFrame = none

theorem Collapsing.of_open (hmode : gate.mode = .collapse)
    (hsound : gate.Sound) (hopen : gate.disposed = false) : gate.Collapsing :=
  ⟨hmode, hsound, fun h => absurd h (by simp [hopen])⟩

theorem clearHeld_collapsing (hmode : gate.mode = .collapse) :
    gate.clearHeld.Collapsing :=
  ⟨hmode, ⟨rfl, rfl, by simp [clearHeld]⟩, fun _ => ⟨rfl, rfl, rfl⟩⟩

@[simp] theorem forwardText_mode (text : JsStr) :
    (gate.forwardText text).mode = gate.mode := by
  rw [forwardText_eq]

@[simp] theorem flush_mode : gate.flush.mode = gate.mode := by
  unfold flush
  split
  · rfl
  · rw [forwardHeld_eq]
    rfl

@[simp] theorem handleBarrier_mode (text : JsStr) :
    (gate.handleBarrier text).mode = gate.mode := by
  unfold handleBarrier
  split <;> simp

@[simp] theorem appendCurrentFrame_mode (text : JsStr) :
    (gate.appendCurrentFrame text).mode = gate.mode := by
  unfold appendCurrentFrame
  split
  · rfl
  · split
    · exact flush_mode
    · rfl

@[simp] theorem handleCompleteFrame_mode (data content : JsStr) :
    (gate.handleCompleteFrame data content).mode = gate.mode := by
  unfold handleCompleteFrame
  dsimp only
  split
  · rw [releaseHeldFrame_eq]
  · simp

@[simp] theorem processRound_mode (text : JsStr) :
    (gate.processRound text).1.mode = gate.mode := by
  unfold processRound
  split <;> split
  · simp
  · dsimp only
    split <;> simp [closeFrame]
  · simp [keepPrefix]
  · dsimp only
    split <;> simp [openFrame]

theorem processLoop_mode : (gate.processLoop text).mode = gate.mode := by
  induction gate, text using processLoop.induct with
  | case1 gate => rw [processLoop]; rfl
  | case2 gate text hne round ih =>
    rw [processLoop, dif_neg hne]
    exact ih.trans (processRound_mode text)

theorem processCollapseText_collapsing (h : gate.Collapsing)
    (hopen : gate.disposed = false) {total : Nat}
    (hcounts : Counts total gate text) :
    (gate.processCollapseText text).Collapsing := by
  obtain ⟨hafter, -⟩ := processLoop_moves gate.takePrefix
    (gate.pendingPrefix ++ text) hopen (fun _ => ⟨hopen, rfl⟩)
  have hsound := (hcounts.processCollapseText hopen).sound
  have hmode : (gate.takePrefix.processLoop
      (gate.pendingPrefix ++ text)).mode = .collapse :=
    processLoop_mode.trans h.mode
  unfold processCollapseText at hsound ⊢
  dsimp only at hsound ⊢
  split
  · next hcap =>
    rw [if_pos hcap] at hsound
    exact Collapsing.of_open (flush_mode.trans hmode) hsound
      (flush_idle hafter).isOpen
  · next hcap =>
    rw [if_neg hcap] at hsound
    exact Collapsing.of_open hmode hsound hafter

theorem Collapsing.flushInOrder (h : gate.Collapsing)
    (hdisposed : gate.disposed = true) : gate.FlushInOrder :=
  have hemptied := h.emptied hdisposed
  flushInOrder_of_held hemptied.1 hemptied.2.1

theorem Collapsing.flush (h : gate.Collapsing) : gate.flush.Collapsing := by
  by_cases hdisposed : gate.disposed = true
  · rw [FrameGate.flush, if_pos hdisposed]
    exact h
  · rw [FrameGate.flush, if_neg hdisposed, forwardHeld_eq]
    exact clearHeld_collapsing h.mode

theorem Collapsing.flush_moves (h : gate.Collapsing) :
    Pipe.Moves gate.FlushInOrder (gate.pipe []) (gate.flush.pipe []) := by
  by_cases hdisposed : gate.disposed = true
  · rw [FrameGate.flush, if_pos hdisposed]
    exact (Pipe.Moves.of_eq rfl rfl).congr
      (iff_of_true trivial (h.flushInOrder hdisposed))
  · exact FrameGate.flush_moves (by simpa using hdisposed) []

/-- The chunk is forwarded as it is, behind everything that was held. -/
theorem flush_forward_moves (hopen : gate.disposed = false)
    (chunk : QueuedOutputChunk) :
    Pipe.Moves gate.FlushInOrder (gate.pipe chunk.data)
      ((gate.flush.forward chunk).pipe []) := by
  have hforward : Pipe.Moves (chunk.data = chunk.data)
      (gate.flush.pipe chunk.data) ((gate.flush.forward chunk).pipe []) := by
    apply Pipe.Moves.send (emit_sent _) _ rfl
    have hkept : (gate.flush.forward chunk).heldText = gate.flush.heldText :=
      rfl
    simp only [pipe, hkept, flush_heldText hopen, nil_append, append_nil]
  have hflush := FrameGate.flush_moves hopen chunk.data
  exact (hflush.trans hforward).congr (by simp)

theorem flush_bytes (hsound : gate.Sound) (hopen : gate.disposed = false) :
    gate.flush.sentBytes + gate.flush.getHeldBytes =
      gate.sentBytes + gate.getHeldBytes := by
  have hcounts : Counts (gate.sentBytes + gate.getHeldBytes) gate [] :=
    ⟨hsound, rfl, rfl⟩
  exact (hcounts.flush hopen).sum

theorem flush_forward_bytes (hsound : gate.Sound)
    (hopen : gate.disposed = false) (chunk : QueuedOutputChunk) :
    (gate.flush.forward chunk).sentBytes +
        (gate.flush.forward chunk).getHeldBytes =
      gate.sentBytes + gate.getHeldBytes + chunk.bytes := by
  have hflush := flush_bytes hsound hopen
  have hsent : (gate.flush.forward chunk).sentBytes =
      gate.flush.sentBytes + chunk.bytes := emit_sentBytes _
  have hheld : (gate.flush.forward chunk).getHeldBytes =
      gate.flush.getHeldBytes := rfl
  omega

end FrameGate

def GateSession.StepInOrder (session : GateSession) : GateEvent → Prop
  | .enqueue chunk pressure => session.gate.EnqueueInOrder chunk pressure
  | .timeout | .flush => session.gate.FlushInOrder
  | .dispose ackRemaining => session.gate.DisposeInOrder ackRemaining

instance (session : GateSession) :
    ∀ event, Decidable (session.StepInOrder event)
  | .enqueue chunk pressure =>
    inferInstanceAs (Decidable (session.gate.EnqueueInOrder chunk pressure))
  | .timeout => inferInstanceAs (Decidable session.gate.FlushInOrder)
  | .flush => inferInstanceAs (Decidable session.gate.FlushInOrder)
  | .dispose ackRemaining =>
    inferInstanceAs (Decidable (session.gate.DisposeInOrder ackRemaining))

/-- The text sent and held is the input, and so are the bytes. -/
structure GateSession.Conserved (session : GateSession) : Prop where
  text : session.gate.sent ++ session.gate.heldText = session.input
  bytes : session.gate.sentBytes + session.gate.getHeldBytes =
    session.inputBytes

namespace GateSession

variable {session : GateSession} {after : FrameGate}

/-- After a chunk has moved through the gate the books balance exactly if it
has been taken in order. -/
theorem conserved_iff_of_moves (hconserved : session.Conserved) {P : Prop}
    {data : JsStr} {bytes : Nat}
    (hmoves : Pipe.Moves P (session.gate.pipe data) (after.pipe []))
    (hbytes : after.sentBytes + after.getHeldBytes =
      session.gate.sentBytes + session.gate.getHeldBytes + bytes) :
    Conserved ⟨after, session.input ++ data, session.inputBytes + bytes⟩ ↔
      P := by
  have htext := hmoves.total_eq_iff
  simp only [Pipe.total, FrameGate.pipe, append_nil] at htext
  rw [← append_assoc, hconserved.text] at htext
  rw [hconserved.bytes] at hbytes
  exact ⟨fun h => htext.mp h.text, fun hP => ⟨htext.mpr hP, hbytes⟩⟩

section

variable (hgate : session.gate.Collapsing)
    (hopen : session.gate.disposed = false) (hconserved : session.Conserved)
include hgate hopen hconserved

theorem enqueue_flush (chunk : QueuedOutputChunk) :
    (session.gate.flush.forward chunk).Collapsing ∧
      (Conserved ⟨session.gate.flush.forward chunk,
          session.input ++ chunk.data, session.inputBytes + chunk.bytes⟩ ↔
        session.gate.FlushInOrder) := by
  have hflush := hgate.flush
  refine ⟨⟨hflush.mode, ⟨hflush.sound.pending, hflush.sound.current,
    hflush.sound.held⟩, hflush.emptied⟩, ?_⟩
  exact conserved_iff_of_moves hconserved
    (FrameGate.flush_forward_moves hopen chunk)
    (FrameGate.flush_forward_bytes hgate.sound hopen chunk)

theorem enqueue_process
    {chunk : QueuedOutputChunk} (hwell : isWellFormed chunk.data = true)
    (hbytes : chunk.bytes = utf8Length chunk.data) :
    (session.gate.processCollapseText chunk.data).Collapsing ∧
      (Conserved ⟨session.gate.processCollapseText chunk.data,
          session.input ++ chunk.data, session.inputBytes + chunk.bytes⟩ ↔
        session.gate.ProcessInOrder chunk.data) := by
  have hcounts : FrameGate.Counts
      (session.gate.sentBytes + session.gate.getHeldBytes + chunk.bytes)
      session.gate chunk.data := ⟨hgate.sound, hwell, by rw [hbytes]⟩
  refine ⟨FrameGate.processCollapseText_collapsing hgate hopen hcounts, ?_⟩
  exact conserved_iff_of_moves hconserved
    (FrameGate.processCollapseText_moves hopen chunk.data)
    (hcounts.processCollapseText hopen).sum

end

theorem enqueue_refused (hconserved : session.Conserved)
    (chunk : QueuedOutputChunk) :
    Conserved ⟨session.gate, session.input ++ chunk.data,
        session.inputBytes + chunk.bytes⟩ ↔
      chunk.data = [] ∧ chunk.bytes = 0 := by
  constructor
  · intro h
    have htext : session.input = session.input ++ chunk.data :=
      hconserved.text.symm.trans h.text
    have hbytes : session.inputBytes = session.inputBytes + chunk.bytes :=
      hconserved.bytes.symm.trans h.bytes
    exact ⟨self_eq_append_right.mp htext, by omega⟩
  · rintro ⟨hdata, hbytes⟩
    rw [hdata, hbytes, append_nil]
    exact ⟨hconserved.text, hconserved.bytes⟩

theorem enqueue_conserved_iff (hgate : session.gate.Collapsing)
    (hconserved : session.Conserved) {chunk : QueuedOutputChunk}
    (hwell : isWellFormed chunk.data = true)
    (pressure : Dec2026FrameCandidateContext) :
    (session.gate.enqueue chunk pressure).Collapsing ∧
      (Conserved ⟨session.gate.enqueue chunk pressure,
          session.input ++ chunk.data, session.inputBytes + chunk.bytes⟩ ↔
        session.gate.EnqueueInOrder chunk pressure) := by
  unfold FrameGate.enqueue FrameGate.EnqueueInOrder
  split
  · exact ⟨hgate, enqueue_refused hconserved chunk⟩
  · next htaken =>
    have hopen : session.gate.disposed = false := by
      simpa using fun h => htaken (.inl h)
    have hcollapse : ¬ (session.gate.mode = .off ∨
        session.gate.mode = .shadow) := by
      simp [hgate.mode]
    by_cases hbytes : chunk.bytes = utf8Length chunk.data
    · by_cases hpressure : session.gate.canCollapseNow pressure = true
      · simpa [hbytes, hcollapse, hpressure] using
          enqueue_process hgate hopen hconserved hwell hbytes
      · simpa [hbytes, hcollapse, hpressure] using
          enqueue_flush hgate hopen hconserved chunk
    · simpa [hbytes, FrameGate.failOpen] using
        enqueue_flush hgate hopen hconserved chunk

theorem dispose_ack (hconserved : session.Conserved) :
    Conserved ⟨(session.gate.emit (.ackDropped session.gate.heldText
        session.gate.getHeldBytes)).clearHeld, session.input,
      session.inputBytes⟩ := by
  constructor
  · change (session.gate.emit _).sent ++ [] = session.input
    rw [FrameGate.emit_sent, append_nil]
    exact hconserved.text
  · change (session.gate.emit _).sentBytes + 0 = session.inputBytes
    rw [FrameGate.emit_sentBytes]
    exact hconserved.bytes

theorem dispose_forward (hsound : session.gate.Sound)
    (hconserved : session.Conserved) :
    Conserved ⟨session.gate.forwardHeld.clearHeld, session.input,
        session.inputBytes⟩ ↔ session.gate.FlushInOrder := by
  have hmoves : Pipe.Moves session.gate.FlushInOrder (session.gate.pipe [])
      (session.gate.forwardHeld.clearHeld.pipe []) := by
    apply Pipe.Moves.send FrameGate.forwardHeld_sent _
      FrameGate.length_flushText
    rfl
  have hbytes : session.gate.forwardHeld.sentBytes + 0 =
      session.gate.sentBytes + session.gate.getHeldBytes + 0 := by
    rw [FrameGate.forwardHeld_sentBytes, hsound.getHeldBytes]
  have hiff := conserved_iff_of_moves hconserved hmoves hbytes
  rwa [append_nil] at hiff

theorem dispose_conserved_iff (hgate : session.gate.Collapsing)
    (hconserved : session.Conserved) (ackRemaining : Bool) :
    (session.gate.dispose ackRemaining).Collapsing ∧
      (Conserved ⟨session.gate.dispose ackRemaining, session.input,
          session.inputBytes⟩ ↔
        session.gate.DisposeInOrder ackRemaining) := by
  unfold FrameGate.dispose FrameGate.DisposeInOrder
  split
  · next hdisposed =>
    exact ⟨hgate, iff_of_true hconserved (.inr (hgate.flushInOrder hdisposed))⟩
  · let closed : GateSession :=
      { session with gate := { session.gate with disposed := true } }
    have hclosed : closed.gate.mode = .collapse := hgate.mode
    have hsound : closed.gate.Sound :=
      ⟨hgate.sound.pending, hgate.sound.current, hgate.sound.held⟩
    have hbalance : closed.Conserved := ⟨hconserved.text, hconserved.bytes⟩
    dsimp only
    split
    · next hack =>
      exact ⟨FrameGate.clearHeld_collapsing hclosed,
        iff_of_true (dispose_ack hbalance) (.inl hack)⟩
    · next hack =>
      have hmode : closed.gate.forwardHeld.mode = .collapse := by
        rw [FrameGate.forwardHeld_eq]
        exact hclosed
      have horder := dispose_forward hsound hbalance
      refine ⟨FrameGate.clearHeld_collapsing hmode, horder.trans ?_⟩
      exact ⟨.inr, fun h => h.resolve_left hack⟩

theorem flush_conserved_iff (hgate : session.gate.Collapsing)
    (hconserved : session.Conserved) :
    Conserved ⟨session.gate.flush, session.input, session.inputBytes⟩ ↔
      session.gate.FlushInOrder := by
  by_cases hdisposed : session.gate.disposed = true
  · rw [FrameGate.flush, if_pos hdisposed]
    exact iff_of_true hconserved (hgate.flushInOrder hdisposed)
  · have hopen : session.gate.disposed = false := by simpa using hdisposed
    have hbytes := FrameGate.flush_bytes hgate.sound hopen
    have hiff := conserved_iff_of_moves hconserved hgate.flush_moves
      (by rw [hbytes, Nat.add_zero])
    rwa [append_nil] at hiff

end GateSession

/-- The text of the event is well-formed UTF-16. -/
def GateEvent.WellFormed : GateEvent → Prop
  | .enqueue chunk _ => isWellFormed chunk.data = true
  | _ => True

/-- One event keeps the books exactly if it sends everything in order. -/
theorem gateStep_conserved_iff {session next : GateSession}
    {event : GateEvent} (hgate : session.gate.Collapsing)
    (hconserved : session.Conserved) (hwell : event.WellFormed)
    (hstep : gateStep session event = some next) :
    next.gate.Collapsing ∧ (next.Conserved ↔ session.StepInOrder event) := by
  cases event with
  | enqueue chunk pressure =>
    rw [← Option.some.inj hstep]
    exact GateSession.enqueue_conserved_iff hgate hconserved hwell pressure
  | timeout =>
    simp only [gateStep] at hstep
    split at hstep
    · rw [← Option.some.inj hstep]
      let fired : GateSession :=
        { session with gate := { session.gate with failOpenTimer := false } }
      have hfired : fired.gate.Collapsing :=
        ⟨hgate.mode, ⟨hgate.sound.pending, hgate.sound.current,
          hgate.sound.held⟩, hgate.emptied⟩
      have hbalance : fired.Conserved :=
        ⟨hconserved.text, hconserved.bytes⟩
      exact ⟨hfired.flush, GateSession.flush_conserved_iff hfired hbalance⟩
    · exact absurd hstep (by simp)
  | flush =>
    rw [← Option.some.inj hstep]
    exact ⟨hgate.flush, GateSession.flush_conserved_iff hgate hconserved⟩
  | dispose ackRemaining =>
    rw [← Option.some.inj hstep]
    exact GateSession.dispose_conserved_iff hgate hconserved ackRemaining

/-- Order and bytes hold throughout a run exactly if all its steps keep the
order. -/
theorem conserved_throughout_iff {events : List GateEvent}
    {session : GateSession} (hwell : ∀ event ∈ events, event.WellFormed)
    (hrun : gateSystem.runFrom openedGate events = some session) :
    gateSystem.Throughout GateSession.Conserved openedGate events ↔
      gateSystem.Along GateSession.StepInOrder openedGate events := by
  refine gateSystem.throughout_iff_along
    (fun session => session.gate.Collapsing) ?_ ?_ ?_ hrun
  · intro session event hmem next hgate hconserved hstep
    exact gateStep_conserved_iff hgate hconserved (hwell event hmem) hstep
  · exact FrameGate.Collapsing.of_open rfl ⟨rfl, rfl, by simp [openedGate]⟩ rfl
  · exact ⟨rfl, rfl⟩

/-- A backlog in the alternate screen, as `collapse` needs it. -/
def backlog : Dec2026FrameCandidateContext := ⟨32 * 1024 + 1, 0, true⟩

/-- A complete empty frame is held and a second one is open at the time-out. -/
def openBehindHeld : List GateEvent :=
  [.enqueue ⟨dec2026BeginEsc ++ dec2026EndEsc, 16⟩ backlog,
    .enqueue ⟨dec2026BeginEsc ++ [0x41], 9⟩ backlog, .timeout]

/-- What has then been forwarded: the open frame before the held one. -/
def timedOut : GateSession where
  gate := {
    mode := .collapse
    emitted := [.forward (dec2026BeginEsc ++ [0x41]) 9,
      .forward (dec2026BeginEsc ++ dec2026EndEsc) 16] }
  input := dec2026BeginEsc ++ dec2026EndEsc ++ dec2026BeginEsc ++ [0x41]
  inputBytes := 25

theorem timeout_swaps_frames :
    gateSystem.runFrom openedGate openBehindHeld = some timedOut ∧
      ¬ timedOut.Conserved := by
  constructor
  · decide +kernel
  · intro h
    have htext := h.text
    exact absurd htext (by decide)

/-- The second frame repaints the screen, so the first one is dropped; the
third is cut by the end of the chunk before it is complete. -/
def replacedRun : List GateEvent :=
  [.enqueue ⟨dec2026BeginEsc ++ [0x41] ++ dec2026EndEsc ++
      dec2026BeginEsc ++ [0x1b, 0x5b, 0x30, 0x6d, 0x1b, 0x5b, 0x32, 0x4a, 0x1b,
        0x5b, 0x48] ++ dec2026EndEsc, 44⟩ backlog,
    .flush, .enqueue ⟨dec2026BeginEsc ++ [0x42], 9⟩ backlog, .timeout,
    .dispose true]

theorem replacedRun_conserved :
    gateSystem.Throughout GateSession.Conserved openedGate replacedRun := by
  have hrun : ∃ session,
      gateSystem.runFrom openedGate replacedRun = some session :=
    Option.isSome_iff_exists.mp (by decide +kernel)
  obtain ⟨session, hrun⟩ := hrun
  apply (conserved_throughout_iff _ hrun).mpr
  · decide +kernel
  · simp [replacedRun, GateEvent.WellFormed, dec2026BeginEsc, dec2026EndEsc]
    decide

end NiceTerm.Gate
