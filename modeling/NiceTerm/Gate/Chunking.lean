/-
Cutting the output stream into calls of `enqueue`.  Where the held-byte cap is
not reached the gate keeps to its view, so two ways to cut one stream deliver
the same text and drop the same frames, as long as neither cuts a mark while a
frame is open; there the cut mark is never put together again.
-/
import NiceTerm.Gate.Conservation
import NiceTerm.Gate.Pieces

namespace NiceTerm.Gate

open JsString

def Emission.forwardedText : Emission → JsStr
  | .forward data _ => data
  | .ackDropped _ _ => []

def Emission.droppedTexts : Emission → List JsStr
  | .forward _ _ => []
  | .ackDropped text _ => [text]

namespace FrameGate

open List

variable {gate : FrameGate} {text : JsStr}

def forwarded (gate : FrameGate) : JsStr :=
  gate.emitted.flatMap Emission.forwardedText

def droppedFrames (gate : FrameGate) : List JsStr :=
  gate.emitted.flatMap Emission.droppedTexts

/-- The forwarded and the still held text. -/
def delivered (gate : FrameGate) : JsStr :=
  gate.forwarded ++ gate.heldText

def view (gate : FrameGate) : GateView where
  pending := gate.pendingPrefix
  data := gate.currentFrameData
  content := gate.currentFrameContent
  held := gate.heldFrame.map Dec2026CompleteFrame.data
  forwarded := gate.forwarded
  dropped := gate.droppedFrames

theorem heldData_eq : gate.heldData =
    (gate.heldFrame.map Dec2026CompleteFrame.data).getD [] := by
  unfold heldData
  split <;> next h => rw [h]; rfl

variable (emission : Emission)

theorem emit_view :
    (gate.emit emission).view = { gate.view with
        forwarded := gate.forwarded ++ emission.forwardedText
        dropped := gate.droppedFrames ++ emission.droppedTexts } := by
  simp [view, forwarded, droppedFrames, emit]

@[simp] theorem emit_forwarded :
    (gate.emit emission).forwarded =
      gate.forwarded ++ emission.forwardedText := by
  simp [forwarded, emit]

@[simp] theorem emit_droppedFrames :
    (gate.emit emission).droppedFrames =
      gate.droppedFrames ++ emission.droppedTexts := by
  simp [droppedFrames, emit]

@[simp] theorem forwardText_forwarded (text : JsStr) :
    (gate.forwardText text).forwarded = gate.forwarded ++ text := by
  unfold forwardText
  split
  · next hempty => rw [hempty, append_nil]
  · exact emit_forwarded _

@[simp] theorem forwardText_droppedFrames (text : JsStr) :
    (gate.forwardText text).droppedFrames = gate.droppedFrames := by
  unfold forwardText
  split
  · rfl
  · exact (emit_droppedFrames _).trans (append_nil _)

theorem forwardText_view (text : JsStr) :
    (gate.forwardText text).view = gate.view.forward text := by
  rw [view, forwardText_forwarded, forwardText_droppedFrames, forwardText_eq]
  rfl

theorem forwardHeld_forwarded : gate.forwardHeld.forwarded =
    gate.forwarded ++ gate.pendingPrefix ++ gate.currentFrameData ++
      gate.heldData := by
  unfold forwardHeld
  simp only [forwardText_currentFrameData, forwardText_heldFrame, heldData]
  split <;> simp

theorem forwardHeld_droppedFrames :
    gate.forwardHeld.droppedFrames = gate.droppedFrames := by
  unfold forwardHeld
  simp only [forwardText_currentFrameData, forwardText_heldFrame]
  split <;> simp

theorem flush_view (hopen : gate.disposed = false) :
    gate.flush.view = gate.view.flush := by
  have hforwarded : gate.flush.forwarded = gate.forwardHeld.forwarded := by
    rw [flush_eq hopen]
    rfl
  have hdropped : gate.flush.droppedFrames =
      gate.forwardHeld.droppedFrames := by
    rw [flush_eq hopen]
    rfl
  rw [view, hforwarded, hdropped, forwardHeld_forwarded,
    forwardHeld_droppedFrames, heldData_eq, flush_eq hopen]
  rfl

theorem flush_forwardText_view (hopen : gate.disposed = false) (text : JsStr) :
    (gate.flush.forwardText text).view = gate.view.flush.forward text := by
  rw [forwardText_view, flush_view hopen]

theorem handleBarrier_view (hopen : gate.disposed = false) (text : JsStr) :
    (gate.handleBarrier text).view = gate.view.barrier text := by
  unfold handleBarrier GateView.barrier
  split
  · rfl
  · exact flush_forwardText_view hopen text

/-- Growing the open frame does not reach the cap. -/
def AppendBelowCap (gate : FrameGate) (text : JsStr) : Prop :=
  text ≠ [] → utf8Length (gate.growCurrentFrame text).currentFrameData <
      defaultMaxHeldFrameBytes

instance : Decidable (gate.AppendBelowCap text) :=
  inferInstanceAs (Decidable (_ → _))

theorem appendCurrentFrame_view (hbelow : gate.AppendBelowCap text) :
    (gate.appendCurrentFrame text).view = gate.view.append text := by
  unfold appendCurrentFrame
  split
  · next hempty =>
    rw [hempty, GateView.append_nil]
  · next hne =>
    rw [if_neg (Nat.not_le.mpr (hbelow hne))]
    rfl

theorem releaseHeldFrame_view (proof : SuccessorProof) :
    (gate.releaseHeldFrame proof).view = gate.view.release proof := by
  unfold releaseHeldFrame GateView.release
  cases hheld : gate.heldFrame with
  | none =>
    have hview : gate.view.held = none := congrArg (Option.map _) hheld
    rw [hview]
  | some frame =>
    have hview : gate.view.held = some frame.data :=
      congrArg (Option.map _) hheld
    rw [hview]
    by_cases hproof : proof = .selfContainedReplacement
    · simp only [if_pos hproof, dropHeldFrame, hheld]
      change { (gate.emit (.ackDropped frame.data frame.bytes)).view with
        held := none } = _
      rw [emit_view, Emission.forwardedText, append_nil]
      rfl
    · simp only [if_neg hproof]
      change { (gate.forwardText frame.data).view with held := none } = _
      rw [forwardText_view]
      rfl

theorem handleCompleteFrame_view (hopen : gate.disposed = false)
    (data content : JsStr) :
    (gate.handleCompleteFrame data content).view =
      gate.view.complete data content := by
  unfold handleCompleteFrame GateView.complete
  dsimp only
  cases classifyDec2026Frame content (utf8Length data) with
  | replaceableVisual bytes proof =>
    simp only
    rw [← releaseHeldFrame_view]
    rfl
  | stateful bytes reason => exact flush_forwardText_view hopen data
  | unknown bytes reason => exact flush_forwardText_view hopen data

theorem closeFrame_view (hopen : gate.disposed = false) (sequence : JsStr) :
    (gate.closeFrame sequence).view = gate.view.closeWith sequence := by
  let emptied : FrameGate :=
    { gate with currentFrameData := [], currentFrameContent := [] }
  have hemptied : emptied.disposed = false := hopen
  exact handleCompleteFrame_view hemptied _ _

/-- What the open frame grows by in this round. -/
def frameText (text : JsStr) : JsStr :=
  match findNextBoundary text with
  | none => text
  | some boundary => text.take boundary.index

def RoundBelowCap (gate : FrameGate) (text : JsStr) : Prop :=
  gate.currentFrameData ≠ [] → gate.AppendBelowCap (frameText text)

instance : Decidable (gate.RoundBelowCap text) :=
  inferInstanceAs (Decidable (_ → _))

theorem processRound_view (hidle : gate.Idle)
    (hbelow : gate.RoundBelowCap text) :
    (gate.processRound text).1.view = (gate.view.round text).1 ∧
      (gate.processRound text).2 = (gate.view.round text).2 := by
  have hview : gate.view.data = gate.currentFrameData := rfl
  unfold processRound GateView.round
  rw [hview]
  by_cases hdata : gate.currentFrameData = []
  · simp only [hdata, ne_eq, not_true_eq_false, if_false]
    cases hfind : findNextBoundary text with
    | none =>
      simp only
      rw [← handleBarrier_view hidle.isOpen]
      exact ⟨rfl, trivial⟩
    | some boundary =>
      have hbefore := handleBarrier_view hidle.isOpen
        (text.take boundary.index)
      have hafter := handleBarrier_idle hidle (text.take boundary.index)
      simp only
      rw [← hbefore]
      cases boundary.kind with
      | closes => exact ⟨handleBarrier_view hafter.isOpen _, rfl⟩
      | opens => exact ⟨rfl, rfl⟩
  · have happend := hbelow hdata
    rw [frameText] at happend
    simp only [ne_eq, hdata, not_false_eq_true, if_true]
    cases hfind : findNextBoundary text with
    | none =>
      rw [hfind] at happend
      exact ⟨appendCurrentFrame_view happend, rfl⟩
    | some boundary =>
      rw [hfind] at happend
      have hbefore := appendCurrentFrame_view happend
      have hafter := appendCurrentFrame_idle hidle (text.take boundary.index)
      simp only
      rw [← hbefore]
      cases boundary.kind with
      | opens => exact ⟨flush_forwardText_view hafter.isOpen _, rfl⟩
      | closes => exact ⟨closeFrame_view hafter.isOpen _, rfl⟩

/-- No round of the loop reaches the cap. -/
def loopBelowCap (gate : FrameGate) (text : JsStr) : Bool :=
  if _h : text = [] then true
  else
    let round := gate.processRound text
    decide (gate.RoundBelowCap text) && loopBelowCap round.1 round.2
termination_by text.length
decreasing_by exact length_processRound gate _h

theorem processLoop_view (gate : FrameGate) (text : JsStr)
    (hopen : gate.disposed = false) (hidle : text ≠ [] → gate.Idle)
    (hbelow : gate.loopBelowCap text = true) :
    (gate.processLoop text).view = gate.view.loop text := by
  induction gate, text using processLoop.induct with
  | case1 gate => rw [processLoop, dif_pos rfl, GateView.loop_nil]
  | case2 gate text hne round ih =>
    rw [loopBelowCap, dif_neg hne, Bool.and_eq_true, decide_eq_true_iff]
      at hbelow
    obtain ⟨hround, hnext⟩ := processRound_idle (hidle hne) text
    obtain ⟨hview, hrest⟩ := processRound_view (hidle hne) hbelow.1
    rw [processLoop, dif_neg hne, GateView.loop_of_ne_nil hne, ← hview,
      ← hrest]
    exact ih hround hnext hbelow.2

/-- The held-byte cap is not reached while this piece is processed. -/
def ProcessBelowCap (gate : FrameGate) (data : JsStr) : Prop :=
  let text := gate.pendingPrefix ++ data
  gate.takePrefix.loopBelowCap text = true ∧
    (gate.takePrefix.processLoop text).getHeldBytes < defaultMaxHeldFrameBytes

instance (data : JsStr) : Decidable (gate.ProcessBelowCap data) :=
  inferInstanceAs (Decidable (_ ∧ _))

variable {data : JsStr}

theorem processCollapseText_view (hopen : gate.disposed = false)
    (hbelow : gate.ProcessBelowCap data) :
    (gate.processCollapseText data).view = gate.view.process data := by
  obtain ⟨hloop, hheld⟩ := hbelow
  unfold processCollapseText
  simp only [if_neg (Nat.not_le.mpr hheld)]
  exact processLoop_view gate.takePrefix (gate.pendingPrefix ++ data) hopen
    (fun _ => ⟨hopen, rfl⟩) hloop

/-- A piece of the stream as it reaches `enqueue`, with its own byte length. -/
def enqueueText (gate : FrameGate) (pressure : Dec2026FrameCandidateContext)
    (data : JsStr) : FrameGate :=
  gate.enqueue ⟨data, utf8Length data⟩ pressure

def enqueueAll (gate : FrameGate) (pressure : Dec2026FrameCandidateContext)
    (pieces : List JsStr) : FrameGate :=
  pieces.foldl (fun gate data => gate.enqueueText pressure data) gate

variable {pressure : Dec2026FrameCandidateContext}

/-- The held-byte cap is not reached while the pieces are processed. -/
def BelowCap (pressure : Dec2026FrameCandidateContext) :
    FrameGate → List JsStr → Prop
  | _, [] => True
  | gate, data :: rest =>
    (data ≠ [] → gate.canCollapseNow pressure = true →
      gate.ProcessBelowCap data) ∧
    BelowCap pressure (gate.enqueueText pressure data) rest

/-- No piece ends inside a mark while a frame is open. -/
def Uncut (pressure : Dec2026FrameCandidateContext) :
    FrameGate → List JsStr → Prop
  | _, [] => True
  | gate, data :: rest =>
    (gate.currentFrameData ≠ [] →
      ¬ Marks.Straddles dec2026Sequences gate.currentFrameData
        (data :: rest).flatten) ∧
    Uncut pressure (gate.enqueueText pressure data) rest

instance decidableBelowCap : ∀ (gate : FrameGate) (pieces : List JsStr),
    Decidable (gate.BelowCap pressure pieces)
  | _, [] => isTrue trivial
  | gate, data :: rest =>
    have := decidableBelowCap (gate.enqueueText pressure data) rest
    inferInstanceAs (Decidable (_ ∧ _))

instance decidableUncut : ∀ (gate : FrameGate) (pieces : List JsStr),
    Decidable (gate.Uncut pressure pieces)
  | _, [] => isTrue trivial
  | gate, data :: rest =>
    have := decidableUncut (gate.enqueueText pressure data) rest
    inferInstanceAs (Decidable (_ ∧ _))

theorem canCollapseNow_congr {other : FrameGate}
    (hmode : other.mode = gate.mode) :
    other.canCollapseNow pressure = gate.canCollapseNow pressure := by
  rw [canCollapseNow, canCollapseNow, hmode]

theorem utf8Length_pos (h : data ≠ []) : 0 < utf8Length data :=
  Nat.lt_of_lt_of_le (length_pos_iff.mpr h) (length_le_utf8Length data)

/-- A piece that is not empty is not refused by an open gate. -/
theorem enqueueText_of_ne_nil (hopen : gate.disposed = false)
    (hne : data ≠ []) (pressure : Dec2026FrameCandidateContext) :
    gate.enqueueText pressure data =
      if gate.canCollapseNow pressure then gate.processCollapseText data
      else if gate.mode = .off ∨ gate.mode = .shadow then
        gate.forward ⟨data, utf8Length data⟩
      else gate.flush.forward ⟨data, utf8Length data⟩ := by
  have hpos := utf8Length_pos hne
  have htaken : ¬ (gate.disposed = true ∨ utf8Length data ≤ 0 ∨ data = []) := by
    rintro (hdisposed | hzero | hnil)
    · exact Bool.noConfusion (hopen.symm.trans hdisposed)
    · omega
    · exact hne hnil
  rw [enqueueText, enqueue, if_neg htaken, if_neg (not_not.mpr rfl)]
  by_cases hpass : gate.mode = .off ∨ gate.mode = .shadow
  · have hnot : gate.canCollapseNow pressure = false := by
      rcases hpass with hmode | hmode <;> rw [canCollapseNow, hmode] <;> rfl
    rw [if_pos hpass, hnot, if_neg Bool.false_ne_true, if_pos hpass]
  · rw [if_neg hpass, if_neg hpass]

theorem processCollapseText_stays (hopen : gate.disposed = false)
    (hbelow : gate.ProcessBelowCap data) :
    (gate.processCollapseText data).disposed = false ∧
      (gate.processCollapseText data).mode = gate.mode := by
  obtain ⟨hloop, hheld⟩ := hbelow
  unfold processCollapseText
  simp only [if_neg (Nat.not_le.mpr hheld)]
  refine ⟨(processLoop_moves gate.takePrefix _ hopen ?_).1, processLoop_mode⟩
  exact fun _ => ⟨hopen, rfl⟩

theorem Uncut.head {pieces : List JsStr} (h : gate.Uncut pressure pieces)
    (hdata : gate.currentFrameData ≠ []) :
    ¬ Marks.Straddles dec2026Sequences gate.currentFrameData
      pieces.flatten := by
  cases pieces with
  | nil => exact Marks.not_straddles_nil headed_sequences
  | cons data rest => exact h.1 hdata

/-- While it collapses, the gate handles the pieces like the whole stream. -/
theorem enqueueAll_view (pieces : List JsStr) (gate : FrameGate)
    (hopen : gate.disposed = false)
    (hcollapse : gate.canCollapseNow pressure = true)
    (hresting : gate.view.Resting) (hcap : gate.BelowCap pressure pieces)
    (huncut : gate.Uncut pressure pieces) :
    (gate.enqueueAll pressure pieces).view =
      gate.view.process pieces.flatten := by
  induction pieces generalizing gate with
  | nil => exact hresting.symm
  | cons data rest ih =>
    rw [flatten_cons]
    change ((gate.enqueueText pressure data).enqueueAll pressure rest).view = _
    by_cases hne : data = []
    · have hsame : gate.enqueueText pressure data = gate := by
        rw [enqueueText, enqueue, if_pos (.inr (.inr hne))]
      have hrest := huncut.2
      have hbelow := hcap.2
      rw [hsame] at hrest hbelow ⊢
      rw [hne, nil_append]
      exact ih gate hopen hcollapse hresting hbelow hrest
    · have hstep : gate.enqueueText pressure data =
          gate.processCollapseText data := by
        rw [enqueueText_of_ne_nil hopen hne, if_pos hcollapse]
      have hbelow := hcap.1 hne hcollapse
      have hview := processCollapseText_view hopen hbelow
      obtain ⟨hstays, hmode⟩ := processCollapseText_stays hopen hbelow
      have hcut := huncut.2.head
      rw [hstep] at hcut ⊢
      rw [ih _ hstays ((canCollapseNow_congr hmode).trans hcollapse)
        (hview ▸ GateView.resting_process _ _) (hstep ▸ hcap.2)
        (hstep ▸ huncut.2), hview, GateView.process_append]
      intro hdata
      rw [← hview] at hdata ⊢
      exact hcut hdata

theorem forward_view (chunk : QueuedOutputChunk) :
    (gate.forward chunk).view = gate.view.forward chunk.data := by
  rw [forward, emit_view, Emission.droppedTexts, append_nil]
  rfl

theorem enqueueAll_passed (pieces : List JsStr) (gate : FrameGate)
    (hopen : gate.disposed = false)
    (hpass : gate.canCollapseNow pressure = false) {sent : JsStr}
    (hview : gate.view = { forwarded := sent }) :
    (gate.enqueueAll pressure pieces).view =
      { forwarded := sent ++ pieces.flatten } := by
  induction pieces generalizing gate sent with
  | nil => rw [flatten_nil, append_nil]; exact hview
  | cons data rest ih =>
    rw [flatten_cons, ← append_assoc]
    change ((gate.enqueueText pressure data).enqueueAll pressure rest).view = _
    by_cases hne : data = []
    · have hsame : gate.enqueueText pressure data = gate := by
        rw [enqueueText, enqueue, if_pos (.inr (.inr hne))]
      rw [hsame, hne, append_nil]
      exact ih gate hopen hpass hview
    · have hstep := enqueueText_of_ne_nil hopen hne pressure
      rw [hpass, if_neg Bool.false_ne_true] at hstep
      rw [hstep]
      split
      · refine ih (gate.forward _) hopen hpass ?_
        rw [forward_view, hview]
        rfl
      · refine ih (gate.flush.forward _) (flush_idle hopen).isOpen
          ((canCollapseNow_congr flush_mode).trans hpass) ?_
        rw [forward_view, flush_view hopen, hview]
        simp only [GateView.flush, GateView.forward, append_nil,
          Option.getD_none]

end FrameGate

/-- A gate that nothing has been given to yet. -/
def freshGate (mode : Dec2026FrameGateMode) : FrameGate := { mode }

open FrameGate

variable {mode : Dec2026FrameGateMode}
  {pressure : Dec2026FrameCandidateContext} {pieces others : List JsStr}

/-- What a fresh gate holds and has sent depends only on the whole stream. -/
theorem view_of_stream (hcap : (freshGate mode).BelowCap pressure pieces)
    (huncut : (freshGate mode).Uncut pressure pieces) :
    ((freshGate mode).enqueueAll pressure pieces).view =
      if (freshGate mode).canCollapseNow pressure then
        (freshGate mode).view.process pieces.flatten
      else { forwarded := pieces.flatten } := by
  split
  · next hcollapse =>
    refine enqueueAll_view pieces _ rfl hcollapse ?_ hcap huncut
    exact GateView.loop_nil _
  · next hpass =>
    exact enqueueAll_passed pieces _ rfl (Bool.eq_false_iff.mpr hpass) rfl

theorem delivered_eq (gate : FrameGate) : gate.delivered =
    gate.view.forwarded ++ (gate.view.held.getD [] ++ gate.view.data ++
      gate.view.pending) := by
  rw [delivered, heldText, heldData_eq]
  rfl

/-- Two ways to cut a stream deliver the same text and drop the same frames,
where neither goes through a mark of an open frame. -/
theorem cuts_agree (hstream : pieces.flatten = others.flatten)
    (hcap : (freshGate mode).BelowCap pressure pieces)
    (huncut : (freshGate mode).Uncut pressure pieces)
    (hcap' : (freshGate mode).BelowCap pressure others)
    (huncut' : (freshGate mode).Uncut pressure others) :
    ((freshGate mode).enqueueAll pressure pieces).delivered =
        ((freshGate mode).enqueueAll pressure others).delivered ∧
      ((freshGate mode).enqueueAll pressure pieces).droppedFrames =
        ((freshGate mode).enqueueAll pressure others).droppedFrames := by
  have hview := view_of_stream hcap huncut
  rw [hstream, ← view_of_stream hcap' huncut'] at hview
  refine ⟨?_, congrArg GateView.dropped hview⟩
  rw [delivered_eq, delivered_eq, hview]

/-- A frame with an `A`, and one that clears the screen and begins at home. -/
def replacedStream : JsStr :=
  dec2026BeginEsc ++ [0x41] ++ dec2026EndEsc ++ dec2026BeginEsc ++
    [0x1b, 0x5b, 0x30, 0x6d, 0x1b, 0x5b, 0x32, 0x4a, 0x1b, 0x5b, 0x48] ++
    dec2026EndEsc

/-- Cut inside the first begin mark and inside the first frame. -/
def cutOutsideMarks : List JsStr :=
  [replacedStream.take 3, (replacedStream.drop 3).take 6,
    replacedStream.drop 9]

theorem cutOutsideMarks_agree :
    ((freshGate .collapse).enqueueAll backlog cutOutsideMarks).delivered =
        ((freshGate .collapse).enqueueAll backlog [replacedStream]).delivered ∧
      ((freshGate .collapse).enqueueAll backlog
          cutOutsideMarks).droppedFrames =
        ((freshGate .collapse).enqueueAll backlog
          [replacedStream]).droppedFrames :=
  cuts_agree (by decide) (by decide +kernel) (by decide +kernel)
    (by decide +kernel) (by decide +kernel)

/-- Cut inside the end mark of the first frame. -/
def cutInsideEndMark : List JsStr :=
  [replacedStream.take 12, replacedStream.drop 12]

/-- The frame that the second one replaces is then not dropped. -/
theorem cutInsideEndMark_keeps_frame :
    cutInsideEndMark.flatten = [replacedStream].flatten ∧
      (freshGate .collapse).BelowCap backlog cutInsideEndMark ∧
      (freshGate .collapse).BelowCap backlog [replacedStream] ∧
      ((freshGate .collapse).enqueueAll backlog
          [replacedStream]).droppedFrames =
        [dec2026BeginEsc ++ [0x41] ++ dec2026EndEsc] ∧
      ((freshGate .collapse).enqueueAll backlog
          cutInsideEndMark).droppedFrames = [] := by
  decide +kernel

end NiceTerm.Gate
