/-
The gate in front of the output drain.  In collapse mode it keeps a complete
DEC 2026 frame back and drops it when the next one repaints the whole screen.
The shadow scan only counts frames for diagnostics and is left out.
-/
import NiceTerm.Drain.Queue
import NiceTerm.Gate.Classifier
import NiceTerm.Lib.Search
import NiceTerm.Lib.Transition

namespace NiceTerm.Gate

open JsString List Transition

abbrev QueuedOutputChunk := Drain.QueuedOutputChunk

inductive Dec2026FrameGateMode
  | off
  | shadow
  | collapse
deriving DecidableEq, Repr

/-- What the gate reads of the pressure snapshot. -/
structure Dec2026FrameCandidateContext where
  outputDrainQueueBytes : Nat
  frameGateHeldBytes : Nat
  alternateScreen : Bool
deriving DecidableEq, Repr

structure Dec2026CompleteFrame where
  data : JsStr
  content : JsStr
  bytes : Nat
  classification : Dec2026FrameClassification
deriving DecidableEq, Repr

inductive BoundaryKind
  | opens
  | closes
deriving DecidableEq, Repr

structure Dec2026Boundary where
  index : Nat
  sequence : JsStr
  kind : BoundaryKind
deriving DecidableEq, Repr

def dec2026BeginEsc : JsStr :=
  [0x1b, 0x5b, 0x3f, 0x32, 0x30, 0x32, 0x36, 0x68]

def dec2026EndEsc : JsStr :=
  [0x1b, 0x5b, 0x3f, 0x32, 0x30, 0x32, 0x36, 0x6c]

def dec2026BeginC1 : JsStr := [0x9b, 0x3f, 0x32, 0x30, 0x32, 0x36, 0x68]

def dec2026EndC1 : JsStr := [0x9b, 0x3f, 0x32, 0x30, 0x32, 0x36, 0x6c]

def dec2026Sequences : List JsStr :=
  [dec2026BeginEsc, dec2026EndEsc, dec2026BeginC1, dec2026EndC1]

def maxPendingCsiChars : Nat := 64
def defaultMaxHeldFrameBytes : Nat := 512 * 1024
def alternateScreenThrottleBacklogBytes : Nat := 32 * 1024

/-- A sequence that ends in `h` opens a frame. -/
def boundaryKind (sequence : JsStr) : BoundaryKind :=
  if sequence.getLast? = some 0x68 then .opens else .closes

def indexOf (text sequence : JsStr) : Option Nat :=
  (text.dropInfix? sequence).map fun parts => parts.1.length

/-- The body of the loop over the four sequences. -/
def nearerBoundary (text : JsStr) (next : Option Dec2026Boundary)
    (sequence : JsStr) : Option Dec2026Boundary :=
  match indexOf text sequence with
  | none => next
  | some index =>
    let found : Dec2026Boundary := ⟨index, sequence, boundaryKind sequence⟩
    match next with
    | none => some found
    | some best =>
      if index < best.index ∨ (index = best.index ∧
            best.sequence.length < sequence.length) then some found
      else some best

def findNextBoundary (text : JsStr) : Option Dec2026Boundary :=
  dec2026Sequences.foldl (nearerBoundary text) none

/-- The boundary stands in the text at its index. -/
def Dec2026Boundary.Cuts (text : JsStr) (boundary : Dec2026Boundary) : Prop :=
  boundary.sequence ∈ dec2026Sequences ∧
    text = text.take boundary.index ++ boundary.sequence ++
      text.drop (boundary.index + boundary.sequence.length)

variable {text : JsStr}

theorem cuts_of_indexOf {sequence : JsStr} {index : Nat}
    {kind : BoundaryKind} (hsequence : sequence ∈ dec2026Sequences)
    (h : indexOf text sequence = some index) :
    Dec2026Boundary.Cuts text ⟨index, sequence, kind⟩ := by
  refine ⟨hsequence, ?_⟩
  obtain ⟨⟨front, back⟩, hdrop, rfl⟩ := Option.map_eq_some_iff.mp h
  have hne : sequence ≠ [] := by
    rintro rfl
    exact absurd hsequence (by decide)
  obtain ⟨rfl, -⟩ := (Search.dropInfix?_eq_some hne).mp hdrop
  have htake : (front ++ sequence ++ back).take front.length = front := by
    rw [append_assoc, take_left]
  change front ++ sequence ++ back =
    (front ++ sequence ++ back).take front.length ++ sequence ++
      (front ++ sequence ++ back).drop (front.length + sequence.length)
  rw [htake, ← length_append, drop_left]

theorem nearerBoundary_cuts {sequence : JsStr}
    {next : Option Dec2026Boundary} (hsequence : sequence ∈ dec2026Sequences)
    (hnext : ∀ boundary ∈ next, boundary.Cuts text) :
    ∀ boundary ∈ nearerBoundary text next sequence, boundary.Cuts text := by
  intro boundary hboundary
  unfold nearerBoundary at hboundary
  split at hboundary
  · exact hnext boundary hboundary
  · next index hindex =>
    split at hboundary
    · rw [← Option.some.inj hboundary]
      exact cuts_of_indexOf hsequence hindex
    · next best =>
      split at hboundary
      · rw [← Option.some.inj hboundary]
        exact cuts_of_indexOf hsequence hindex
      · exact hnext boundary hboundary

theorem findNextBoundary_cuts {boundary : Dec2026Boundary}
    (h : findNextBoundary text = some boundary) : boundary.Cuts text := by
  have hfold : ∀ (sequences : List JsStr) (next : Option Dec2026Boundary),
      sequences ⊆ dec2026Sequences → (∀ boundary ∈ next, boundary.Cuts text) →
      ∀ boundary ∈ sequences.foldl (nearerBoundary text) next,
        boundary.Cuts text := by
    intro sequences
    induction sequences with
    | nil => exact fun next _ hnext => hnext
    | cons sequence rest ih =>
      intro next hsub hnext
      have hsequence := hsub mem_cons_self
      exact ih _ (subset_of_cons_subset hsub)
        (nearerBoundary_cuts hsequence hnext)
  exact hfold _ none (List.Subset.refl _) (by simp) boundary h

theorem length_drop_boundary {boundary : Dec2026Boundary}
    (h : findNextBoundary text = some boundary) :
    (text.drop (boundary.index + boundary.sequence.length)).length <
      text.length := by
  obtain ⟨hsequence, hcut⟩ := findNextBoundary_cuts h
  have hlengths : ∀ sequence ∈ dec2026Sequences, 0 < sequence.length := by
    decide
  have hlength := congrArg List.length hcut
  have hpos := hlengths boundary.sequence hsequence
  simp only [length_append] at hlength
  omega

/-- The loop of `pendingBoundarySuffix`, from `length` down. -/
def pendingSuffixLoop (text : JsStr) : Nat → JsStr
  | 0 => []
  | length + 1 =>
    let suffix := text.drop (text.length - (length + 1))
    if dec2026Sequences.any (suffix.isPrefixOf ·) then suffix
    else pendingSuffixLoop text length

/-- The longest end of the text that begins a boundary sequence. -/
def pendingBoundarySuffix (text : JsStr) : JsStr :=
  pendingSuffixLoop text (min maxPendingCsiChars text.length)

/-- A call of `forward` or `ackDropped`; the acknowledgement does not carry
the text, which is kept for the ledger. -/
inductive Emission
  | forward (data : JsStr) (bytes : Nat)
  | ackDropped (text : JsStr) (bytes : Nat)
deriving DecidableEq, Repr

structure FrameGate where
  mode : Dec2026FrameGateMode
  pendingPrefix : JsStr := []
  currentFrameData : JsStr := []
  currentFrameContent : JsStr := []
  heldFrame : Option Dec2026CompleteFrame := none
  failOpenTimer : Bool := false
  disposed : Bool := false
  emitted : List Emission := []
deriving DecidableEq, Repr

namespace FrameGate

def heldData (gate : FrameGate) : JsStr :=
  match gate.heldFrame with
  | none => []
  | some frame => frame.data

def getHeldBytes (gate : FrameGate) : Nat :=
  utf8Length gate.pendingPrefix + utf8Length gate.currentFrameData +
    match gate.heldFrame with
    | none => 0
    | some frame => frame.bytes

/-- What the gate holds, in the order in which it was received. -/
def heldText (gate : FrameGate) : JsStr :=
  gate.heldData ++ gate.currentFrameData ++ gate.pendingPrefix

def emit (gate : FrameGate) (emission : Emission) : FrameGate :=
  { gate with emitted := gate.emitted ++ [emission] }

def forwardText (gate : FrameGate) (text : JsStr) : FrameGate :=
  if text = [] then gate else gate.emit (.forward text (utf8Length text))

variable {gate : FrameGate}

/-- Forwarding touches nothing but what has been emitted. -/
theorem forwardText_eq (text : JsStr) :
    gate.forwardText text =
      { gate with emitted := (gate.forwardText text).emitted } := by
  unfold forwardText
  split <;> rfl

@[simp] theorem forwardText_heldFrame (text : JsStr) :
    (gate.forwardText text).heldFrame = gate.heldFrame := by
  rw [forwardText_eq]

@[simp] theorem forwardText_pendingPrefix (text : JsStr) :
    (gate.forwardText text).pendingPrefix = gate.pendingPrefix := by
  rw [forwardText_eq]

@[simp] theorem forwardText_currentFrameData (text : JsStr) :
    (gate.forwardText text).currentFrameData = gate.currentFrameData := by
  rw [forwardText_eq]

@[simp] theorem forwardText_disposed (text : JsStr) :
    (gate.forwardText text).disposed = gate.disposed := by
  rw [forwardText_eq]

/-- Forward the pending prefix, the open frame and the held frame, as `flush`
and `dispose` do. -/
def forwardHeld (gate : FrameGate) : FrameGate :=
  let gate := gate.forwardText gate.pendingPrefix
  let gate := gate.forwardText gate.currentFrameData
  match gate.heldFrame with
  | none => gate
  | some frame => gate.forwardText frame.data

theorem forwardHeld_eq :
    gate.forwardHeld = { gate with emitted := gate.forwardHeld.emitted } := by
  have hpending := gate.forwardText_eq gate.pendingPrefix
  have hcurrent := (gate.forwardText gate.pendingPrefix).forwardText_eq
    gate.currentFrameData
  unfold forwardHeld
  simp only [forwardText_currentFrameData]
  split
  · rw [hcurrent, hpending]
  · rw [forwardText_eq, hcurrent, hpending]

def clearHeld (gate : FrameGate) : FrameGate :=
  { gate with
    pendingPrefix := []
    currentFrameData := []
    currentFrameContent := []
    heldFrame := none
    failOpenTimer := false }

def flush (gate : FrameGate) : FrameGate :=
  if gate.disposed then gate else gate.forwardHeld.clearHeld

theorem flush_eq (h : gate.disposed = false) :
    gate.flush = { gate.clearHeld with emitted := gate.forwardHeld.emitted } := by
  rw [flush, if_neg (by simp [h]), forwardHeld_eq]
  rfl

def failOpen (gate : FrameGate) : FrameGate :=
  gate.flush

def dispose (gate : FrameGate) (ackRemaining : Bool) : FrameGate :=
  if gate.disposed then gate
  else
    let gate := { gate with disposed := true }
    if ackRemaining ∧ 0 < gate.getHeldBytes then
      (gate.emit (.ackDropped gate.heldText gate.getHeldBytes)).clearHeld
    else gate.forwardHeld.clearHeld

def growCurrentFrame (gate : FrameGate) (text : JsStr) : FrameGate :=
  { gate with
    currentFrameData := gate.currentFrameData ++ text
    currentFrameContent := gate.currentFrameContent ++ text }

def appendCurrentFrame (gate : FrameGate) (text : JsStr) : FrameGate :=
  if text = [] then gate
  else if defaultMaxHeldFrameBytes ≤
      utf8Length (gate.growCurrentFrame text).currentFrameData then
    (gate.growCurrentFrame text).failOpen
  else gate.growCurrentFrame text

def handleBarrier (gate : FrameGate) (text : JsStr) : FrameGate :=
  if text = [] then gate else gate.flush.forwardText text

def dropHeldFrame (gate : FrameGate) : FrameGate :=
  match gate.heldFrame with
  | none => gate
  | some frame =>
    { gate.emit (.ackDropped frame.data frame.bytes) with heldFrame := none }

theorem dropHeldFrame_eq :
    gate.dropHeldFrame = { gate with
      heldFrame := none
      emitted := gate.dropHeldFrame.emitted } := by
  unfold dropHeldFrame
  split
  · next hnone => rw [← hnone]
  · rfl

/-- The held frame goes when a complete frame takes its place. -/
def releaseHeldFrame (gate : FrameGate) (proof : SuccessorProof) : FrameGate :=
  match gate.heldFrame with
  | none => gate
  | some frame =>
    if proof = .selfContainedReplacement then gate.dropHeldFrame
    else { gate.forwardText frame.data with heldFrame := none }

theorem releaseHeldFrame_eq (proof : SuccessorProof) :
    gate.releaseHeldFrame proof = { gate with
      heldFrame := none
      emitted := (gate.releaseHeldFrame proof).emitted } := by
  unfold releaseHeldFrame
  split
  · next hnone => rw [← hnone]
  · split
    · exact dropHeldFrame_eq
    · rw [forwardText_eq]

def handleCompleteFrame (gate : FrameGate) (frameData frameContent : JsStr) :
    FrameGate :=
  let bytes := utf8Length frameData
  let classification := classifyDec2026Frame frameContent bytes
  match classification with
  | .replaceableVisual _ successorProof =>
    { gate.releaseHeldFrame successorProof with
      heldFrame := some ⟨frameData, frameContent, bytes, classification⟩
      failOpenTimer := true }
  | _ => gate.flush.forwardText frameData

def openFrame (gate : FrameGate) (sequence : JsStr) : FrameGate :=
  { gate with
    currentFrameData := sequence
    currentFrameContent := []
    failOpenTimer := true }

def closeFrame (gate : FrameGate) (sequence : JsStr) : FrameGate :=
  { gate with
    currentFrameData := []
    currentFrameContent := [] }.handleCompleteFrame
      (gate.currentFrameData ++ sequence) gate.currentFrameContent

def keepPrefix (gate : FrameGate) (suffix : JsStr) : FrameGate :=
  { gate with pendingPrefix := suffix }

/-- One round of the loop of `processCollapseText`, with the text that is left
to the next one. -/
def processRound (gate : FrameGate) (text : JsStr) : FrameGate × JsStr :=
  if gate.currentFrameData ≠ [] then
    match findNextBoundary text with
    | none => (gate.appendCurrentFrame text, [])
    | some boundary =>
      let rest := text.drop (boundary.index + boundary.sequence.length)
      let gate := gate.appendCurrentFrame (text.take boundary.index)
      match boundary.kind with
      | .opens => (gate.flush.forwardText boundary.sequence, rest)
      | .closes => (gate.closeFrame boundary.sequence, rest)
  else
    match findNextBoundary text with
    | none =>
      let suffix := pendingBoundarySuffix text
      let barrier := text.take (text.length - suffix.length)
      ((gate.handleBarrier barrier).keepPrefix suffix, [])
    | some boundary =>
      let rest := text.drop (boundary.index + boundary.sequence.length)
      let gate := gate.handleBarrier (text.take boundary.index)
      match boundary.kind with
      | .closes => (gate.handleBarrier boundary.sequence, rest)
      | .opens => (gate.openFrame boundary.sequence, rest)

/-- Every round consumes text. -/
theorem length_processRound (gate : FrameGate) {text : JsStr}
    (h : text ≠ []) : (gate.processRound text).2.length < text.length := by
  have hpos := length_pos_of_ne_nil h
  unfold processRound
  split <;> split
  · exact hpos
  · next boundary hfind =>
    have hshort := length_drop_boundary hfind
    split <;> exact hshort
  · exact hpos
  · next boundary hfind =>
    have hshort := length_drop_boundary hfind
    split <;> exact hshort

/-- The loop of `processCollapseText`. -/
def processLoop (gate : FrameGate) (text : JsStr) : FrameGate :=
  if _h : text = [] then gate
  else
    let round := gate.processRound text
    processLoop round.1 round.2
termination_by text.length
decreasing_by exact length_processRound gate _h

/-- The gate when the loop of `processCollapseText` begins. -/
def takePrefix (gate : FrameGate) : FrameGate :=
  { gate with pendingPrefix := [] }

def processCollapseText (gate : FrameGate) (data : JsStr) : FrameGate :=
  let text := gate.pendingPrefix ++ data
  let gate := gate.takePrefix.processLoop text
  if defaultMaxHeldFrameBytes ≤ gate.getHeldBytes then gate.failOpen
  else gate

def canCollapseNow (gate : FrameGate)
    (pressure : Dec2026FrameCandidateContext) : Bool :=
  gate.mode == .collapse && pressure.alternateScreen &&
    decide (alternateScreenThrottleBacklogBytes <
      pressure.outputDrainQueueBytes + pressure.frameGateHeldBytes)

def forward (gate : FrameGate) (chunk : QueuedOutputChunk) : FrameGate :=
  gate.emit (.forward chunk.data chunk.bytes)

def enqueue (gate : FrameGate) (chunk : QueuedOutputChunk)
    (pressure : Dec2026FrameCandidateContext) : FrameGate :=
  if gate.disposed ∨ chunk.bytes ≤ 0 ∨ chunk.data = [] then gate
  else if chunk.bytes ≠ utf8Length chunk.data then
    gate.failOpen.forward chunk
  else if gate.mode = .off ∨ gate.mode = .shadow then gate.forward chunk
  else if gate.canCollapseNow pressure then
    gate.processCollapseText chunk.data
  else gate.flush.forward chunk

end FrameGate

inductive GateEvent
  | enqueue (chunk : QueuedOutputChunk)
      (pressure : Dec2026FrameCandidateContext)
  | timeout
  | flush
  | dispose (ackRemaining : Bool)
deriving DecidableEq, Repr

/-- The gate with everything that was given to it. -/
structure GateSession where
  gate : FrameGate
  input : JsStr := []
  inputBytes : Nat := 0
deriving DecidableEq, Repr

/-- The fail-open timer fires only while it is set. -/
def gateStep (session : GateSession) : GateEvent → Option GateSession
  | .enqueue chunk pressure =>
    some {
      gate := session.gate.enqueue chunk pressure
      input := session.input ++ chunk.data
      inputBytes := session.inputBytes + chunk.bytes }
  | .timeout =>
    if session.gate.failOpenTimer then
      some { session with
        gate := { session.gate with failOpenTimer := false }.failOpen }
    else none
  | .flush => some { session with gate := session.gate.flush }
  | .dispose ackRemaining =>
    some { session with gate := session.gate.dispose ackRemaining }

/-- A gate in collapse mode that has been given nothing yet. -/
def openedGate : GateSession := { gate := { mode := .collapse } }

def gateSystem : System GateSession GateEvent where
  init session := session = openedGate
  step := gateStep

end NiceTerm.Gate
