/-
Order and bytes through the frame gate.  Whatever is flushed must leave in the
order in which it came; a flush that finds a held frame behind an open one or
behind a pending prefix sends the younger text first.
-/
import NiceTerm.Gate.FrameGate
import NiceTerm.Lib.Emitting

namespace NiceTerm.Gate

open JsString Transition

def Emission.text : Emission → JsStr
  | .forward data _ => data
  | .ackDropped text _ => text

namespace FrameGate

open List

variable {gate : FrameGate} {text rest : JsStr}

/-- The text forwarded or dropped so far. -/
def sent (gate : FrameGate) : JsStr :=
  gate.emitted.flatMap Emission.text

/-- The books of the gate while `rest` is still to be read. -/
def pipe (gate : FrameGate) (rest : JsStr) : Pipe UInt16 :=
  ⟨gate.sent, gate.heldText ++ rest⟩

@[simp] theorem emit_sent (emission : Emission) :
    (gate.emit emission).sent = gate.sent ++ emission.text := by
  simp [sent, emit]

@[simp] theorem forwardText_sent (text : JsStr) :
    (gate.forwardText text).sent = gate.sent ++ text := by
  unfold forwardText
  split
  · next hempty => rw [hempty, append_nil]
  · exact emit_sent _

@[simp] theorem forwardText_heldText (text : JsStr) :
    (gate.forwardText text).heldText = gate.heldText := by
  simp [heldText, heldData]

/-- What `flush` sends, in its order. -/
def flushText (gate : FrameGate) : JsStr :=
  gate.pendingPrefix ++ gate.currentFrameData ++ gate.heldData

/-- The flush sends the text in the order in which it was received. -/
def FlushInOrder (gate : FrameGate) : Prop :=
  gate.flushText = gate.heldText

instance : Decidable gate.FlushInOrder :=
  inferInstanceAs (Decidable (_ = _))

theorem forwardHeld_sent : gate.forwardHeld.sent = gate.sent ++ gate.flushText := by
  unfold forwardHeld
  simp only [forwardText_currentFrameData, forwardText_heldFrame, flushText,
    heldData]
  split <;> simp

/-- Nothing is held outside the held frame. -/
structure Idle (gate : FrameGate) : Prop where
  isOpen : gate.disposed = false
  pending : gate.pendingPrefix = []

theorem flush_sent (h : gate.disposed = false) :
    gate.flush.sent = gate.sent ++ gate.flushText := by
  rw [flush_eq h, ← forwardHeld_sent]
  rfl

theorem flush_heldText (h : gate.disposed = false) :
    gate.flush.heldText = [] := by
  rw [flush_eq h]
  rfl

theorem flush_idle (h : gate.disposed = false) : gate.flush.Idle := by
  rw [flush_eq h]
  exact ⟨h, rfl⟩

theorem length_flushText : gate.flushText.length = gate.heldText.length := by
  simp only [flushText, heldText, length_append]
  omega

theorem flush_moves (h : gate.disposed = false) (rest : JsStr) :
    Pipe.Moves gate.FlushInOrder (gate.pipe rest) (gate.flush.pipe rest) := by
  apply Pipe.Moves.send (flush_sent h) _ length_flushText
  rw [pipe, pipe, flush_heldText h, nil_append]

theorem flush_forwardText_moves (h : gate.disposed = false)
    (text rest : JsStr) :
    Pipe.Moves gate.FlushInOrder (gate.pipe (text ++ rest))
      ((gate.flush.forwardText text).pipe rest) := by
  have hforward : Pipe.Moves (text = text) (gate.flush.pipe (text ++ rest))
      ((gate.flush.forwardText text).pipe rest) := by
    apply Pipe.Moves.send (forwardText_sent text) _ rfl
    simp only [pipe, forwardText_heldText, flush_heldText h, nil_append]
  exact ((flush_moves h (text ++ rest)).trans hforward).congr (by simp)

/-- With only the held frame to send there is no order to break. -/
theorem flushInOrder_of_held (hpending : gate.pendingPrefix = [])
    (hcurrent : gate.currentFrameData = []) : gate.FlushInOrder := by
  rw [FlushInOrder, flushText, heldText, hpending, hcurrent]
  simp

theorem handleBarrier_moves (hidle : gate.Idle)
    (hcurrent : gate.currentFrameData = []) (text rest : JsStr) :
    Pipe.Moves True (gate.pipe (text ++ rest))
      ((gate.handleBarrier text).pipe rest) := by
  unfold handleBarrier
  split
  · next hempty =>
    rw [hempty]
    exact Pipe.Moves.of_eq rfl rfl
  · have horder := flushInOrder_of_held hidle.pending hcurrent
    exact (flush_forwardText_moves hidle.isOpen text rest).congr
      (iff_of_true horder trivial)

theorem handleBarrier_idle (hidle : gate.Idle) (text : JsStr) :
    (gate.handleBarrier text).Idle := by
  unfold handleBarrier
  split
  · exact hidle
  · have hflushed := flush_idle hidle.isOpen
    exact ⟨by simp [hflushed.isOpen], by simp [hflushed.pending]⟩

theorem handleBarrier_currentFrameData (hidle : gate.Idle)
    (hcurrent : gate.currentFrameData = []) (text : JsStr) :
    (gate.handleBarrier text).currentFrameData = [] := by
  unfold handleBarrier
  split
  · exact hcurrent
  · rw [forwardText_currentFrameData, flush_eq hidle.isOpen]
    rfl

/-- When growing the open frame reaches the cap, what is held then leaves in
order. -/
def AppendInOrder (gate : FrameGate) (text : JsStr) : Prop :=
  text ≠ [] →
    defaultMaxHeldFrameBytes ≤
      utf8Length (gate.growCurrentFrame text).currentFrameData →
    (gate.growCurrentFrame text).FlushInOrder

instance : Decidable (gate.AppendInOrder text) :=
  inferInstanceAs (Decidable (_ → _))

theorem growCurrentFrame_moves (hpending : gate.pendingPrefix = [])
    (text rest : JsStr) :
    Pipe.Moves True (gate.pipe (text ++ rest))
      ((gate.growCurrentFrame text).pipe rest) := by
  apply Pipe.Moves.of_eq
  · rfl
  · simp [pipe, growCurrentFrame, heldText, heldData, hpending]

theorem growCurrentFrame_idle (hidle : gate.Idle) (text : JsStr) :
    (gate.growCurrentFrame text).Idle :=
  ⟨hidle.isOpen, hidle.pending⟩

theorem appendCurrentFrame_moves (hidle : gate.Idle) (text rest : JsStr) :
    Pipe.Moves (gate.AppendInOrder text) (gate.pipe (text ++ rest))
      ((gate.appendCurrentFrame text).pipe rest) := by
  have hgrown := growCurrentFrame_moves hidle.pending text rest
  unfold appendCurrentFrame
  split
  · next hempty =>
    rw [hempty]
    apply (Pipe.Moves.of_eq rfl rfl).congr
    exact iff_of_true trivial (fun h => absurd rfl h)
  · next hne =>
    split
    · next hcap =>
      have hopen := (growCurrentFrame_idle hidle text).isOpen
      apply (hgrown.trans (flush_moves hopen rest)).congr
      exact ⟨fun h _ _ => h.2, fun h => ⟨trivial, h hne hcap⟩⟩
    · next hcap =>
      exact hgrown.congr (iff_of_true trivial fun _ h => absurd h hcap)

theorem appendCurrentFrame_idle (hidle : gate.Idle) (text : JsStr) :
    (gate.appendCurrentFrame text).Idle := by
  unfold appendCurrentFrame
  split
  · exact hidle
  · split
    · exact flush_idle (growCurrentFrame_idle hidle text).isOpen
    · exact growCurrentFrame_idle hidle text

/-- Dropped or forwarded, the held frame leaves. -/
theorem releaseHeldFrame_sent (proof : SuccessorProof) :
    (gate.releaseHeldFrame proof).sent = gate.sent ++ gate.heldData := by
  unfold releaseHeldFrame heldData
  split
  · simp
  · next frame hsome =>
    split
    · have hdropped : gate.dropHeldFrame =
          { gate.emit (.ackDropped frame.data frame.bytes) with
            heldFrame := none } := by
        rw [dropHeldFrame, hsome]
      rw [hdropped]
      exact emit_sent _
    · exact forwardText_sent frame.data

theorem handleCompleteFrame_moves (hidle : gate.Idle)
    (hcurrent : gate.currentFrameData = []) (data content rest : JsStr) :
    Pipe.Moves True (gate.pipe (data ++ rest))
      ((gate.handleCompleteFrame data content).pipe rest) := by
  unfold handleCompleteFrame
  dsimp only
  split
  · next successorProof _ =>
    have hreleased := gate.releaseHeldFrame_eq successorProof
    have hsent := gate.releaseHeldFrame_sent successorProof
    apply (Pipe.Moves.send hsent _ rfl).congr
    · simp
    · rw [hreleased]
      simp [pipe, heldText, heldData, hcurrent, hidle.pending]
  · have horder := flushInOrder_of_held hidle.pending hcurrent
    exact (flush_forwardText_moves hidle.isOpen data rest).congr
      (iff_of_true horder trivial)

theorem handleCompleteFrame_idle (hidle : gate.Idle) (data content : JsStr) :
    (gate.handleCompleteFrame data content).Idle := by
  unfold handleCompleteFrame
  dsimp only
  split
  · rw [releaseHeldFrame_eq]
    exact ⟨hidle.isOpen, hidle.pending⟩
  · have hflushed := flush_idle hidle.isOpen
    exact ⟨by simp [hflushed.isOpen], by simp [hflushed.pending]⟩

theorem openFrame_moves (hidle : gate.Idle)
    (hcurrent : gate.currentFrameData = []) (sequence rest : JsStr) :
    Pipe.Moves True (gate.pipe (sequence ++ rest))
      ((gate.openFrame sequence).pipe rest) := by
  apply Pipe.Moves.of_eq
  · rfl
  · simp [pipe, openFrame, heldText, heldData, hcurrent, hidle.pending]

theorem closeFrame_moves (hidle : gate.Idle) (sequence rest : JsStr) :
    Pipe.Moves True (gate.pipe (sequence ++ rest))
      ((gate.closeFrame sequence).pipe rest) := by
  let emptied : FrameGate :=
    { gate with currentFrameData := [], currentFrameContent := [] }
  have hemptied : Pipe.Moves True (gate.pipe (sequence ++ rest))
      (emptied.pipe (gate.currentFrameData ++ sequence ++ rest)) := by
    apply Pipe.Moves.of_eq
    · rfl
    · simp [pipe, emptied, heldText, heldData, hidle.pending]
  have hidleEmptied : emptied.Idle := ⟨hidle.isOpen, hidle.pending⟩
  have hcomplete := handleCompleteFrame_moves hidleEmptied rfl
    (gate.currentFrameData ++ sequence) gate.currentFrameContent rest
  exact (hemptied.trans hcomplete).congr (by simp)

theorem closeFrame_idle (hidle : gate.Idle) (sequence : JsStr) :
    (gate.closeFrame sequence).Idle := by
  unfold closeFrame
  apply handleCompleteFrame_idle
  exact ⟨hidle.isOpen, hidle.pending⟩

theorem keepPrefix_moves (hpending : gate.pendingPrefix = []) (suffix : JsStr) :
    Pipe.Moves True (gate.pipe suffix) ((gate.keepPrefix suffix).pipe []) := by
  apply Pipe.Moves.of_eq
  · rfl
  · simp [pipe, keepPrefix, heldText, heldData, hpending]

/-- Inside a frame, the two places at which a round may flush. -/
def CutInOrder (gate : FrameGate) (text : JsStr) :
    Option Dec2026Boundary → Prop
  | none => gate.AppendInOrder text
  | some boundary =>
    gate.AppendInOrder (text.take boundary.index) ∧ (boundary.kind = .opens →
        (gate.appendCurrentFrame (text.take boundary.index)).FlushInOrder)

instance : ∀ next, Decidable (gate.CutInOrder text next)
  | none => inferInstanceAs (Decidable (gate.AppendInOrder text))
  | some _ => inferInstanceAs (Decidable (_ ∧ (_ → _)))

def RoundInOrder (gate : FrameGate) (text : JsStr) : Prop :=
  gate.currentFrameData ≠ [] → gate.CutInOrder text (findNextBoundary text)

instance : Decidable (gate.RoundInOrder text) :=
  inferInstanceAs (Decidable (_ → _))

theorem isSuffix_pendingSuffixLoop (text : JsStr) (length : Nat) :
    pendingSuffixLoop text length <:+ text := by
  induction length with
  | zero => exact nil_suffix
  | succ length ih =>
    rw [pendingSuffixLoop]
    split
    · exact drop_suffix _ _
    · exact ih

theorem take_append_pendingBoundarySuffix (text : JsStr) :
    text.take (text.length - (pendingBoundarySuffix text).length) ++
      pendingBoundarySuffix text = text := by
  obtain ⟨front, hfront⟩ :=
    isSuffix_pendingSuffixLoop text (min maxPendingCsiChars text.length)
  rw [← pendingBoundarySuffix] at hfront
  have hlength := congrArg List.length hfront
  rw [length_append] at hlength
  have htake : text.take front.length = front := by
    rw [← hfront, take_left]
  have hcut : text.length - (pendingBoundarySuffix text).length =
      front.length := by omega
  rw [hcut, htake, hfront]

theorem processRound_moves (hidle : gate.Idle) (text : JsStr) :
    Pipe.Moves (gate.RoundInOrder text) (gate.pipe text)
      ((gate.processRound text).1.pipe (gate.processRound text).2) := by
  unfold processRound RoundInOrder
  split
  · next hframe =>
    split
    · next hfind =>
      have happend := appendCurrentFrame_moves hidle text []
      rw [append_nil] at happend
      apply happend.congr
      simp [hfind, hframe, CutInOrder]
    · next boundary hfind =>
      obtain ⟨-, hcut⟩ := findNextBoundary_cuts hfind
      have happend := appendCurrentFrame_moves hidle
        (text.take boundary.index) (boundary.sequence ++
          text.drop (boundary.index + boundary.sequence.length))
      rw [← append_assoc, ← hcut] at happend
      have happended := appendCurrentFrame_idle hidle
        (text.take boundary.index)
      dsimp only
      split
      · next hkind =>
        apply (happend.trans
          (flush_forwardText_moves happended.isOpen _ _)).congr
        simp [hfind, hframe, CutInOrder, hkind]
      · next hkind =>
        apply (happend.trans
          (closeFrame_moves happended boundary.sequence _)).congr
        simp [hfind, hframe, CutInOrder, hkind]
  · next hframe =>
    have hcurrent : gate.currentFrameData = [] := not_not.mp hframe
    have hkeeps : (gate.currentFrameData ≠ [] →
        gate.CutInOrder text (findNextBoundary text)) :=
      fun h => absurd h hframe
    split
    · have hbarrier := handleBarrier_moves hidle hcurrent
        (text.take (text.length - (pendingBoundarySuffix text).length))
        (pendingBoundarySuffix text)
      rw [take_append_pendingBoundarySuffix] at hbarrier
      have hkept := keepPrefix_moves (handleBarrier_idle hidle (text.take
          (text.length - (pendingBoundarySuffix text).length))).pending
        (pendingBoundarySuffix text)
      exact (hbarrier.trans hkept).congr (iff_of_true ⟨trivial, trivial⟩ hkeeps)
    · next boundary hfind =>
      obtain ⟨-, hcut⟩ := findNextBoundary_cuts hfind
      have hbarrier := handleBarrier_moves hidle hcurrent
        (text.take boundary.index) (boundary.sequence ++
          text.drop (boundary.index + boundary.sequence.length))
      rw [← append_assoc, ← hcut] at hbarrier
      have hafter := handleBarrier_idle hidle (text.take boundary.index)
      have hempty := handleBarrier_currentFrameData hidle hcurrent
        (text.take boundary.index)
      have hmoved := iff_of_true (⟨trivial, trivial⟩ : True ∧ True) hkeeps
      dsimp only
      split
      · exact (hbarrier.trans
          (handleBarrier_moves hafter hempty _ _)).congr hmoved
      · exact (hbarrier.trans (openFrame_moves hafter hempty _ _)).congr hmoved

theorem processRound_idle (hidle : gate.Idle) (text : JsStr) :
    (gate.processRound text).1.disposed = false ∧
      ((gate.processRound text).2 ≠ [] →
        (gate.processRound text).1.Idle) := by
  have hstays : ∀ {after : FrameGate} {rest : JsStr}, after.Idle →
      after.disposed = false ∧ (rest ≠ [] → after.Idle) :=
    fun h => ⟨h.isOpen, fun _ => h⟩
  unfold processRound
  split <;> split
  · exact hstays (appendCurrentFrame_idle hidle text)
  · next boundary _ =>
    have happended := appendCurrentFrame_idle hidle (text.take boundary.index)
    dsimp only
    split
    · have hflushed := flush_idle happended.isOpen
      exact hstays ⟨by simp [hflushed.isOpen], by simp [hflushed.pending]⟩
    · exact hstays (closeFrame_idle happended _)
  · have hbarrier := handleBarrier_idle hidle
      (text.take (text.length - (pendingBoundarySuffix text).length))
    exact ⟨hbarrier.isOpen, fun h => absurd rfl h⟩
  · next boundary _ =>
    have hbarrier := handleBarrier_idle hidle (text.take boundary.index)
    dsimp only
    split
    · exact hstays (handleBarrier_idle hbarrier _)
    · exact hstays ⟨hbarrier.isOpen, hbarrier.pending⟩

/-- Every round of the loop flushes in order. -/
def LoopInOrder (gate : FrameGate) (text : JsStr) : Prop :=
  if _h : text = [] then True
  else
    gate.RoundInOrder text ∧
      LoopInOrder (gate.processRound text).1 (gate.processRound text).2
termination_by text.length
decreasing_by exact length_processRound gate _h

theorem loopInOrder_iff (gate : FrameGate) (h : text ≠ []) :
    gate.LoopInOrder text ↔ gate.RoundInOrder text ∧
      (gate.processRound text).1.LoopInOrder (gate.processRound text).2 := by
  rw [LoopInOrder, dif_neg h]

/-- `rounds` bounds the length of the text, and so the rounds of the loop. -/
@[reducible] def decidableLoopWithin : ∀ (rounds : Nat) (gate : FrameGate) (text : JsStr),
    text.length ≤ rounds → Decidable (gate.LoopInOrder text)
  | _, gate, [], _ => isTrue (by rw [LoopInOrder, dif_pos rfl]; trivial)
  | rounds + 1, gate, unit :: rest, h =>
    have hshorter := gate.length_processRound (cons_ne_nil unit rest)
    have := decidableLoopWithin rounds (gate.processRound (unit :: rest)).1
      (gate.processRound (unit :: rest)).2 (by omega)
    decidable_of_iff _ (gate.loopInOrder_iff (cons_ne_nil unit rest)).symm

instance : Decidable (gate.LoopInOrder text) :=
  decidableLoopWithin text.length gate text (Nat.le_refl _)

theorem processLoop_moves (gate : FrameGate) (text : JsStr)
    (hopen : gate.disposed = false) (hidle : text ≠ [] → gate.Idle) :
    (gate.processLoop text).disposed = false ∧
      Pipe.Moves (gate.LoopInOrder text) (gate.pipe text)
        ((gate.processLoop text).pipe []) := by
  induction gate, text using processLoop.induct with
  | case1 gate =>
    rw [processLoop, LoopInOrder]
    exact ⟨hopen, Pipe.Moves.of_eq rfl rfl⟩
  | case2 gate text hne round ih =>
    obtain ⟨hround, hnext⟩ := processRound_idle (hidle hne) text
    obtain ⟨hlast, hrest⟩ := ih hround hnext
    rw [processLoop, LoopInOrder, dif_neg hne, dif_neg hne]
    exact ⟨hlast, (processRound_moves (hidle hne) text).trans hrest⟩

def ProcessInOrder (gate : FrameGate) (data : JsStr) : Prop :=
  let text := gate.pendingPrefix ++ data
  gate.takePrefix.LoopInOrder text ∧ (defaultMaxHeldFrameBytes ≤
        (gate.takePrefix.processLoop text).getHeldBytes →
      (gate.takePrefix.processLoop text).FlushInOrder)

instance : Decidable (gate.ProcessInOrder text) :=
  inferInstanceAs (Decidable (_ ∧ (_ → _)))

theorem takePrefix_moves (data : JsStr) :
    Pipe.Moves True (gate.pipe data)
      (gate.takePrefix.pipe (gate.pendingPrefix ++ data)) := by
  apply Pipe.Moves.of_eq
  · rfl
  · simp [pipe, takePrefix, heldText, heldData]

theorem processCollapseText_moves (hopen : gate.disposed = false)
    (data : JsStr) :
    Pipe.Moves (gate.ProcessInOrder data) (gate.pipe data)
      ((gate.processCollapseText data).pipe []) := by
  obtain ⟨hafter, hloop⟩ := processLoop_moves gate.takePrefix
    (gate.pendingPrefix ++ data) hopen (fun _ => ⟨hopen, rfl⟩)
  have hread := (takePrefix_moves data).trans hloop
  unfold processCollapseText ProcessInOrder
  dsimp only
  split
  · next hcap =>
    apply (hread.trans (flush_moves hafter [])).congr
    exact ⟨fun h => ⟨h.1.2, fun _ => h.2⟩, fun h => ⟨⟨trivial, h.1⟩, h.2 hcap⟩⟩
  · next hcap =>
    apply hread.congr
    exact ⟨fun h => ⟨h.2, fun h => absurd h hcap⟩, fun h => ⟨trivial, h.1⟩⟩

end FrameGate

end NiceTerm.Gate
