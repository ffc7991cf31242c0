/-
The bytes of the frame gate: what is forwarded, dropped and held adds up to
what was given to it, because no code point is ever cut in two.
-/
import NiceTerm.Gate.Order

namespace NiceTerm.Gate

open JsString List

def Emission.bytes : Emission → Nat
  | .forward _ bytes => bytes
  | .ackDropped _ bytes => bytes

def emittedBytes : List Emission → Nat
  | [] => 0
  | emission :: rest => emission.bytes + emittedBytes rest

theorem emittedBytes_append (front back : List Emission) :
    emittedBytes (front ++ back) = emittedBytes front + emittedBytes back := by
  induction front with
  | nil => simp [emittedBytes]
  | cons emission rest ih =>
    simp only [cons_append, emittedBytes, ih, Nat.add_assoc]

/-- A boundary sequence is plain text that starts with ESC or CSI. -/
theorem sequence_spec {sequence : JsStr} (h : sequence ∈ dec2026Sequences) :
    isWellFormed sequence = true ∧ ∃ head tail, sequence = head :: tail ∧
        isLowSurrogate head = false := by
  simp only [dec2026Sequences, mem_cons, not_mem_nil, or_false] at h
  rcases h with rfl | rfl | rfl | rfl <;>
    exact ⟨by decide, _, _, rfl, by decide⟩

theorem isWellFormed_cut {text : JsStr} {boundary : Dec2026Boundary}
    (h : boundary.Cuts text) (htext : isWellFormed text = true) :
    isWellFormed (text.take boundary.index) = true ∧
      isWellFormed boundary.sequence = true := by
  obtain ⟨hmem, hcut⟩ := h
  obtain ⟨hsequence, head, tail, hhead, hlow⟩ := sequence_spec hmem
  rw [hcut, append_assoc] at htext
  have hfront := isWellFormed_of_append (by simpa [hhead] using hlow) htext
  exact ⟨hfront.1, hsequence⟩

theorem head_pendingSuffixLoop (text : JsStr) (length : Nat) :
    ∀ unit ∈ (pendingSuffixLoop text length).head?,
      isLowSurrogate unit = false := by
  induction length with
  | zero => simp [pendingSuffixLoop]
  | succ length ih =>
    rw [pendingSuffixLoop]
    split
    · next hany =>
      obtain ⟨sequence, hmem, hprefix⟩ := any_eq_true.mp hany
      obtain ⟨-, head, tail, rfl, hlow⟩ := sequence_spec hmem
      obtain ⟨rest, hrest⟩ := isPrefixOf_iff_prefix.mp hprefix
      intro unit hunit
      cases hsuffix : text.drop (text.length - (length + 1)) with
      | nil => simp [hsuffix] at hunit
      | cons first others =>
        simp only [hsuffix, cons_append, cons.injEq,
          head?_cons, Option.mem_some_iff] at hrest hunit
        rw [← hunit, hrest.1]
        exact hlow
    · exact ih

namespace FrameGate

variable {gate : FrameGate} {text rest : JsStr} {total : Nat}

/-- The bytes forwarded or acknowledged so far. -/
def sentBytes (gate : FrameGate) : Nat :=
  emittedBytes gate.emitted

@[simp] theorem emit_sentBytes (emission : Emission) :
    (gate.emit emission).sentBytes = gate.sentBytes + emission.bytes := by
  simp [sentBytes, emit, emittedBytes_append, emittedBytes]

@[simp] theorem forwardText_sentBytes (text : JsStr) :
    (gate.forwardText text).sentBytes = gate.sentBytes + utf8Length text := by
  unfold forwardText
  split
  · next hempty => rw [hempty]; rfl
  · exact emit_sentBytes _

theorem forwardText_getHeldBytes (text : JsStr) :
    (gate.forwardText text).getHeldBytes = gate.getHeldBytes := by
  rw [forwardText_eq]
  rfl

/-- The held text is cut between code points. -/
structure Sound (gate : FrameGate) : Prop where
  pending : isWellFormed gate.pendingPrefix = true
  current : isWellFormed gate.currentFrameData = true
  held : ∀ frame ∈ gate.heldFrame,
    isWellFormed frame.data = true ∧ frame.bytes = utf8Length frame.data

theorem Sound.getHeldBytes (h : gate.Sound) :
    gate.getHeldBytes = utf8Length gate.pendingPrefix +
      utf8Length gate.currentFrameData + utf8Length gate.heldData := by
  unfold FrameGate.getHeldBytes heldData
  split
  · rfl
  · next frame hsome => rw [(h.held frame hsome).2]

/-- With `rest` still to be read the bytes add up to `total`. -/
structure Counts (total : Nat) (gate : FrameGate) (rest : JsStr) : Prop where
  sound : gate.Sound
  unread : isWellFormed rest = true
  sum : gate.sentBytes + gate.getHeldBytes + utf8Length rest = total

/-- The text in front of `rest` has been taken into account. -/
theorem Counts.of_take {after : FrameGate}
    (h : Counts total gate (text ++ rest)) (htext : isWellFormed text = true)
    (hsound : after.Sound)
    (hsum : after.sentBytes + after.getHeldBytes =
      gate.sentBytes + gate.getHeldBytes + utf8Length text) :
    Counts total after rest := by
  have hunread := h.unread
  have htotal := h.sum
  rw [isWellFormed_append htext] at hunread
  rw [utf8Length_append htext] at htotal
  exact ⟨hsound, hunread, by omega⟩

theorem forwardHeld_sentBytes :
    gate.forwardHeld.sentBytes = gate.sentBytes +
      (utf8Length gate.pendingPrefix + utf8Length gate.currentFrameData +
        utf8Length gate.heldData) := by
  unfold forwardHeld heldData
  simp only [forwardText_currentFrameData, forwardText_heldFrame]
  split
  · simp only [forwardText_sentBytes, utf8Length]
    omega
  · simp only [forwardText_sentBytes]
    omega

theorem Counts.flush (h : Counts total gate rest)
    (hopen : gate.disposed = false) : Counts total gate.flush rest := by
  have hsum := h.sum
  rw [h.sound.getHeldBytes] at hsum
  rw [flush_eq hopen]
  refine ⟨⟨rfl, rfl, by simp [clearHeld]⟩, h.unread, ?_⟩
  change gate.forwardHeld.sentBytes + 0 + utf8Length rest = total
  rw [forwardHeld_sentBytes]
  exact hsum

section

variable (h : Counts total gate (text ++ rest))
    (htext : isWellFormed text = true)
include h htext

theorem Counts.forwardText :
    Counts total (gate.forwardText text) rest := by
  apply h.of_take htext
  · exact ⟨by simp [h.sound.pending], by simp [h.sound.current],
      by simpa using h.sound.held⟩
  · rw [forwardText_sentBytes, forwardText_getHeldBytes]
    omega

theorem Counts.handleBarrier (hopen : gate.disposed = false) :
    Counts total (gate.handleBarrier text) rest := by
  unfold FrameGate.handleBarrier
  split
  · next hempty => simpa [hempty] using h
  · exact (h.flush hopen).forwardText htext

theorem Counts.growCurrentFrame :
    Counts total (gate.growCurrentFrame text) rest := by
  have hcurrent : isWellFormed (gate.currentFrameData ++ text) = true := by
    rw [isWellFormed_append h.sound.current, htext]
  have hgrown := utf8Length_append h.sound.current text
  have hsound : (gate.growCurrentFrame text).Sound :=
    ⟨h.sound.pending, hcurrent, h.sound.held⟩
  apply h.of_take htext hsound
  rw [hsound.getHeldBytes, h.sound.getHeldBytes]
  change gate.sentBytes + (utf8Length gate.pendingPrefix +
    utf8Length (gate.currentFrameData ++ text) + utf8Length gate.heldData) = _
  omega

theorem Counts.appendCurrentFrame (hopen : gate.disposed = false) :
    Counts total (gate.appendCurrentFrame text) rest := by
  unfold FrameGate.appendCurrentFrame
  split
  · next hempty => simpa [hempty] using h
  · split
    · exact (h.growCurrentFrame htext).flush hopen
    · exact h.growCurrentFrame htext

end

theorem Counts.keepPrefix (h : Counts total gate text)
    (hpending : gate.pendingPrefix = []) :
    Counts total (gate.keepPrefix text) [] := by
  have hsound : (gate.keepPrefix text).Sound :=
    ⟨h.unread, h.sound.current, h.sound.held⟩
  have hsplit : Counts total gate (text ++ []) := by simpa using h
  apply hsplit.of_take h.unread hsound
  rw [hsound.getHeldBytes, h.sound.getHeldBytes, hpending]
  change gate.sentBytes + (utf8Length text + utf8Length gate.currentFrameData +
    utf8Length gate.heldData) = _
  simp only [utf8Length]
  omega

theorem Counts.openFrame (h : Counts total gate (text ++ rest))
    (htext : isWellFormed text = true) (hcurrent : gate.currentFrameData = []) :
    Counts total (gate.openFrame text) rest := by
  have hsound : (gate.openFrame text).Sound :=
    ⟨h.sound.pending, htext, h.sound.held⟩
  apply h.of_take htext hsound
  rw [hsound.getHeldBytes, h.sound.getHeldBytes, hcurrent]
  change gate.sentBytes + (utf8Length gate.pendingPrefix + utf8Length text +
    utf8Length gate.heldData) = _
  simp only [utf8Length]
  omega

/-- Dropped or forwarded, the bytes of the held frame leave. -/
theorem releaseHeldFrame_sentBytes (h : gate.Sound) (proof : SuccessorProof) :
    (gate.releaseHeldFrame proof).sentBytes =
      gate.sentBytes + utf8Length gate.heldData := by
  unfold releaseHeldFrame heldData
  split
  · simp [utf8Length]
  · next frame hsome =>
    split
    · have hdropped : gate.dropHeldFrame =
          { gate.emit (.ackDropped frame.data frame.bytes) with
            heldFrame := none } := by
        rw [dropHeldFrame, hsome]
      rw [hdropped, ← (h.held frame hsome).2]
      exact emit_sentBytes _
    · exact forwardText_sentBytes frame.data

section

variable (h : Counts total gate (text ++ rest))
    (htext : isWellFormed text = true) (hopen : gate.disposed = false)
include h htext hopen

theorem Counts.handleCompleteFrame (content : JsStr) :
    Counts total (gate.handleCompleteFrame text content) rest := by
  unfold FrameGate.handleCompleteFrame
  dsimp only
  split
  · next successorProof _ =>
    have hreleased := gate.releaseHeldFrame_eq successorProof
    have hbytes := releaseHeldFrame_sentBytes h.sound successorProof
    apply h.of_take htext
    · rw [hreleased]
      exact ⟨h.sound.pending, h.sound.current, by simp [htext]⟩
    · change (gate.releaseHeldFrame successorProof).sentBytes +
        (utf8Length (gate.releaseHeldFrame successorProof).pendingPrefix +
          utf8Length (gate.releaseHeldFrame successorProof).currentFrameData +
          utf8Length text) = _
      rw [hbytes, hreleased, h.sound.getHeldBytes]
      dsimp only
      omega
  · exact (h.flush hopen).forwardText htext

theorem Counts.closeFrame :
    Counts total (gate.closeFrame text) rest := by
  let emptied : FrameGate :=
    { gate with currentFrameData := [], currentFrameContent := [] }
  have hsound : emptied.Sound := ⟨h.sound.pending, rfl, h.sound.held⟩
  have hdata := isWellFormed_append h.sound.current text
  rw [htext] at hdata
  have hcounts : Counts total emptied
      (gate.currentFrameData ++ text ++ rest) := by
    have hunread := h.unread
    have hsum := h.sum
    rw [h.sound.getHeldBytes] at hsum
    rw [append_assoc]
    refine ⟨hsound, ?_, ?_⟩
    · rw [isWellFormed_append h.sound.current, hunread]
    · rw [hsound.getHeldBytes, utf8Length_append h.sound.current]
      change gate.sentBytes + (utf8Length gate.pendingPrefix + 0 +
        utf8Length gate.heldData) + _ = total
      omega
  exact hcounts.handleCompleteFrame hdata hopen _

end

theorem Counts.processRound (h : Counts total gate text) (hidle : gate.Idle) :
    Counts total (gate.processRound text).1 (gate.processRound text).2 := by
  unfold FrameGate.processRound
  split <;> split
  · have hsplit : Counts total gate (text ++ []) := by simpa using h
    exact hsplit.appendCurrentFrame h.unread hidle.isOpen
  · next boundary hfind =>
    have hcuts := findNextBoundary_cuts hfind
    obtain ⟨hfront, hsequence⟩ := isWellFormed_cut hcuts h.unread
    rw [hcuts.2, append_assoc] at h
    have happended := h.appendCurrentFrame hfront hidle.isOpen
    have hopen := (appendCurrentFrame_idle hidle
      (text.take boundary.index)).isOpen
    dsimp only
    split
    · exact (happended.flush hopen).forwardText hsequence
    · exact happended.closeFrame hsequence hopen
  · have hsplit := take_append_pendingBoundarySuffix text
    have hunread := h.unread
    rw [← hsplit] at hunread
    have hfront := isWellFormed_of_append
      (head_pendingSuffixLoop text (min maxPendingCsiChars text.length))
      hunread
    rw [← hsplit] at h
    have hbarrier := h.handleBarrier hfront.1 hidle.isOpen
    exact hbarrier.keepPrefix (handleBarrier_idle hidle _).pending
  · next hframe _ boundary hfind =>
    have hcuts := findNextBoundary_cuts hfind
    obtain ⟨hfront, hsequence⟩ := isWellFormed_cut hcuts h.unread
    rw [hcuts.2, append_assoc] at h
    have hbarrier := h.handleBarrier hfront hidle.isOpen
    have hafter := handleBarrier_idle hidle (text.take boundary.index)
    dsimp only
    split
    · exact hbarrier.handleBarrier hsequence hafter.isOpen
    · exact hbarrier.openFrame hsequence (handleBarrier_currentFrameData
        hidle (not_not.mp hframe) (text.take boundary.index))

theorem Counts.processLoop (h : Counts total gate text)
    (hidle : text ≠ [] → gate.Idle) :
    Counts total (gate.processLoop text) [] := by
  induction gate, text using processLoop.induct with
  | case1 gate =>
    rw [FrameGate.processLoop]
    exact h
  | case2 gate text hne round ih =>
    obtain ⟨-, hnext⟩ := processRound_idle (hidle hne) text
    rw [FrameGate.processLoop, dif_neg hne]
    exact ih (h.processRound (hidle hne)) hnext

theorem Counts.processCollapseText (h : Counts total gate text)
    (hopen : gate.disposed = false) :
    Counts total (gate.processCollapseText text) [] := by
  have hsound : gate.takePrefix.Sound := ⟨rfl, h.sound.current, h.sound.held⟩
  have hsum := h.sum
  rw [h.sound.getHeldBytes] at hsum
  have htaken : Counts total gate.takePrefix (gate.pendingPrefix ++ text) := by
    refine ⟨hsound, ?_, ?_⟩
    · rw [isWellFormed_append h.sound.pending, h.unread]
    · rw [hsound.getHeldBytes, utf8Length_append h.sound.pending]
      change gate.sentBytes + (0 + utf8Length gate.currentFrameData +
        utf8Length gate.heldData) + _ = total
      omega
  have hidle : gate.takePrefix.Idle := ⟨hopen, rfl⟩
  have hloop := htaken.processLoop fun _ => hidle
  obtain ⟨hafter, -⟩ := processLoop_moves gate.takePrefix
    (gate.pendingPrefix ++ text) hopen (fun _ => hidle)
  unfold FrameGate.processCollapseText
  dsimp only
  split
  · exact hloop.flush hafter
  · exact hloop

end FrameGate

end NiceTerm.Gate
