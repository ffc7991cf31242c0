/-
Captures that wait for their start markers.  What the processor keeps between
two chunks is the longest end of the text so far that a marker can begin with,
however the text was split.
-/
import NiceTerm.Capture.Markers

namespace NiceTerm.Capture

open List OutputCaptureProcessor RustStr

theorem possibleMarkerTail_isSuffix (ids : List Str) (text : Str) :
    possibleMarkerTail ids text <:+ text := by
  induction text with
  | nil => exact suffix_refl []
  | cons c cs ih =>
    by_cases h : isPossibleMarkerPrefix ids (c :: cs) = true
    · rw [possibleMarkerTail, if_pos h]
    · rw [possibleMarkerTail, if_neg h]
      exact ih.trans (suffix_cons c cs)

variable {ids : List Str} {text : Str}

theorem possible_possibleMarkerTail (h : possibleMarkerTail ids text ≠ []) :
    Possible ids (possibleMarkerTail ids text) := by
  induction text with
  | nil => exact absurd rfl h
  | cons c cs ih =>
    by_cases hc : isPossibleMarkerPrefix ids (c :: cs) = true
    · rw [possibleMarkerTail, if_pos hc]
      exact (isPossibleMarkerPrefix_iff.mp hc).2
    · rw [possibleMarkerTail, if_neg hc] at h ⊢
      exact ih h

/-- Every end of the text that can begin a marker is kept. -/
theorem isSuffix_possibleMarkerTail {part : Str} (hpart : part <:+ text)
    (h : Possible ids part) : part <:+ possibleMarkerTail ids text := by
  by_cases hnil : part = []
  · rw [hnil]
    exact nil_suffix
  induction text with
  | nil => exact absurd (suffix_nil.mp hpart) hnil
  | cons c cs ih =>
    by_cases hc : isPossibleMarkerPrefix ids (c :: cs) = true
    · rw [possibleMarkerTail, if_pos hc]
      exact hpart
    · rw [possibleMarkerTail, if_neg hc]
      rcases suffix_cons_iff.mp hpart with rfl | hrest
      · exact absurd (isPossibleMarkerPrefix_iff.mpr ⟨hnil, h⟩) hc
      · exact ih hrest

/-- Keeping the tail and reading on is as good as keeping everything. -/
theorem possibleMarkerTail_append (ids : List Str) (text chunk : Str) :
    possibleMarkerTail ids (possibleMarkerTail ids text ++ chunk) =
      possibleMarkerTail ids (text ++ chunk) := by
  induction text with
  | nil => rfl
  | cons c cs ih =>
    by_cases hc : isPossibleMarkerPrefix ids (c :: cs) = true
    · rw [possibleMarkerTail, if_pos hc]
    · have hmore : ¬ isPossibleMarkerPrefix ids (c :: cs ++ chunk) = true := by
        intro hlong
        have hpossible := (isPossibleMarkerPrefix_iff.mp hlong).2
        exact hc (isPossibleMarkerPrefix_iff.mpr ⟨cons_ne_nil c cs,
          hpossible.of_isPrefix (prefix_append _ _)⟩)
      rw [possibleMarkerTail, if_neg hc, ih]
      rw [cons_append] at hmore ⊢
      rw [possibleMarkerTail, if_neg hmore]

/-- Captures are registered and none has seen its start marker. -/
structure AllWaiting (p : OutputCaptureProcessor) : Prop where
  active : p.active ≠ []
  phase : ∀ entry ∈ p.active, entry.2.phase = .waitingForStart

variable {p : OutputCaptureProcessor}

theorem AllWaiting.anyInPhase (h : AllWaiting p) {target : CapturePhase}
    (htarget : target ≠ .waitingForStart) : p.anyInPhase target = none := by
  rw [OutputCaptureProcessor.anyInPhase, Option.map_eq_none_iff, find?_eq_none]
  intro entry hentry
  simp [h.phase entry hentry, htarget.symm]

theorem AllWaiting.waiting (h : AllWaiting p) :
    (p.anyInPhase .waitingForStart).isSome = true := by
  obtain ⟨entry, rest, hactive⟩ := exists_cons_of_ne_nil h.active
  have hphase := h.phase entry (hactive ▸ mem_cons_self)
  simp [OutputCaptureProcessor.anyInPhase, hactive, hphase]

theorem process_waiting (h : AllWaiting p) {chunk : Str}
    (htail : p.pendingMarkerTail = possibleMarkerTail p.ids text)
    (hfree : MarkerFree p.ids (text ++ chunk)) :
    p.process chunk = ([], { p with
      pendingMarkerTail := possibleMarkerTail p.ids (text ++ chunk) }) := by
  have hactive : ¬ p.active.isEmpty = true := by
    rw [List.isEmpty_iff]
    exact h.active
  rw [process, if_neg hactive, htail]
  have hsuffix : possibleMarkerTail p.ids text ++ chunk <:+ text ++ chunk := by
    obtain ⟨front, hfront⟩ := possibleMarkerTail_isSuffix p.ids text
    exact ⟨front, by rw [← append_assoc, hfront]⟩
  have hpart := hfree.of_isInfix hsuffix.isInfix
  have hstart := tryMatchStart_eq_none
    (p := { p with pendingMarkerTail := [] }) hpart.start
  have hend := tryMatchEnd_eq_none
    (p := { p with pendingMarkerTail := [] }) hpart.stop
  by_cases hnil : possibleMarkerTail p.ids text ++ chunk = []
  · rw [processLoop, if_pos hnil, ← possibleMarkerTail_append, hnil]
    rfl
  · have hwaiting : AllWaiting { p with pendingMarkerTail := [] } :=
      ⟨h.active, h.phase⟩
    rw [processLoop, if_neg hnil]
    split
    · next hmatch => rw [hstart] at hmatch; cases hmatch
    · simp only [hend, hwaiting.anyInPhase (show .capturing ≠ _ by decide),
        hwaiting.anyInPhase (show .postCapture ≠ _ by decide),
        hwaiting.waiting, ↓reduceIte, nil_append]
      rw [← possibleMarkerTail_append p.ids text chunk]
      rfl

/-- Where a start marker of another kind begins in front of `before`'s end,
the text read so far has left it behind: it is no beginning of a registered
start marker any more. -/
def CutOff (ids : List Str) (before marker text : Str) : Prop :=
  ∀ position < before.length,
    startPrefix <+: (before ++ marker).drop position →
      ∀ id ∈ ids, ¬ text.drop position <+: startMarker id

theorem length_le_of_tail {id before dropped : Str}
    (hmem : id ∈ ids) (htext : text <+: before ++ startMarker id)
    (hdropped : dropped ++ possibleMarkerTail ids text = text) :
    dropped.length ≤ before.length := by
  by_cases hshort : text.length ≤ before.length
  · have hlength := congrArg List.length hdropped
    rw [length_append] at hlength
    omega
  · have hfront : before <+: text :=
      prefix_of_prefix_length_le (prefix_append _ _) htext
        (Nat.le_of_not_le hshort)
    obtain ⟨part, rfl⟩ := hfront
    have hpart := (prefix_append_right_inj before).mp htext
    have hkept := isSuffix_possibleMarkerTail (suffix_append before part)
      (.ofStart hmem hpart)
    have hlength := congrArg List.length hdropped
    have hle := hkept.length_le
    simp only [length_append] at hlength
    omega

/-- What is kept of the text before a start marker begins no start marker. -/
theorem first_startPrefix {id chunk : Str}
    {before rest dropped kept : Str} (hids : ∀ id ∈ ids, PlainId id)
    (hmem : id ∈ ids) (hbefore : before = dropped ++ kept)
    (htext : dropped ++ possibleMarkerTail ids text = text)
    (hbuffer : possibleMarkerTail ids text ++ chunk =
      kept ++ startMarker id ++ rest)
    (hcut : CutOff ids before (startMarker id) text) :
    ¬ startPrefix <:+: kept ++ startPrefix.dropLast := by
  rintro ⟨front, back, hoccurs⟩
  have hlt : front.length < kept.length := by
    have hlength := congrArg List.length hoccurs
    have hone : startPrefix.length = startPrefix.dropLast.length + 1 := rfl
    simp only [length_append] at hlength
    omega
  have hmarker : startPrefix <+: startMarker id := by
    rw [startMarker, append_assoc]
    exact prefix_append _ _
  have hdrop : startPrefix <+: (kept ++ startMarker id).drop front.length := by
    have hlonger : front ++ startPrefix <+: kept ++ startMarker id := by
      refine IsPrefix.trans ⟨back, hoccurs⟩ ?_
      exact (prefix_append_right_inj kept).mpr
        ((List.dropLast_prefix _).trans hmarker)
    obtain ⟨tail, htail⟩ := hlonger
    rw [← htail, append_assoc, drop_left]
    exact prefix_append _ _
  have hcutHere := hcut (dropped.length + front.length)
    (by rw [hbefore, length_append]; omega) (by
      rw [hbefore, append_assoc, ← drop_drop, drop_left]
      exact hdrop)
  rw [← htext, ← drop_drop, drop_left] at hcutHere
  -- both stand at the same place of the buffer, so one begins the other
  have hplace : (possibleMarkerTail ids text).drop front.length <+:
      (kept ++ startMarker id ++ rest).drop front.length := by
    rw [← hbuffer]
    exact (prefix_append _ chunk).drop front.length
  have hlater : startPrefix <+:
      (kept ++ startMarker id ++ rest).drop front.length :=
    hdrop.trans ((prefix_append _ rest).drop front.length)
  rcases prefix_or_prefix_of_prefix hplace hlater with hshort | hlong
  · exact hcutHere id hmem (hshort.trans hmarker)
  · have hne : possibleMarkerTail ids text ≠ [] := by
      intro hnil
      rw [hnil, drop_nil] at hlong
      exact absurd hlong (by decide)
    have hpossible := possible_possibleMarkerTail hne
    have hsplit := (take_append_drop front.length
      (possibleMarkerTail ids text)).symm
    have hnone : (possibleMarkerTail ids text).take front.length = [] := by
      refine hpossible.front_eq_nil hids hsplit
        (IsPrefix.trans ⟨_, rfl⟩ hlong) ?_
      exact Nat.lt_of_lt_of_le (by decide) hlong.length_le
    rw [hnone, nil_append] at hsplit
    rw [← hsplit] at hlong hcutHere
    obtain ⟨other, hother, hprefix⟩ := hpossible.isPrefix_startMarker hlong
    exact hcutHere other hother hprefix

/-- The start marker is matched in the chunk that completes it. -/
theorem tryMatchStart_startMarker {id : Str} {chunk before rest : Str}
    (hids : ∀ id ∈ p.ids, PlainId id) (hmem : id ∈ p.ids)
    (htail : p.pendingMarkerTail = possibleMarkerTail p.ids text)
    (htext : text ++ chunk = before ++ startMarker id ++ rest)
    (hlt : text.length < (before ++ startMarker id).length)
    (hcut : CutOff p.ids before (startMarker id) text) :
    p.pendingMarkerTail ++ chunk ≠ [] ∧
      tryMatchStart { p with pendingMarkerTail := [] }
          (p.pendingMarkerTail ++ chunk) =
        some (stripLineBreak rest,
          modify { p with pendingMarkerTail := [] } id fun capture =>
            { capture with phase := .capturing }) := by
  obtain ⟨dropped, hdropped⟩ := possibleMarkerTail_isSuffix p.ids text
  have hfront : text <+: before ++ startMarker id :=
    prefix_of_prefix_length_le (htext ▸ prefix_append _ _)
      (prefix_append _ _) (Nat.le_of_lt hlt)
  have hle := length_le_of_tail hmem hfront hdropped
  obtain ⟨kept, hbefore⟩ : dropped <+: before := by
    have hdrop : dropped <+: before ++ startMarker id :=
      IsPrefix.trans ⟨_, hdropped⟩ hfront
    exact prefix_of_prefix_length_le hdrop (prefix_append _ _) hle
  have hbuffer : possibleMarkerTail p.ids text ++ chunk =
      kept ++ startMarker id ++ rest := by
    have hwhole := htext
    rw [← hdropped, ← hbefore] at hwhole
    simpa only [append_assoc, append_cancel_left_eq] using hwhole
  have hfirst := first_startPrefix hids hmem hbefore.symm hdropped hbuffer hcut
  rw [htail, hbuffer]
  refine ⟨fun hnil => ?_, tryMatchStart_eq_some hmem (hids id hmem) hfirst⟩
  have hmarker := (append_eq_nil_iff.mp (append_eq_nil_iff.mp hnil).1).2
  exact absurd (append_eq_nil_iff.mp hmarker).2 (by decide)

/-- The chunk that completes the start marker: the capture begins and the rest
of the chunk is read as its output. -/
theorem process_startMarker {id : Str} {chunk before rest : Str}
    (h : AllWaiting p) (hids : ∀ id ∈ p.ids, PlainId id) (hmem : id ∈ p.ids)
    (htail : p.pendingMarkerTail = possibleMarkerTail p.ids text)
    (htext : text ++ chunk = before ++ startMarker id ++ rest)
    (hlt : text.length < (before ++ startMarker id).length)
    (hcut : CutOff p.ids before (startMarker id) text) :
    p.process chunk = processLoop
        (modify { p with pendingMarkerTail := [] } id fun capture =>
          { capture with phase := .capturing })
        (stripLineBreak rest) [] := by
  obtain ⟨hne, hmatch⟩ :=
    tryMatchStart_startMarker hids hmem htail htext hlt hcut
  have hactive : ¬ p.active.isEmpty = true := by
    rw [List.isEmpty_iff]
    exact h.active
  rw [process, if_neg hactive, processLoop, if_neg hne]
  split
  · next after next hfound =>
      rw [hmatch] at hfound
      obtain ⟨rfl, rfl⟩ := Prod.mk.inj (Option.some.inj hfound)
      rfl
  · next hnone =>
      rw [hmatch] at hnone
      cases hnone

end NiceTerm.Capture
