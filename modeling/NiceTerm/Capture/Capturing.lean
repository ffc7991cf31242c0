/-
Between the markers.  The buffer and the kept tail together are always the
output read so far, and the tail reaches back to the front of an end marker
that has begun.
-/
import NiceTerm.Capture.Waiting

namespace NiceTerm.Capture

open OutputCaptureProcessor RustStr

/-- A registered capture among others that wait for their start markers. -/
structure Registration where
  id : Str
  earlier : List (Str × ActiveCapture)
  later : List (Str × ActiveCapture)
  sent : List (Str × CapturedOutput)
  plain : PlainId id
  othersPlain : ∀ entry ∈ earlier ++ later, PlainId entry.1
  distinct : ∀ entry ∈ earlier ++ later, entry.1 ≠ id
  waiting : ∀ entry ∈ earlier ++ later, entry.2.phase = .waitingForStart

namespace Registration

open List

variable (r : Registration)

/-- The processor with the capture in a given state. -/
def processor (capture : ActiveCapture) (tail : Str) :
    OutputCaptureProcessor where
  active := r.earlier ++ (r.id, capture) :: r.later
  pendingMarkerTail := tail
  sent := r.sent

def ids : List Str :=
  r.earlier.map Prod.fst ++ r.id :: r.later.map Prod.fst

variable (capture : ActiveCapture) (tail : Str)

@[simp] theorem processor_ids : (r.processor capture tail).ids = r.ids := by
  simp [processor, OutputCaptureProcessor.ids, ids]

theorem id_mem : r.id ∈ r.ids := by
  simp [ids]

theorem plainIds : ∀ id ∈ r.ids, PlainId id := by
  intro id hid
  simp only [ids, mem_append, mem_cons, mem_map] at hid
  rcases hid with ⟨entry, hentry, rfl⟩ | rfl | ⟨entry, hentry, rfl⟩
  · exact r.othersPlain entry (mem_append_left _ hentry)
  · exact r.plain
  · exact r.othersPlain entry (mem_append_right _ hentry)

theorem distinct_earlier : ∀ entry ∈ r.earlier, entry.1 ≠ r.id :=
  fun entry hentry => r.distinct entry (mem_append_left _ hentry)

theorem distinct_later : ∀ entry ∈ r.later, entry.1 ≠ r.id :=
  fun entry hentry => r.distinct entry (mem_append_right _ hentry)

@[simp] theorem processor_get :
    (r.processor capture tail).get r.id = some capture := by
  have hnone : r.earlier.find? (fun entry => entry.1 = r.id) = none := by
    rw [find?_eq_none]
    intro entry hentry
    simpa using r.distinct_earlier entry hentry
  simp [OutputCaptureProcessor.get, processor, find?_append, hnone]

@[simp] theorem processor_modify (change : ActiveCapture → ActiveCapture) :
    (r.processor capture tail).modify r.id change =
      r.processor (change capture) tail := by
  have hsame : ∀ entries : List (Str × ActiveCapture),
      (∀ entry ∈ entries, entry.1 ≠ r.id) → entries.map (fun entry =>
        if entry.1 = r.id then (entry.1, change entry.2) else entry) =
        entries := by
    intro entries hentries
    refine (map_congr_left fun entry hentry => ?_).trans (map_id entries)
    exact if_neg (hentries entry hentry)
  simp [OutputCaptureProcessor.modify, processor, hsame _ r.distinct_earlier,
    hsame _ r.distinct_later]

theorem processor_anyInPhase {target : CapturePhase}
    (htarget : target ≠ .waitingForStart) :
    (r.processor capture tail).anyInPhase target =
      if capture.phase = target then some r.id else none := by
  have hnone : ∀ entries : List (Str × ActiveCapture),
      (∀ entry ∈ entries, entry.2.phase = .waitingForStart) →
      entries.find? (fun entry => entry.2.phase = target) = none := by
    intro entries hentries
    rw [find?_eq_none]
    intro entry hentry
    simp [hentries entry hentry, htarget.symm]
  have hearlier := hnone r.earlier fun entry hentry =>
    r.waiting entry (mem_append_left _ hentry)
  have hlater := hnone r.later fun entry hentry =>
    r.waiting entry (mem_append_right _ hentry)
  by_cases hphase : capture.phase = target
  · simp [anyInPhase, processor, find?_append, hearlier, hphase]
  · simp [anyInPhase, processor, find?_append, hearlier, hlater, hphase]

theorem processor_remove :
    ((r.processor capture tail).remove r.id).active =
      r.earlier ++ r.later := by
  have hsame : ∀ entries : List (Str × ActiveCapture),
      (∀ entry ∈ entries, entry.1 ≠ r.id) →
      entries.filter (fun entry => entry.1 ≠ r.id) = entries := by
    intro entries hentries
    rw [filter_eq_self]
    intro entry hentry
    simpa using hentries entry hentry
  have hearlier := hsame r.earlier r.distinct_earlier
  have hlater := hsame r.later r.distinct_later
  simp only [remove, processor, filter_append, hearlier]
  rw [filter_cons_of_neg (by simp), hlater]

end Registration

/-- Between the markers, text without a marker's fixed part. -/
theorem processLoop_of_plain {p : OutputCaptureProcessor}
    {captureId text passthrough : Str} (hne : text ≠ [])
    (hstart : p.tryMatchStart text = none) (hend : p.tryMatchEnd text = none)
    (hphase : p.anyInPhase .capturing = some captureId)
    (hfind : text.dropInfix? markerPrefix = none) :
    processLoop p text passthrough =
      (passthrough, p.modify captureId (appendCaptureOutput text)) := by
  rw [processLoop, if_neg hne]
  split
  · next hmatch => rw [hstart] at hmatch; cases hmatch
  · simp only [hend, hphase]
    split
    · rfl
    · next hsome => rw [hfind] at hsome; cases hsome

/-- Between the markers, text with a marker's fixed part: it is kept for the
next chunk where it may begin a marker. -/
theorem processLoop_of_marker {p : OutputCaptureProcessor}
    {captureId text before rest : Str} (passthrough : Str) (hne : text ≠ [])
    (hstart : p.tryMatchStart text = none) (hend : p.tryMatchEnd text = none)
    (hphase : p.anyInPhase .capturing = some captureId)
    (hfind : text.dropInfix? markerPrefix = some (before, rest)) :
    processLoop p text passthrough =
      let p := p.modify captureId (appendCaptureOutput before)
      if isPossibleMarkerPrefix p.ids (markerPrefix ++ rest) then
        (passthrough, { p with
          pendingMarkerTail := p.pendingMarkerTail ++ (markerPrefix ++ rest) })
      else if before = [] then
        processLoop (p.modify captureId (appendCaptureOutput markerPrefix))
          rest passthrough
      else processLoop p (markerPrefix ++ rest) passthrough := by
  rw [processLoop, if_neg hne]
  split
  · next hmatch => rw [hstart] at hmatch; cases hmatch
  · simp only [hend, hphase]
    split
    · next hnone => rw [hfind] at hnone; cases hnone
    · next front back hsome =>
        rw [hfind] at hsome
        obtain ⟨rfl, rfl⟩ := Prod.mk.inj (Option.some.inj hsome)
        simp only [dite_eq_ite]

/-- Below the limit nothing of the output is cut. -/
theorem appendCaptureOutput_eq {capture : ActiveCapture} {text : Str}
    (h : len (capture.buffer ++ text) ≤ maxCaptureBytes) :
    appendCaptureOutput text capture =
      { capture with buffer := capture.buffer ++ text } := by
  rw [len_append] at h
  have hroom : len text ≤ maxCaptureBytes - len capture.buffer := by omega
  simp only [appendCaptureOutput, hroom, ↓reduceIte]

namespace Registration

open List

variable (r : Registration)

/-- The capture between its markers with what it has taken so far. -/
def capturing (buffer tail : Str) : OutputCaptureProcessor :=
  r.processor { buffer, phase := .capturing } tail

variable {buffer text rest : Str}

theorem capturing_append {tail : Str}
    (h : len (buffer ++ text) ≤ maxCaptureBytes) :
    (r.capturing buffer tail).modify r.id (appendCaptureOutput text) =
      r.capturing (buffer ++ text) tail := by
  rw [capturing, processor_modify, appendCaptureOutput_eq h]
  rfl

/-- Neither search matches in the text. -/
def Unmatched (buffer text : Str) : Prop :=
  (r.capturing buffer []).tryMatchStart text = none ∧
    (r.capturing buffer []).tryMatchEnd text = none

theorem unmatched_of_free (buffer : Str)
    (hfree : MarkerFree r.ids text) : r.Unmatched buffer text := by
  constructor
  · apply tryMatchStart_eq_none
    rw [capturing, processor_ids]
    exact hfree.start
  · apply tryMatchEnd_eq_none
    rw [capturing, processor_ids]
    exact hfree.stop

theorem capturing_phase (buffer : Str) :
    (r.capturing buffer []).anyInPhase .capturing = some r.id :=
  r.processor_anyInPhase _ _ (by decide)

theorem capturing_ids (buffer tail : Str) :
    (r.capturing buffer tail).ids = r.ids :=
  r.processor_ids _ _

/-- Text without a marker's fixed part is output as a whole. -/
theorem processLoop_plain {passthrough : Str}
    (hne : text ≠ []) (hunmatched : r.Unmatched buffer text)
    (hfind : text.dropInfix? markerPrefix = none)
    (hroom : len (buffer ++ text) ≤ maxCaptureBytes) :
    processLoop (r.capturing buffer []) text passthrough =
      (passthrough, r.capturing (buffer ++ text) []) := by
  rw [processLoop_of_plain hne hunmatched.1 hunmatched.2
    (r.capturing_phase buffer) hfind, r.capturing_append hroom]

section

variable {passthrough before : Str} (hne : text ≠ [])
    (hunmatched : r.Unmatched buffer text)
    (hfind : text.dropInfix? markerPrefix = some (before, rest))
include hne hunmatched hfind

/-- A possible beginning of a marker at the end of the text is kept. -/
theorem processLoop_keeps
    (hpossible : isPossibleMarkerPrefix r.ids (markerPrefix ++ rest) = true)
    (hroom : len (buffer ++ before) ≤ maxCaptureBytes) :
    processLoop (r.capturing buffer []) text passthrough =
      (passthrough, r.capturing (buffer ++ before) (markerPrefix ++ rest)) := by
  rw [processLoop_of_marker passthrough hne hunmatched.1 hunmatched.2
    (r.capturing_phase buffer) hfind, r.capturing_append hroom]
  simp only [r.capturing_ids]
  rw [if_pos hpossible]
  rfl

theorem processLoop_passes
    (hpossible : ¬ isPossibleMarkerPrefix r.ids (markerPrefix ++ rest) = true)
    (hroom : len (buffer ++ before) ≤ maxCaptureBytes)
    (hmarker : before = [] → len (buffer ++ markerPrefix) ≤ maxCaptureBytes) :
    processLoop (r.capturing buffer []) text passthrough =
      if before = [] then
        processLoop (r.capturing (buffer ++ markerPrefix) []) rest passthrough
      else
        processLoop (r.capturing (buffer ++ before) [])
          (markerPrefix ++ rest) passthrough := by
  rw [processLoop_of_marker passthrough hne hunmatched.1 hunmatched.2
    (r.capturing_phase buffer) hfind, r.capturing_append hroom]
  simp only [r.capturing_ids]
  rw [if_neg hpossible]
  by_cases hbefore : before = []
  · rw [if_pos hbefore, if_pos hbefore, hbefore, append_nil,
      r.capturing_append (hmarker hbefore)]
  · rw [if_neg hbefore, if_neg hbefore]

end

/-- What may follow the output in the text read so far: nothing, or enough of
an end marker to be kept. -/
def Begins (output next : Str) : Prop :=
  next = [] ∨ markerPrefix <+: next ∧ Possible r.ids next ∧
    ¬ markerPrefix.dropLast <:+ output

/-- The first fixed part found does not lie behind the output. -/
theorem before_isPrefix {output next before : Str}
    (hbegins : next = [] ∨ markerPrefix <+: next)
    (hfind : (output ++ next).dropInfix? markerPrefix = some (before, rest)) :
    before <+: output := by
  obtain ⟨htext, hfirst⟩ := (Search.dropInfix?_eq_some (by decide)).mp hfind
  rcases hbegins with rfl | hnext
  · rw [append_nil] at htext
    rw [htext, append_assoc]
    exact prefix_append _ _
  · have hbefore : before <+: output ++ next := by
      rw [htext, append_assoc]
      exact prefix_append _ _
    refine prefix_of_prefix_length_le hbefore (prefix_append output next) ?_
    by_contra hlt
    apply hfirst
    have hearly : output ++ markerPrefix <+: output ++ next :=
      (prefix_append_right_inj output).mpr hnext
    have hlate : before ++ markerPrefix.dropLast <+: output ++ next := by
      rw [htext, append_assoc]
      refine (prefix_append_right_inj before).mpr ?_
      exact (List.dropLast_prefix _).trans (prefix_append _ _)
    refine infix_append_right.trans
      (prefix_of_prefix_length_le hearly hlate ?_).isInfix
    have hone : markerPrefix.length = markerPrefix.dropLast.length + 1 := rfl
    simp only [length_append]
    omega

/-- A fixed part at the front that begins no marker lies in the output. -/
theorem markerPrefix_isPrefix {output next whole : Str}
    (hbegins : r.Begins whole next) (hwhole : output <:+ whole)
    (htext : output ++ next = markerPrefix ++ rest)
    (hpossible : ¬ isPossibleMarkerPrefix r.ids (markerPrefix ++ rest) = true) :
    markerPrefix <+: output := by
  rcases hbegins with rfl | ⟨hnext, hkept, hoverlap⟩
  · rw [append_nil] at htext
    exact htext ▸ prefix_append _ _
  · by_cases hnil : output = []
    · rw [hnil, nil_append] at htext
      rw [← htext] at hpossible
      refine absurd (isPossibleMarkerPrefix_iff.mpr ⟨?_, hkept⟩) hpossible
      rintro rfl
      exact absurd hnext (by decide)
    · have hpair : endSuffix <+: next := IsPrefix.trans (by decide) hnext
      have hheaded : Headed markerPrefix := by decide
      have hfront : [] ++ markerPrefix ++ rest = output ++ next := htext.symm
      obtain ⟨between, hbetween⟩ := hheaded.dropLast_isInfix hpair hfront
        (length_pos_iff.mpr hnil)
      rw [nil_append] at hbetween
      cases between with
      | nil =>
        rw [append_nil] at hbetween
        exact absurd (hbetween ▸ hwhole) hoverlap
      | cons c cs =>
        refine prefix_of_prefix_length_le (prefix_append _ rest)
          (htext ▸ prefix_append output next) ?_
        have hlength := congrArg List.length hbetween
        have hone : markerPrefix.length =
          markerPrefix.dropLast.length + 1 := rfl
        simp only [length_append, length_cons] at hlength
        omega

theorem len_le_of_isPrefix {front : Str} (h : front <+: text) :
    len front ≤ len text := by
  obtain ⟨rest, rfl⟩ := h
  rw [len_append]
  exact Nat.le_add_right _ _

/-- Reading on without completing a marker: the buffer and the tail are the
text read so far, and the buffer holds output only. -/
theorem processLoop_open {output next : Str} (passthrough : Str)
    (hroom : len output ≤ maxCaptureBytes)
    (hfree : MarkerFree r.ids (output ++ next))
    (hbegins : r.Begins output next) :
    ∀ {buffer text : Str}, buffer ++ text = output ++ next →
      buffer <+: output → ∃ taken kept,
        processLoop (r.capturing buffer []) text passthrough =
          (passthrough, r.capturing taken kept) ∧
        taken ++ kept = output ++ next ∧ taken <+: output := by
  intro buffer text htext hbuffer
  induction hlength : text.length using Nat.strong_induction_on
    generalizing buffer text with
  | _ size ih =>
    by_cases hnil : text = []
    · refine ⟨buffer, [], ?_, ?_, hbuffer⟩
      · rw [processLoop, if_pos hnil]
      · rw [← htext, hnil]
    obtain ⟨left, hleft⟩ := hbuffer
    have hrest : text = left ++ next := by
      rw [← hleft, append_assoc] at htext
      exact append_cancel_left htext
    have hpart : MarkerFree r.ids text :=
      hfree.of_isInfix (htext ▸ infix_append_right)
    have hunmatched := r.unmatched_of_free buffer hpart
    cases hfind : text.dropInfix? markerPrefix with
    | none =>
      have hnone : next = [] := by
        rcases hbegins with hnone | ⟨hnext, -⟩
        · exact hnone
        · have habsent := Search.dropInfix?_eq_none.mp hfind
          refine absurd (hnext.isInfix.trans ?_) habsent
          exact hrest ▸ infix_append_right
      have hall : buffer ++ text = output := by
        rw [htext, hnone, append_nil]
      refine ⟨buffer ++ text, [], ?_, ?_, ?_⟩
      · exact r.processLoop_plain hnil hunmatched hfind (hall ▸ hroom)
      · rw [append_nil, htext]
      · exact hall ▸ prefix_refl _
    | some parts =>
      obtain ⟨before, rest⟩ := parts
      have hsome : next = [] ∨ markerPrefix <+: next :=
        hbegins.imp_right And.left
      obtain ⟨after, hafter⟩ : before <+: left :=
        before_isPrefix hsome (hrest ▸ hfind)
      have hmarker : markerPrefix ++ rest = after ++ next := by
        have hsplit := ((Search.dropInfix?_eq_some (by decide)).mp hfind).1
        rw [hrest, ← hafter, append_assoc, append_assoc] at hsplit
        exact (append_cancel_left hsplit).symm
      have htaken : buffer ++ before <+: output :=
        ⟨after, by rw [← hleft, ← hafter, append_assoc]⟩
      have htakenRoom := (len_le_of_isPrefix htaken).trans hroom
      have hrebuilt : buffer ++ before ++ (markerPrefix ++ rest) =
          output ++ next := by
        rw [hmarker, ← hleft, ← hafter]
        simp only [append_assoc]
      by_cases hpossible :
          isPossibleMarkerPrefix r.ids (markerPrefix ++ rest) = true
      · exact ⟨buffer ++ before, markerPrefix ++ rest, r.processLoop_keeps hnil
          hunmatched hfind hpossible htakenRoom, hrebuilt, htaken⟩
      · by_cases hfront : before = []
        · subst hfront
          have hafterEnd : after <:+ output := by
            rw [← hleft, ← hafter]
            exact ⟨buffer ++ [], by simp⟩
          obtain ⟨more, hmore⟩ := r.markerPrefix_isPrefix hbegins hafterEnd
            hmarker.symm hpossible
          have hpassed : buffer ++ markerPrefix <+: output :=
            ⟨more, by
              rw [← hleft, ← hafter, ← hmore]
              simp only [append_assoc, nil_append]⟩
          have hpassedRoom := (len_le_of_isPrefix hpassed).trans hroom
          rw [r.processLoop_passes hnil hunmatched hfind hpossible htakenRoom
            fun _ => hpassedRoom, if_pos rfl]
          refine ih rest.length ?_ ?_ hpassed rfl
          · exact hlength ▸ Search.length_after_lt (by decide) hfind
          · rw [← hrebuilt]
            simp only [append_assoc, nil_append]
        · rw [r.processLoop_passes hnil hunmatched hfind hpossible htakenRoom
            fun h => absurd h hfront, if_neg hfront]
          refine ih (markerPrefix ++ rest).length ?_ hrebuilt htaken rfl
          exact hlength ▸ length_candidate_lt hfind hfront

/-- The capture after its end marker, its result sent. -/
def completed (output code : Str) : OutputCaptureProcessor :=
  { r.processor { resultTx := false, phase := .postCapture } [] with
    sent := r.sent ++ [(r.id, {
      output := trim output
      exitCode := parseI32 code
      sourceTruncated := false })] }

/-- The end marker is matched as soon as no other end marker stands before
it. -/
theorem processLoop_endMarker {left code : Str}
    (passthrough : Str) (hcode : '_' ∉ code) (hne : code ≠ [])
    (hstart : (r.capturing buffer []).tryMatchStart
      (left ++ endMarker r.id code ++ rest) = none)
    (hfirst : ¬ endPrefix <:+: left ++ endPrefix.dropLast) :
    processLoop (r.capturing buffer [])
        (left ++ endMarker r.id code ++ rest) passthrough =
      (passthrough, r.completed (buffer ++ left) code) := by
  have hnil : left ++ endMarker r.id code ++ rest ≠ [] := by
    simp [endMarker, endMarkerPrefix]
  have hget : (r.capturing buffer []).get r.id =
      some { buffer, phase := .capturing } := r.processor_get _ _
  have hend : (r.capturing buffer []).tryMatchEnd
      (left ++ endMarker r.id code ++ rest) = _ :=
    tryMatchEnd_eq_some hget r.plain hcode hne hfirst
  rw [processLoop, if_neg hnil]
  split
  · next hmatch => rw [hstart] at hmatch; cases hmatch
  · rw [hend]
    simp only [capturing, processor_modify]
    rfl

/-- An end marker of another kind stands well before the own one. -/
theorem stale_endPrefix {left : Str}
    (hstale : endPrefix <:+: left ++ endPrefix.dropLast) :
    ∃ front between, left = front ++ endPrefix.dropLast ++ between := by
  obtain ⟨front, back, hoccurs⟩ := hstale
  have hlt : front.length < left.length := by
    have hlength := congrArg List.length hoccurs
    have hone : endPrefix.length = endPrefix.dropLast.length + 1 := rfl
    simp only [length_append] at hlength
    omega
  have hheaded : Headed endPrefix := by decide
  obtain ⟨between, hbetween⟩ :=
    hheaded.dropLast_isInfix (by decide) hoccurs hlt
  exact ⟨front, between, hbetween⟩

/-- The output holds no beginning of a registered end marker, and no start
marker is completed in the text that follows it. -/
structure Separated (output following : Str) : Prop where
  start : ∀ id ∈ r.ids, ¬ startMarker id <:+: output ++ following
  stop : ∀ id ∈ r.ids, ¬ endMarkerPrefix id <:+: output

theorem Separated.left {r : Registration} {output following buffer left : Str}
    (h : r.Separated output following) (hleft : buffer ++ left = output) :
    r.Separated left following := by
  subst hleft
  constructor
  · intro id hid hoccurs
    refine h.start id hid (hoccurs.trans ?_)
    rw [append_assoc]
    exact infix_append_right
  · intro id hid hoccurs
    exact h.stop id hid (hoccurs.trans infix_append_right)

/-- While another end marker stands in front, the search fails. -/
theorem tryMatchEnd_stale {left code : Str}
    (h : r.Separated left (endMarker r.id code ++ rest))
    (hstale : endPrefix <:+: left ++ endPrefix.dropLast) :
    (r.capturing buffer []).tryMatchEnd
      (left ++ endMarker r.id code ++ rest) = none := by
  cases hmatch : (r.capturing buffer []).tryMatchEnd
      (left ++ endMarker r.id code ++ rest) with
  | none => rfl
  | some next =>
    exfalso
    obtain ⟨before, id, found, after, htext, hid, hfound, hfirst⟩ :=
      endMarker_of_tryMatchEnd hmatch
    rw [capturing, processor_ids] at hid
    have hend := endPrefix_isPrefix r.id code rest
    have hpair : endSuffix <+: endMarker r.id code ++ rest :=
      IsPrefix.trans (by decide) hend
    have hthree : ¬ "___".toList <+: endMarker r.id code ++ rest := by
      intro hunder
      have hinside := prefix_of_prefix_length_le hunder hend (by decide)
      exact absurd hinside (by decide)
    rw [append_assoc] at htext
    have hle := not_endMarker_before (r.plainIds id hid) hfound
      (h.stop id hid) hpair hthree htext.symm
    have hlate : left ++ endPrefix.dropLast <+:
        left ++ (endMarker r.id code ++ rest) := by
      refine (prefix_append_right_inj left).mpr ?_
      exact (List.dropLast_prefix _).trans hend
    have hearly : before ++ endPrefix.dropLast <+:
        left ++ (endMarker r.id code ++ rest) := by
      rw [htext, append_assoc]
      refine (prefix_append_right_inj before).mpr ?_
      exact (List.dropLast_prefix _).trans (endPrefix_isPrefix _ _ _)
    apply hfirst
    refine hstale.trans (prefix_of_prefix_length_le hlate hearly ?_).isInfix
    simp only [length_append]
    omega

/-- The first fixed part lies well before the end marker when another end
marker does. -/
theorem stale_split {left code before after : Str}
    (hstale : endPrefix <:+: left ++ endPrefix.dropLast)
    (hfind : (left ++ endMarker r.id code ++ rest).dropInfix? markerPrefix =
      some (before, after)) :
    ∃ more, left = before ++ markerPrefix ++ more ∧
      after = more ++ endMarker r.id code ++ rest := by
  obtain ⟨front, between, hleft⟩ := stale_endPrefix hstale
  have hmarker : markerPrefix <+: endPrefix.dropLast := by decide
  have htext : left ++ endMarker r.id code ++ rest = front ++
      (endPrefix.dropLast ++ (between ++ endMarker r.id code ++ rest)) := by
    rw [hleft]
    simp only [append_assoc]
  have hbefore : before <+: front :=
    before_isPrefix (.inr (hmarker.trans (prefix_append _ _))) (htext ▸ hfind)
  have hsplit := ((Search.dropInfix?_eq_some (by decide)).mp hfind).1
  obtain ⟨more, hmore⟩ : before ++ markerPrefix <+: left := by
    refine prefix_of_prefix_length_le (hsplit ▸ prefix_append _ after)
      (append_assoc left _ rest ▸ prefix_append left _) ?_
    have hlength := congrArg List.length hleft
    have hinside := hmarker.length_le
    have hle := hbefore.length_le
    simp only [length_append] at hlength ⊢
    omega
  refine ⟨more, hmore.symm, ?_⟩
  rw [← hmore] at hsplit
  simp only [append_assoc, append_cancel_left_eq] at hsplit
  rw [← hsplit, append_assoc]

theorem exists_markerPrefix (left code rest : Str) : ∃ before after,
    (left ++ endMarker r.id code ++ rest).dropInfix? markerPrefix =
      some (before, after) := by
  have hmarker : markerPrefix <:+: left ++ endMarker r.id code ++ rest := by
    rw [append_assoc]
    have hfront : markerPrefix <+: endMarker r.id code ++ rest :=
      IsPrefix.trans (by decide) (endPrefix_isPrefix _ _ _)
    exact hfront.isInfix.trans infix_append_right
  cases hfind : (left ++ endMarker r.id code ++ rest).dropInfix?
      markerPrefix with
  | none => exact absurd hmarker (Search.dropInfix?_eq_none.mp hfind)
  | some parts => exact ⟨parts.1, parts.2, rfl⟩

/-- Reading the end marker completes the capture, whatever other markers stand
before it. -/
theorem processLoop_completes {output code : Str} (passthrough : Str)
    (hcode : '_' ∉ code) (hne : code ≠ [])
    (hroom : len output ≤ maxCaptureBytes)
    (h : r.Separated output (endMarker r.id code ++ rest)) :
    ∀ {buffer left : Str}, buffer ++ left = output →
      processLoop (r.capturing buffer [])
          (left ++ endMarker r.id code ++ rest) passthrough =
        (passthrough, r.completed output code) := by
  intro buffer left hleft
  induction hlength : left.length using Nat.strong_induction_on
    generalizing buffer left with
  | _ size ih =>
    have hpart := h.left hleft
    have hstart : (r.capturing buffer []).tryMatchStart
        (left ++ endMarker r.id code ++ rest) = none := by
      apply tryMatchStart_eq_none
      rw [capturing, processor_ids, append_assoc]
      exact hpart.start
    by_cases hstale : endPrefix <:+: left ++ endPrefix.dropLast
    · have hunmatched : r.Unmatched buffer _ :=
        ⟨hstart, r.tryMatchEnd_stale hpart hstale⟩
      obtain ⟨before, after, hfind⟩ := r.exists_markerPrefix left code rest
      obtain ⟨more, hmore, hafter⟩ := r.stale_split hstale hfind
      have hnil : left ++ endMarker r.id code ++ rest ≠ [] := by
        simp [endMarker, endMarkerPrefix]
      have hpossible : ¬ isPossibleMarkerPrefix r.ids
          (markerPrefix ++ after) = true := by
        rw [hafter, append_assoc, ← append_assoc markerPrefix]
        refine not_possible_before_endMarker r.plainIds fun hempty => ?_
        exact absurd (append_eq_nil_iff.mp hempty).1 (by decide)
      have htaken : buffer ++ before <+: output :=
        ⟨markerPrefix ++ more, by
          rw [← hleft, hmore]
          simp only [append_assoc]⟩
      have htakenRoom := (len_le_of_isPrefix htaken).trans hroom
      have hlonger := congrArg List.length hmore
      simp only [length_append] at hlonger
      by_cases hfront : before = []
      · have hpassed : buffer ++ markerPrefix ++ more = output := by
          rw [← hleft, hmore, hfront]
          simp only [append_assoc, nil_append]
        have hpassedRoom :=
          (len_le_of_isPrefix ⟨more, hpassed⟩).trans hroom
        rw [r.processLoop_passes hnil hunmatched hfind hpossible htakenRoom
          fun _ => hpassedRoom, if_pos hfront, hafter]
        refine ih more.length ?_ hpassed rfl
        have hpos : 0 < markerPrefix.length := by decide
        omega
      · rw [r.processLoop_passes hnil hunmatched hfind hpossible htakenRoom
          fun hnone => absurd hnone hfront, if_neg hfront, hafter]
        have hpos := length_pos_iff.mpr hfront
        have hrest := ih (markerPrefix ++ more).length
          (by rw [length_append]; omega)
          (show buffer ++ before ++ (markerPrefix ++ more) = output by
            rw [← hleft, hmore]
            simp only [append_assoc]) rfl
        simpa only [append_assoc] using hrest
    · rw [r.processLoop_endMarker passthrough hcode hne hstart hstale, hleft]

end Registration

end NiceTerm.Capture
