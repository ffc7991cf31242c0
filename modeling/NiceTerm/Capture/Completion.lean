/-
A whole marked stream in any chunks: the text up to the start marker is
suppressed, the capture completes once at its end marker, and the text behind
the prompt is forwarded.
-/
import NiceTerm.Capture.Capturing

namespace NiceTerm.Capture

open List OutputCaptureProcessor RustStr

theorem processAll_append (p : OutputCaptureProcessor) (front back : List Str) :
    (p.processAll (front ++ back)).1 =
        (p.processAll front).1 ++ ((p.processAll front).2.processAll back).1 ∧
      (p.processAll (front ++ back)).2 =
        ((p.processAll front).2.processAll back).2 := by
  induction front generalizing p with
  | nil => exact ⟨rfl, rfl⟩
  | cons chunk rest ih =>
    obtain ⟨houtput, hstate⟩ := ih (p.process chunk).2
    simp only [cons_append, processAll, houtput, hstate]
    exact ⟨trivial, trivial⟩

theorem exists_chunk {chunks : List Str} {size : Nat} (hpos : 0 < size)
    (hle : size ≤ chunks.flatten.length) : ∃ front chunk back,
      chunks = front ++ chunk :: back ∧ front.flatten.length < size ∧
      size ≤ (front.flatten ++ chunk).length := by
  induction chunks using reverseRecOn with
  | nil => simp at hle; omega
  | append_singleton front chunk ih =>
    by_cases hfront : size ≤ front.flatten.length
    · obtain ⟨first, middle, last, rfl, hlt, hreach⟩ := ih hfront
      exact ⟨first, middle, last ++ [chunk], by simp, hlt, hreach⟩
    · refine ⟨front, chunk, [], rfl, Nat.lt_of_not_le hfront, ?_⟩
      simpa using hle

theorem processAll_idle {p : OutputCaptureProcessor} (h : p.active = [])
    (chunks : List Str) : p.processAll chunks = (chunks, p) := by
  induction chunks with
  | nil => rfl
  | cons chunk rest ih =>
    have hstep : p.process chunk = (chunk, p) := by
      simp [process, h]
    simp only [processAll, hstep, ih]

/-- The chunks behind the first one with text. -/
def afterPrompt : List Str → List Str
  | [] => []
  | chunk :: chunks => if chunk = [] then afterPrompt chunks else chunks

/-- While captures wait, chunks that complete no marker are suppressed. -/
theorem processAll_waiting {p : OutputCaptureProcessor} (h : AllWaiting p)
    {text : Str} (htail : p.pendingMarkerTail = possibleMarkerTail p.ids text)
    (chunks : List Str) (hfree : MarkerFree p.ids (text ++ chunks.flatten)) :
    (p.processAll chunks).1.flatten = [] ∧ (p.processAll chunks).2 = { p with
        pendingMarkerTail :=
          possibleMarkerTail p.ids (text ++ chunks.flatten) } := by
  induction chunks generalizing p text with
  | nil =>
    refine ⟨rfl, ?_⟩
    simp only [processAll, flatten_nil, append_nil, ← htail]
  | cons chunk rest ih =>
    rw [flatten_cons, ← append_assoc] at hfree
    have hchunk : MarkerFree p.ids (text ++ chunk) :=
      hfree.of_isInfix (prefix_append _ _).isInfix
    have hstep := process_waiting h htail hchunk
    have hnext : AllWaiting { p with
        pendingMarkerTail := possibleMarkerTail p.ids (text ++ chunk) } :=
      ⟨h.active, h.phase⟩
    obtain ⟨houtput, hstate⟩ := ih hnext rfl hfree
    simp only [processAll, hstep, flatten_cons, nil_append]
    refine ⟨houtput, hstate.trans ?_⟩
    rw [append_assoc]
    rfl

/-- The text read so far, of which `start` characters stand in front of the
output, does not end inside the end marker where the processor cannot tell
that one has begun: in its fixed part or between its last two underscores,
nor anywhere in it when the output ends like a fixed part. -/
def EndsWell (start : Nat) (output marker read : Str) : Prop :=
  start + output.length < read.length →
    read.length < start + (output ++ marker).length →
    start + output.length + markerPrefix.length ≤ read.length ∧
      read.length + 1 ≠ start + (output ++ marker).length ∧
      ¬ markerPrefix.dropLast <:+ output

namespace Registration

open List

variable (r : Registration)

theorem process_capturing (buffer kept chunk : Str) :
    (r.capturing buffer kept).process chunk =
      processLoop (r.capturing buffer []) (kept ++ chunk) [] := by
  have hactive : ¬ (r.capturing buffer kept).active.isEmpty = true := by
    simp [capturing, processor]
  rw [process, if_neg hactive]
  rfl

variable {r} {output code following : Str}

/-- A beginning of the end marker without its last two characters is a
possible beginning of a marker. -/
theorem possible_of_isPrefix {next : Str} (hcode : IsCode code)
    (hnext : next <+: endMarkerPrefix r.id ++ code) : Possible r.ids next := by
  rcases prefix_or_prefix_of_prefix hnext
    (prefix_append _ code) with hshort | ⟨digits, rfl⟩
  · exact .ofEndPrefix r.id_mem hshort
  · have hdigits := (prefix_append_right_inj _).mp hnext
    exact .ofCode r.id_mem fun ch hch => hcode ch (hdigits.subset hch)

/-- The part of the end marker read so far is kept, or nothing of it has been
read. -/
theorem begins_of_endsWell {next : Str} (hcode : IsCode code)
    (hnext : next <+: (endMarker r.id code).dropLast)
    (hends : EndsWell 0 output (endMarker r.id code) (output ++ next)) :
    r.Begins output next := by
  by_cases hnil : next = []
  · exact .inl hnil
  have hpos := length_pos_iff.mpr hnil
  have hle := hnext.length_le
  have hmarker : (endMarker r.id code).length =
      (endMarkerPrefix r.id ++ code).length + 2 := by
    rw [endMarker, length_append]
    rfl
  rw [length_dropLast] at hle
  obtain ⟨hlong, hlast, hoverlap⟩ := hends (by rw [length_append]; omega)
    (by simp only [length_append] at hmarker ⊢; omega)
  have hwhole : next <+: endMarker r.id code :=
    hnext.trans (List.dropLast_prefix _)
  refine .inr ⟨?_, ?_, hoverlap⟩
  · have hfront : markerPrefix <+: endMarker r.id code := by
      have hend := endPrefix_isPrefix r.id code []
      rw [append_nil] at hend
      exact IsPrefix.trans (by decide) hend
    refine prefix_of_prefix_length_le hfront hwhole ?_
    rw [length_append] at hlong
    omega
  · apply possible_of_isPrefix hcode
    refine prefix_of_prefix_length_le hwhole (prefix_append _ _) ?_
    simp only [length_append] at hlast hmarker ⊢
    omega

theorem free_of_separated {next : Str} (hcode : IsCode code) (hne : code ≠ [])
    (h : r.Separated output (endMarker r.id code ++ following))
    (hnext : next <+: (endMarker r.id code).dropLast) :
    MarkerFree r.ids (output ++ next) := by
  constructor
  · intro id hid hoccurs
    refine h.start id hid (hoccurs.trans (IsPrefix.isInfix ?_))
    refine (prefix_append_right_inj output).mpr ?_
    exact (hnext.trans (List.dropLast_prefix _)).trans (prefix_append _ following)
  · intro id hid found hfound
    have hheaded := (headed_endMarker_dropLast r.plain hcode.not_mem
      hne).of_isPrefix hnext
    refine not_endMarker_of_headed (r.plainIds id hid) hfound (h.stop id hid)
      hheaded ?_
    by_cases hshort : next.length ≤ 1
    · exact .inl hshort
    · have hpair : endSuffix <+: endMarker r.id code := by
        have hend := endPrefix_isPrefix r.id code []
        rw [append_nil] at hend
        exact IsPrefix.trans (by decide) hend
      refine .inr (prefix_of_prefix_length_le hpair
        (hnext.trans (List.dropLast_prefix _)) ?_)
      exact Nat.lt_of_not_le hshort

/-- One chunk of the output, possibly with the front of the end marker. -/
theorem process_open {buffer kept chunk : Str} (hcode : IsCode code)
    (hne : code ≠ []) (hroom : len output ≤ maxCaptureBytes)
    (h : r.Separated output (endMarker r.id code ++ following))
    (hbuffer : buffer <+: output)
    (hread : buffer ++ kept ++ chunk <+:
      output ++ (endMarker r.id code).dropLast)
    (hends : EndsWell 0 output (endMarker r.id code)
      (buffer ++ kept ++ chunk)) :
    ∃ taken left, (r.capturing buffer kept).process chunk =
        ([], r.capturing taken left) ∧
      taken ++ left = buffer ++ kept ++ chunk ∧ taken <+: output := by
  rw [r.process_capturing]
  by_cases hinside : (buffer ++ kept ++ chunk).length ≤ output.length
  · have hpart : buffer ++ kept ++ chunk <+: output :=
      prefix_of_prefix_length_le hread (prefix_append _ _) hinside
    have hfree : MarkerFree r.ids (buffer ++ kept ++ chunk ++ []) := by
      have hall := free_of_separated hcode hne h nil_prefix
      rw [append_nil] at hall ⊢
      exact hall.of_isInfix hpart.isInfix
    obtain ⟨taken, left, hloop, hsame, htaken⟩ := r.processLoop_open []
      ((len_le_of_isPrefix hpart).trans hroom) hfree (.inl rfl)
      (show buffer ++ (kept ++ chunk) = buffer ++ kept ++ chunk ++ [] by simp)
      ⟨kept ++ chunk, by simp⟩
    rw [append_nil] at hsame
    exact ⟨taken, left, hloop, hsame, htaken.trans hpart⟩
  · obtain ⟨next, hnext⟩ : output <+: buffer ++ kept ++ chunk :=
      prefix_of_prefix_length_le (prefix_append _ _) hread
        (Nat.le_of_not_le hinside)
    rw [← hnext] at hread hends
    have hpart := (prefix_append_right_inj output).mp hread
    obtain ⟨taken, left, hloop, hsame, htaken⟩ := r.processLoop_open []
      hroom (free_of_separated hcode hne h hpart)
      (begins_of_endsWell hcode hpart hends)
      (show buffer ++ (kept ++ chunk) = output ++ next by
        rw [hnext, append_assoc]) hbuffer
    exact ⟨taken, left, hloop, hsame.trans hnext, htaken⟩

theorem processAll_open (hcode : IsCode code) (hne : code ≠ [])
    (hroom : len output ≤ maxCaptureBytes)
    (h : r.Separated output (endMarker r.id code ++ following))
    {buffer kept : Str} (hbuffer : buffer <+: output) (chunks : List Str)
    (hread : buffer ++ kept ++ chunks.flatten <+:
      output ++ (endMarker r.id code).dropLast)
    (hends : ∀ front, front <+: chunks →
      EndsWell 0 output (endMarker r.id code)
        (buffer ++ kept ++ front.flatten)) :
    ∃ taken left, ((r.capturing buffer kept).processAll chunks).1.flatten =
        [] ∧
      ((r.capturing buffer kept).processAll chunks).2 =
        r.capturing taken left ∧
      taken ++ left = buffer ++ kept ++ chunks.flatten ∧
      taken <+: output := by
  induction chunks generalizing buffer kept with
  | nil => exact ⟨buffer, kept, rfl, rfl, by simp, hbuffer⟩
  | cons chunk rest ih =>
    rw [flatten_cons, ← append_assoc] at hread
    have hfirst := hends [chunk] ⟨rest, rfl⟩
    rw [flatten_singleton] at hfirst
    obtain ⟨taken, left, hstep, hsame, htaken⟩ := process_open hcode hne
      hroom h hbuffer ((prefix_append _ _).trans hread) hfirst
    rw [← hsame] at hread
    obtain ⟨last, kept', hnone, hstate, htotal, hlast⟩ := ih htaken hread (by
      intro front hfront
      have hlonger := hends (chunk :: front)
        (cons_prefix_cons.mpr ⟨rfl, hfront⟩)
      rw [flatten_cons, ← append_assoc, ← hsame] at hlonger
      exact hlonger)
    refine ⟨last, kept', ?_, ?_, ?_, hlast⟩
    · simp only [processAll, hstep, flatten_cons, nil_append]
      exact hnone
    · simp only [processAll, hstep]
      exact hstate
    · rw [htotal, hsame, flatten_cons]
      simp only [append_assoc]

/-- The processor once the capture is gone. -/
def released (r : Registration) : OutputCaptureProcessor where
  active := r.earlier ++ r.later
  sent := r.sent

theorem processor_released (capture : ActiveCapture) :
    ((r.processor capture []).remove r.id).clearTailIfIdle = r.released := by
  have hremove : (r.processor capture []).remove r.id = r.released :=
    congrArg (fun active : List (Str × ActiveCapture) =>
        (⟨active, [], r.sent⟩ : OutputCaptureProcessor))
      (r.processor_remove capture [])
  rw [hremove, clearTailIfIdle]
  split
  · rfl
  · rfl

/-- The first chunk with text after the end marker is taken for the prompt. -/
theorem process_postCapture {capture : ActiveCapture}
    (hphase : capture.phase = .postCapture) {chunk : Str} (hne : chunk ≠ [])
    (hfree : MarkerFree r.ids chunk) :
    (r.processor capture []).process chunk = ([], r.released) := by
  have hactive : ¬ (r.processor capture []).active.isEmpty = true := by
    simp [processor]
  have hstart : (r.processor capture []).tryMatchStart chunk = none := by
    apply tryMatchStart_eq_none
    rw [processor_ids]
    exact hfree.start
  have hend : (r.processor capture []).tryMatchEnd chunk = none := by
    apply tryMatchEnd_eq_none
    rw [processor_ids]
    exact hfree.stop
  have hcapturing := r.processor_anyInPhase capture []
    (show CapturePhase.capturing ≠ .waitingForStart by decide)
  have hpost := r.processor_anyInPhase capture []
    (show CapturePhase.postCapture ≠ .waitingForStart by decide)
  rw [hphase] at hcapturing hpost
  rw [process, if_neg hactive]
  change processLoop (r.processor capture []) chunk [] = _
  rw [processLoop, if_neg hne]
  split
  · next hmatch => rw [hstart] at hmatch; cases hmatch
  · simp only [hend, hcapturing, hpost, reduceCtorEq, ↓reduceIte,
      r.processor_released]

/-- After the capture: its output is sent once, and the terminal gets the text
behind the prompt unless other captures wait. -/
theorem processAll_released (chunks : List Str)
    (hfree : MarkerFree r.ids chunks.flatten) :
    (r.released.processAll chunks).1.flatten =
        (if r.earlier ++ r.later = [] then chunks.flatten else []) ∧
      (r.released.processAll chunks).2.sent = r.sent := by
  by_cases hnone : r.earlier ++ r.later = []
  · rw [if_pos hnone, processAll_idle hnone]
    exact ⟨rfl, rfl⟩
  · have hwaiting : AllWaiting r.released := ⟨hnone, r.waiting⟩
    have hids : ∀ id ∈ r.released.ids, id ∈ r.ids := by
      intro id hid
      simp only [released, OutputCaptureProcessor.ids, map_append,
        mem_append] at hid
      simp only [ids, mem_append, mem_cons]
      exact hid.imp_right .inr
    have hpart : MarkerFree r.released.ids ([] ++ chunks.flatten) :=
      ⟨fun id hid => hfree.start id (hids id hid),
        fun id hid => hfree.stop id (hids id hid)⟩
    obtain ⟨houtput, hstate⟩ := processAll_waiting hwaiting rfl chunks hpart
    rw [if_neg hnone, houtput, hstate]
    exact ⟨rfl, rfl⟩

theorem processAll_postCapture {capture : ActiveCapture}
    (hphase : capture.phase = .postCapture) (chunks : List Str)
    (hfree : MarkerFree r.ids chunks.flatten) :
    ((r.processor capture []).processAll chunks).1.flatten =
        (if r.earlier ++ r.later = [] then (afterPrompt chunks).flatten
        else []) ∧
      ((r.processor capture []).processAll chunks).2.sent = r.sent := by
  induction chunks with
  | nil => simp [processAll, afterPrompt, processor]
  | cons chunk rest ih =>
    rw [flatten_cons] at hfree
    have hrest : MarkerFree r.ids rest.flatten :=
      hfree.of_isInfix infix_append_right
    by_cases hnil : chunk = []
    · subst hnil
      have hstep : (r.processor capture []).process [] =
          ([], r.processor capture []) := by
        rw [process, if_neg (by simp [processor]), append_nil]
        change processLoop (r.processor capture []) [] [] = _
        rw [processLoop, if_pos rfl]
      simp only [processAll, hstep, flatten_cons, nil_append,
        afterPrompt, ↓reduceIte]
      exact ih hrest
    · have hchunk : MarkerFree r.ids chunk :=
        hfree.of_isInfix (prefix_append _ _).isInfix
      have hstep := process_postCapture hphase hnil hchunk
      simp only [processAll, hstep, flatten_cons, nil_append,
        afterPrompt, hnil, ↓reduceIte]
      exact processAll_released rest hrest

/-- The output and its end marker, read in chunks by a capture that has seen
its start marker. -/
theorem processAll_output (hcode : IsCode code) (hne : code ≠ [])
    (hroom : len output ≤ maxCaptureBytes)
    (h : r.Separated output (endMarker r.id code ++ following))
    (hafter : ∀ id ∈ r.ids, ¬ endMarkerPrefix id <:+: following)
    (chunks : List Str)
    (hstream : chunks.flatten = output ++ endMarker r.id code ++ following)
    (hends : ∀ front, front <+: chunks →
      EndsWell 0 output (endMarker r.id code) front.flatten) :
    ∃ front chunk back, chunks = front ++ chunk :: back ∧
      front.flatten.length < (output ++ endMarker r.id code).length ∧
      (output ++ endMarker r.id code).length ≤
        (front.flatten ++ chunk).length ∧
      ((r.capturing [] []).processAll chunks).1.flatten =
        (if r.earlier ++ r.later = [] then (afterPrompt back).flatten
        else []) ∧
      ((r.capturing [] []).processAll chunks).2.sent = r.sent ++ [(r.id, {
          output := trim output
          exitCode := parseI32 code
          sourceTruncated := false })] := by
  have hpos : 0 < (output ++ endMarker r.id code).length := by
    simp [endMarker, endMarkerPrefix]
  have hreach : (output ++ endMarker r.id code).length ≤
      chunks.flatten.length := by
    rw [hstream]
    exact (prefix_append _ _).length_le
  obtain ⟨front, chunk, back, rfl, hlt, hle⟩ := exists_chunk hpos hreach
  refine ⟨front, chunk, back, rfl, hlt, hle, ?_⟩
  simp only [flatten_append, flatten_cons] at hstream
  have hwhole : front.flatten ++ chunk ++ back.flatten =
      output ++ endMarker r.id code ++ following := by
    rw [← hstream, append_assoc]
  obtain ⟨rest, hrest⟩ :
      output ++ endMarker r.id code <+: front.flatten ++ chunk :=
    prefix_of_prefix_length_le (prefix_append _ following)
      (hwhole ▸ prefix_append _ _) hle
  have hfollowing : rest ++ back.flatten = following := by
    rw [← hrest, append_assoc] at hwhole
    exact append_cancel_left hwhole
  -- the chunks before the one that completes the end marker
  have hfront : front.flatten <+:
      output ++ (endMarker r.id code).dropLast := by
    have hmarker : endMarker r.id code ≠ [] := by
      simp [endMarker, endMarkerPrefix]
    rw [← dropLast_append_of_ne_nil hmarker]
    refine prefix_of_prefix_length_le
      ((prefix_append _ chunk).trans (hrest ▸ prefix_refl _))
      ((List.dropLast_prefix _).trans (prefix_append _ rest)) ?_
    rw [length_dropLast]
    omega
  have hstart : ([] : Str) ++ [] ++ front.flatten <+: _ := hfront
  obtain ⟨taken, kept, hnone, hstate, hsame, htaken⟩ := processAll_open hcode
    hne hroom h nil_prefix front hstart fun part hpart =>
      hends part (hpart.trans (prefix_append _ _))
  obtain ⟨left, hleft⟩ := htaken
  have hbuffer : kept ++ chunk = left ++ endMarker r.id code ++ rest := by
    simp only [nil_append] at hsame
    rw [← hsame, ← hleft] at hrest
    simpa only [append_assoc, append_cancel_left_eq] using hrest.symm
  have hpart : r.Separated output (endMarker r.id code ++ rest) := by
    refine ⟨fun id hid hoccurs => h.start id hid (hoccurs.trans ?_), h.stop⟩
    rw [← hfollowing, ← append_assoc, ← append_assoc, ← append_assoc]
    exact (prefix_append _ back.flatten).isInfix
  have hstep : (r.capturing taken kept).process chunk =
      ([], r.completed output code) := by
    rw [r.process_capturing, hbuffer]
    exact r.processLoop_completes [] hcode.not_mem hne hroom hpart hleft
  have hback : MarkerFree r.ids back.flatten := by
    have hinside : back.flatten <:+: following :=
      hfollowing ▸ infix_append_right
    constructor
    · intro id hid hoccurs
      refine h.start id hid ((hoccurs.trans hinside).trans ?_)
      exact infix_append_right.trans infix_append_right
    · intro id hid found _ hoccurs
      refine hafter id hid (List.IsInfix.trans ?_ (hoccurs.trans hinside))
      rw [endMarker, append_assoc]
      exact (prefix_append _ _).isInfix
  obtain ⟨houtput, hsent⟩ := @processAll_postCapture
    { r with sent := r.sent ++ [(r.id, {
      output := trim output
      exitCode := parseI32 code
      sourceTruncated := false })] }
    { resultTx := false, phase := .postCapture } rfl back hback
  obtain ⟨hall, hlast⟩ := processAll_append (r.capturing [] []) front
    (chunk :: back)
  rw [hall, hlast, flatten_append, hnone, hstate]
  simp only [processAll, hstep, flatten_cons, nil_append]
  exact ⟨houtput, hsent⟩

end Registration

end NiceTerm.Capture
