/-
The stream of one captured command in any chunks, from the registration of the
capture to the terminal getting its text again.
-/
import NiceTerm.Capture.Completion

namespace NiceTerm.Capture

open List OutputCaptureProcessor RustStr

/-- The exit code as the shell prints it. -/
theorem isCode_decimalI32 (value : Int) : IsCode (decimalI32 value) := by
  intro ch hch
  rw [Bool.or_eq_true]
  unfold decimalI32 at hch
  split_ifs at hch
  · rcases mem_cons.mp hch with rfl | hdigit
    · exact .inr rfl
    · exact .inl (isAsciiDigit_of_mem_decimal _ ch hdigit)
  · exact .inl (isAsciiDigit_of_mem_decimal _ ch hch)

theorem decimalI32_ne_nil (value : Int) : decimalI32 value ≠ [] := by
  unfold decimalI32
  split_ifs
  · exact cons_ne_nil _ _
  · exact decimal_ne_nil _

/-- What is stripped behind a start marker is white space. -/
theorem stripLineBreak_split (text : Str) : ∃ space,
    text = space ++ stripLineBreak text ∧
      (∀ c ∈ space, isWhitespace c = true) ∧ '_' ∉ space := by
  unfold stripLineBreak
  split
  · next after hdrop =>
      have htext : text = ['\r', '\n'] ++ after :=
        Search.dropPrefix?_eq_some.mp hdrop
      exact ⟨['\r', '\n'], htext, by simp [isWhitespace], by simp⟩
  · cases hdrop : text.dropPrefix? "\n".toList with
    | none => exact ⟨[], rfl, by simp, by simp⟩
    | some after =>
      have htext : text = ['\n'] ++ after :=
        Search.dropPrefix?_eq_some.mp hdrop
      exact ⟨['\n'], htext, by simp [isWhitespace], by simp⟩

/-- The line break lies in the output, not in the end marker. -/
theorem isPrefix_output {space output rest : Str} (hspace : '_' ∉ space)
    (h : space <+: output ++ '_' :: rest) : space <+: output := by
  rcases prefix_or_prefix_of_prefix h (prefix_append _ _) with
    hinside | ⟨part, rfl⟩
  · exact hinside
  · have hpart := (prefix_append_right_inj output).mp h
    cases part with
    | nil => simp
    | cons c cs =>
      obtain ⟨rfl, -⟩ := cons_prefix_cons.mp hpart
      exact absurd (by simp) hspace

/-- The stream of a registered capture.  Markers of registered captures stand
in it only where the command's own stand; what else is required of the chunks
is that a start marker of another kind in front has been left behind, and that
no chunk ends inside the end marker where it is not recognised. -/
structure MarkedStream (r : Registration) (before output : Str)
    (exitCode : Int) (after : Str) (chunks : List Str) : Prop where
  stream : chunks.flatten = before ++ startMarker r.id ++
    (output ++ endMarker r.id (decimalI32 exitCode) ++ after)
  low : i32Min ≤ exitCode
  high : exitCode ≤ i32Max
  room : len output ≤ maxCaptureBytes
  startBefore : ∀ id ∈ r.ids,
    ¬ startMarker id <:+: before ++ (startMarker r.id).dropLast
  startAfter : ∀ id ∈ r.ids, ¬ startMarker id <:+:
    output ++ endMarker r.id (decimalI32 exitCode) ++ after
  endBefore : ∀ id ∈ r.ids, ¬ endMarkerPrefix id <:+: before
  endInside : ∀ id ∈ r.ids, ¬ endMarkerPrefix id <:+: output
  endAfter : ∀ id ∈ r.ids, ¬ endMarkerPrefix id <:+: after
  cutOff : ∃ front, front <+: chunks ∧
    front.flatten.length < (before ++ startMarker r.id).length ∧
    CutOff r.ids before (startMarker r.id) front.flatten
  endsWell : ∀ front, front <+: chunks →
    EndsWell (before ++ startMarker r.id).length output
      (endMarker r.id (decimalI32 exitCode)) front.flatten

variable {r : Registration} {before output after : Str} {exitCode : Int}
  {chunks : List Str}

theorem CutOff.of_isPrefix {ids : List Str} {marker text longer : Str}
    (h : CutOff ids before marker text) (htext : text <+: longer) :
    CutOff ids before marker longer := by
  intro position hposition hstart id hid hprefix
  exact h position hposition hstart id hid
    ((htext.drop position).trans hprefix)

theorem startMarker_dropLast (id : Str) :
    (startMarker id).dropLast = startPrefix ++ (id ++ ['_']) := by
  have hsuffix : endSuffix = ['_'] ++ ['_'] := rfl
  rw [startMarker, hsuffix, ← append_assoc, dropLast_concat, append_assoc]

/-- No marker is complete before the start marker is. -/
theorem free_before {text : Str}
    (hstart : ∀ id ∈ r.ids,
      ¬ startMarker id <:+: before ++ (startMarker r.id).dropLast)
    (hend : ∀ id ∈ r.ids, ¬ endMarkerPrefix id <:+: before)
    (htext : text <+: before ++ (startMarker r.id).dropLast) :
    MarkerFree r.ids text := by
  refine MarkerFree.of_isInfix ⟨hstart, ?_⟩ htext.isInfix
  intro id hid code hcode
  refine not_endMarker_of_headed (r.plainIds id hid) hcode (hend id hid) ?_
    (.inr ?_)
  · rw [startMarker_dropLast, ← append_assoc]
    exact headed_startMarker r.plain
  · rw [startMarker_dropLast]
    exact IsPrefix.trans (by decide) (prefix_append _ _)

theorem startMarker_ne_nil (id : Str) : startMarker id ≠ [] := by
  simp [startMarker, endSuffix]

/-- The chunk that completes the start marker. -/
structure StartChunk (r : Registration) (before : Str) (following : Str)
    (front : List Str) (chunk : Str) (back : List Str) (rest : Str) : Prop where
  inFront : front.flatten <+: before ++ (startMarker r.id).dropLast
  reaches : front.flatten ++ chunk = before ++ startMarker r.id ++ rest
  continues : rest ++ back.flatten = following

theorem exists_startChunk {following : Str}
    (hstream : chunks.flatten = before ++ startMarker r.id ++ following) :
    ∃ front chunk back rest, chunks = front ++ chunk :: back ∧
      StartChunk r before following front chunk back rest := by
  have hpos : 0 < (before ++ startMarker r.id).length := by
    rw [length_append]
    have hmarker := length_pos_iff.mpr (startMarker_ne_nil r.id)
    omega
  have hreach : (before ++ startMarker r.id).length ≤
      chunks.flatten.length := by
    rw [hstream]
    exact (prefix_append _ _).length_le
  obtain ⟨front, chunk, back, rfl, hlt, hle⟩ := exists_chunk hpos hreach
  simp only [flatten_append, flatten_cons] at hstream
  rw [← append_assoc front.flatten] at hstream
  obtain ⟨rest, hrest⟩ :
      before ++ startMarker r.id <+: front.flatten ++ chunk :=
    prefix_of_prefix_length_le (prefix_append _ _)
      (hstream ▸ prefix_append _ _) hle
  refine ⟨front, chunk, back, rest, rfl, ⟨?_, hrest.symm, ?_⟩⟩
  · rw [← dropLast_append_of_ne_nil (startMarker_ne_nil r.id)]
    refine prefix_of_prefix_length_le
      ((prefix_append _ chunk).trans (hrest ▸ prefix_refl _))
      ((List.dropLast_prefix _).trans (prefix_append _ rest)) ?_
    rw [length_dropLast]
    omega
  · rw [← hrest, append_assoc] at hstream
    exact append_cancel_left hstream

variable {front back : List Str}

theorem StartChunk.length_lt {following chunk rest : Str}
    (h : StartChunk r before following front chunk back rest) :
    front.flatten.length < (before ++ startMarker r.id).length := by
  have hle := h.inFront.length_le
  have hmarker := length_pos_iff.mpr (startMarker_ne_nil r.id)
  simp only [length_append, length_dropLast] at hle ⊢
  omega

theorem MarkedStream.exists_startChunk
    (h : MarkedStream r before output exitCode after chunks) :
    ∃ front chunk back rest, chunks = front ++ chunk :: back ∧
      StartChunk r before
        (output ++ endMarker r.id (decimalI32 exitCode) ++ after)
        front chunk back rest ∧
      CutOff r.ids before (startMarker r.id) front.flatten := by
  obtain ⟨front, chunk, back, rest, rfl, hchunk⟩ :=
    Capture.exists_startChunk h.stream
  refine ⟨front, chunk, back, rest, rfl, hchunk, ?_⟩
  obtain ⟨early, hearly, hshort, hcut⟩ := h.cutOff
  apply hcut.of_isPrefix
  suffices hle : early <+: front by
    obtain ⟨more, rfl⟩ := hle
    rw [flatten_append]
    exact prefix_append _ _
  rcases prefix_or_prefix_of_prefix hearly
    (prefix_append front (chunk :: back)) with hinside | ⟨more, rfl⟩
  · exact hinside
  · cases more with
    | nil => rw [append_nil]
    | cons first more =>
      have hfirst := (prefix_append_right_inj front).mp hearly
      obtain ⟨rfl, -⟩ := cons_prefix_cons.mp hfirst
      have hle := congrArg List.length hchunk.reaches
      simp only [flatten_append, flatten_cons, length_append] at hshort hle
      omega

/-- Where the chunks of the output end, seen from behind the start marker and
its line break. -/
theorem MarkedStream.endsWell_behind {chunk : Str}
    {space rest inner : Str}
    (h : MarkedStream r before output exitCode after
      (front ++ chunk :: back))
    (hreaches : front.flatten ++ chunk =
      before ++ startMarker r.id ++ (space ++ rest))
    (hinner : output = space ++ inner) (part : List Str)
    (hpart : part <+: rest :: back) :
    EndsWell 0 inner (endMarker r.id (decimalI32 exitCode)) part.flatten := by
  intro hbegun hopen
  cases part with
  | nil =>
    rw [flatten_nil] at hbegun
    exact absurd hbegun (Nat.not_lt_zero _)
  | cons first parts =>
    obtain ⟨rfl, hparts⟩ := cons_prefix_cons.mp hpart
    have hprefix : front ++ chunk :: parts <+: front ++ chunk :: back :=
      (prefix_append_right_inj front).mpr (cons_prefix_cons.mpr ⟨rfl, hparts⟩)
    have hread : (front ++ chunk :: parts).flatten =
        before ++ startMarker r.id ++
          (space ++ (first :: parts).flatten) := by
      simp only [flatten_append, flatten_cons]
      rw [← append_assoc front.flatten, hreaches]
      simp only [append_assoc]
    have hlength := congrArg List.length hread
    have houtput := congrArg List.length hinner
    simp only [length_append] at hlength houtput hbegun hopen
    obtain ⟨hlong, hlast, hoverlap⟩ := h.endsWell _ hprefix
      (by simp only [length_append]; omega)
      (by simp only [length_append]; omega)
    simp only [length_append] at hlong hlast
    refine ⟨by omega, by simp only [length_append]; omega, ?_⟩
    exact fun hsuffix => hoverlap
      (hinner ▸ hsuffix.trans (suffix_append space inner))

theorem allWaiting_processor (r : Registration) (tail : Str) :
    AllWaiting (r.processor {} tail) := by
  constructor
  · simp [Registration.processor]
  · intro entry hentry
    simp only [Registration.processor, mem_append, mem_cons] at hentry
    rcases hentry with hearlier | rfl | hlater
    · exact r.waiting entry (mem_append_left _ hearlier)
    · rfl
    · exact r.waiting entry (mem_append_right _ hlater)

/-- From the registration to the output: the chunks up to the start marker
forward nothing, and what is left of the last of them is output. -/
theorem processAll_startChunk {chunk following rest : Str}
    (hchunk : StartChunk r before following front chunk back rest)
    (hfree : MarkerFree r.ids front.flatten)
    (hcut : CutOff r.ids before (startMarker r.id) front.flatten) :
    ((r.processor {} []).processAll (front ++ chunk :: back)).1.flatten =
        ((r.capturing [] []).processAll
          (stripLineBreak rest :: back)).1.flatten ∧
      ((r.processor {} []).processAll (front ++ chunk :: back)).2 =
        ((r.capturing [] []).processAll (stripLineBreak rest :: back)).2 := by
  have hids := r.processor_ids {} []
  have hwaiting := allWaiting_processor r
  obtain ⟨hnone, hstate⟩ := processAll_waiting (hwaiting []) rfl front
    (show MarkerFree _ ([] ++ front.flatten) by rw [hids]; exact hfree)
  have hlt := hchunk.length_lt
  have hstep : (r.processor {} (possibleMarkerTail r.ids
      front.flatten)).process chunk =
      (r.capturing [] []).process (stripLineBreak rest) := by
    have hplain : ∀ id ∈ (r.processor {} (possibleMarkerTail r.ids
        front.flatten)).ids, PlainId id := by
      rw [r.processor_ids]
      exact r.plainIds
    rw [process_startMarker (hwaiting _) hplain
      (by rw [r.processor_ids]; exact r.id_mem)
      (by rw [r.processor_ids]; rfl) hchunk.reaches hlt
      (by rw [r.processor_ids]; exact hcut), r.process_capturing]
    exact congrArg (fun p => processLoop p (stripLineBreak rest) [])
      (r.processor_modify {} [] _)
  rw [hids, nil_append] at hstate
  change _ = r.processor {} (possibleMarkerTail r.ids front.flatten) at hstate
  obtain ⟨hall, hlast⟩ := processAll_append (r.processor {} []) front
    (chunk :: back)
  rw [hall, hlast, flatten_append, hnone, hstate]
  simp only [processAll, hstep, nil_append]
  exact ⟨trivial, trivial⟩

/-- The stream of a captured command, split anywhere but inside its end
marker's fixed part and between that marker's last two underscores: the output
is sent once, trimmed and with its exit code; nothing up to the end of the
chunk that completes the end marker is forwarded, nor is the first text behind
it; every later chunk is forwarded as it is. -/
theorem capture_completes
    (h : MarkedStream r before output exitCode after chunks) :
    ∃ front chunk back, chunks = front ++ chunk :: back ∧
      front.flatten.length < (before ++ startMarker r.id ++
        (output ++ endMarker r.id (decimalI32 exitCode))).length ∧
      (before ++ startMarker r.id ++
        (output ++ endMarker r.id (decimalI32 exitCode))).length ≤
          (front.flatten ++ chunk).length ∧
      ((r.processor {} []).processAll chunks).1.flatten =
        (if r.earlier ++ r.later = [] then (afterPrompt back).flatten
        else []) ∧
      ((r.processor {} []).processAll chunks).2.sent = r.sent ++ [(r.id, {
          output := trim output
          exitCode := some exitCode
          sourceTruncated := false })] := by
  obtain ⟨front, chunk, back, rest, rfl, hchunk, hcut⟩ := h.exists_startChunk
  obtain ⟨space, hspace, hwhite, hplain⟩ := stripLineBreak_split rest
  have hcontinues := hchunk.continues
  obtain ⟨tail, htail⟩ : ∃ tail,
      endMarker r.id (decimalI32 exitCode) ++ after = '_' :: tail := ⟨_, rfl⟩
  obtain ⟨inner, hinner⟩ : space <+: output := by
    apply isPrefix_output hplain
    rw [← htail, ← append_assoc, ← hcontinues, hspace, append_assoc]
    exact prefix_append _ _
  have hstream : (stripLineBreak rest :: back).flatten =
      inner ++ endMarker r.id (decimalI32 exitCode) ++ after := by
    rw [hspace, ← hinner] at hcontinues
    simpa only [flatten_cons, append_assoc,
      append_cancel_left_eq] using hcontinues
  have hinside : inner <:+: output := hinner ▸ infix_append_right
  have hseparated : r.Separated inner
      (endMarker r.id (decimalI32 exitCode) ++ after) := by
    refine ⟨fun id hid hoccurs => h.startAfter id hid (hoccurs.trans ?_),
      fun id hid hoccurs => h.endInside id hid (hoccurs.trans hinside)⟩
    rw [← hinner, append_assoc, append_assoc]
    exact infix_append_right
  have hroom : len inner ≤ maxCaptureBytes := by
    have hwhole := h.room
    rw [← hinner, len_append] at hwhole
    omega
  have hreaches := hchunk.reaches
  rw [hspace] at hreaches
  obtain ⟨first, middle, last, hparts, hlt, hle, houtput, hsent⟩ :=
    Registration.processAll_output (isCode_decimalI32 exitCode)
      (decimalI32_ne_nil exitCode) hroom hseparated h.endAfter
      (stripLineBreak rest :: back) hstream
      (h.endsWell_behind hreaches hinner.symm)
  obtain ⟨hall, hlast⟩ := processAll_startChunk hchunk
    (free_before h.startBefore h.endBefore hchunk.inFront) hcut
  have htrim : trim output = trim inner := by
    rw [← hinner, trim_append_of_whitespace hwhite]
  rw [hall, hlast, htrim, ← parseI32_decimalI32 h.low h.high]
  have hlength := congrArg List.length hinner
  have hread := congrArg List.length hreaches
  have hfront := hchunk.inFront.length_le
  simp only [length_append, length_dropLast] at hlength hread hfront
  simp only [length_append] at hlt hle ⊢
  cases first with
  | nil =>
    obtain ⟨rfl, rfl⟩ := cons.inj hparts
    rw [flatten_nil, length_nil] at hle
    refine ⟨front, chunk, back, rfl, ?_, ?_, houtput, hsent⟩
    · omega
    · omega
  | cons part first =>
    obtain ⟨rfl, rfl⟩ := cons.inj hparts
    refine ⟨front ++ chunk :: first, middle, last, by simp, ?_, ?_, houtput,
      hsent⟩
    · simp only [flatten_append, flatten_cons, length_append] at hlt ⊢
      omega
    · simp only [flatten_append, flatten_cons, length_append] at hle ⊢
      omega

/-- One capture, alone in its processor. -/
def loneCapture : Registration where
  id := "m3".toList
  earlier := []
  later := []
  sent := []
  plain := ⟨by decide, by decide⟩
  othersPlain _ h := absurd h not_mem_nil
  distinct _ h := absurd h not_mem_nil
  waiting _ h := absurd h not_mem_nil

/-- A left-over start marker, both own markers split, then the prompt. -/
def splitStream : List Str :=
  ["__DF_CMD_START_m2__\n$ ".toList, "__DF_CMD_STA".toList,
    "RT_m3__\nhello\n__DF_CMD_EN".toList, "D_m3_9__\n$ ".toList,
    "ls".toList, "more".toList]

theorem splitStream_marked : MarkedStream loneCapture
    "__DF_CMD_START_m2__\n$ ".toList "\nhello\n".toList 9
    "\n$ lsmore".toList splitStream where
  stream := by decide +kernel
  low := by decide
  high := by decide
  room := by decide +kernel
  startBefore := by decide +kernel
  startAfter := by decide +kernel
  endBefore := by decide +kernel
  endInside := by decide +kernel
  endAfter := by decide +kernel
  cutOff := by
    refine ⟨splitStream.take 1, take_prefix 1 _, by decide +kernel, ?_⟩
    unfold CutOff
    decide +kernel
  endsWell := by
    have hall : ∀ front ∈ splitStream.inits,
        EndsWell ("__DF_CMD_START_m2__\n$ ".toList ++
          startMarker loneCapture.id).length "\nhello\n".toList
          (endMarker loneCapture.id (decimalI32 9)) front.flatten := by
      unfold EndsWell
      decide +kernel
    exact fun front hfront => hall front ((mem_inits _ _).mpr hfront)

theorem splitStream_captured :
    ((loneCapture.processor {} []).processAll splitStream).2.sent =
      [("m3".toList, {
        output := "hello".toList
        exitCode := some 9
        sourceTruncated := false })] := by
  obtain ⟨_, _, _, _, _, _, _, hsent⟩ := capture_completes splitStream_marked
  rw [hsent]
  decide +kernel

/-- What stands around the markers of one chunk is not forwarded. -/
theorem surrounding_text_suppressed :
    ((loneCapture.processor {} []).processAll
      ["a__DF_CMD_START_m3__b__DF_CMD_END_m3_0__c".toList]).1.flatten ≠
      "ac".toList := by
  decide +kernel

end NiceTerm.Capture
