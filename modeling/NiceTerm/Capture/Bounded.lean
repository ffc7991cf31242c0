/-
The output of a capture against its limit, for any chunks.  The output sent is
a true front of the command's output within the limit exactly if no text shows
behind a cut and the text in front of the end marker stays within the limit.
-/
import NiceTerm.Capture.Limit
import NiceTerm.Capture.Stream

namespace NiceTerm.Capture

open List Option OutputCaptureProcessor RustStr

namespace OutputCaptureProcessor

variable {p : OutputCaptureProcessor} {id text : Str}

def AppendKeepsAt (p : OutputCaptureProcessor) (id text : Str) : Prop :=
  ∀ capture, p.get id = some capture → AppendKeeps capture text

def EndKeepsAt (p : OutputCaptureProcessor) (id text : Str) : Prop :=
  ∀ capture, p.get id = some capture →
    ∀ parts, text.dropInfix? endPrefix = some parts →
      EndKeeps capture parts.1

/-- Every append of the loop, and its end marker, keep to the limit. -/
def LoopKeeps (id : Str) (p : OutputCaptureProcessor) (remaining : Str) :
    Prop :=
  if remaining = [] then True
  else
    match _hstart : p.tryMatchStart remaining with
    | some (after, next) => LoopKeeps id next after
    | none =>
      if (p.tryMatchEnd remaining).isSome then p.EndKeepsAt id remaining
      else
        match p.anyInPhase .capturing with
        | none => True
        | some captureId =>
          match _hfind : remaining.dropInfix? markerPrefix with
          | none => p.AppendKeepsAt captureId remaining
          | some (before, rest) =>
            p.AppendKeepsAt captureId before ∧
              let p := p.modify captureId (appendCaptureOutput before)
              if isPossibleMarkerPrefix p.ids (markerPrefix ++ rest) then
                True
              else if _hpos : before = [] then
                p.AppendKeepsAt captureId markerPrefix ∧ LoopKeeps id
                    (p.modify captureId (appendCaptureOutput markerPrefix))
                    rest
              else LoopKeeps id p (markerPrefix ++ rest)
termination_by remaining.length
decreasing_by
  · exact length_tryMatchStart_lt _hstart
  · exact Search.length_after_lt (by decide) _hfind
  · exact length_candidate_lt _hfind _hpos

/-- Every step of the run keeps to the limit, until the output is sent. -/
def RunKeeps (id : Str) : OutputCaptureProcessor → List Str → Prop
  | _, [] => True
  | p, chunk :: rest =>
    LoopKeeps id { p with pendingMarkerTail := [] }
        (p.pendingMarkerTail ++ chunk) ∧
      ((p.process chunk).2.sent = p.sent →
        RunKeeps id (p.process chunk).2 rest)

theorem loopKeeps_of_end {next : OutputCaptureProcessor} (hne : text ≠ [])
    (hstart : p.tryMatchStart text = none)
    (hend : p.tryMatchEnd text = some next) :
    LoopKeeps id p text ↔ p.EndKeepsAt id text := by
  rw [LoopKeeps, if_neg hne]
  split
  · next hmatch => rw [hstart] at hmatch; cases hmatch
  · rw [hend, isSome_some, if_pos rfl]

theorem loopKeeps_of_plain {captureId : Str} (hne : text ≠ [])
    (hstart : p.tryMatchStart text = none) (hend : p.tryMatchEnd text = none)
    (hphase : p.anyInPhase .capturing = some captureId)
    (hfind : text.dropInfix? markerPrefix = none) :
    LoopKeeps id p text ↔ p.AppendKeepsAt captureId text := by
  rw [LoopKeeps, if_neg hne]
  split
  · next hmatch => rw [hstart] at hmatch; cases hmatch
  · simp only [hend, hphase, isSome_none, Bool.false_eq_true, ↓reduceIte]
    split
    · rfl
    · next hsome => rw [hfind] at hsome; cases hsome

theorem loopKeeps_of_marker {captureId before rest : Str} (id : Str)
    (hne : text ≠ [])
    (hstart : p.tryMatchStart text = none) (hend : p.tryMatchEnd text = none)
    (hphase : p.anyInPhase .capturing = some captureId)
    (hfind : text.dropInfix? markerPrefix = some (before, rest)) :
    LoopKeeps id p text ↔ p.AppendKeepsAt captureId before ∧
      if isPossibleMarkerPrefix
          (p.modify captureId (appendCaptureOutput before)).ids
          (markerPrefix ++ rest) then True
      else if before = [] then
        (p.modify captureId (appendCaptureOutput before)).AppendKeepsAt
            captureId markerPrefix ∧
          LoopKeeps id
            ((p.modify captureId (appendCaptureOutput before)).modify captureId
              (appendCaptureOutput markerPrefix)) rest
      else LoopKeeps id (p.modify captureId (appendCaptureOutput before))
        (markerPrefix ++ rest) := by
  rw [LoopKeeps, if_neg hne]
  split
  · next hmatch => rw [hstart] at hmatch; cases hmatch
  · simp only [hend, hphase, isSome_none, Bool.false_eq_true, ↓reduceIte]
    split
    · next hnone => rw [hfind] at hnone; cases hnone
    · next front back hsome =>
        rw [hfind] at hsome
        obtain ⟨rfl, rfl⟩ := Prod.mk.inj (some.inj hsome)
        simp only [dite_eq_ite]

end OutputCaptureProcessor

namespace Registration

/-- The output and its end marker, the only end marker of the text; `following`
is what comes behind it. -/
structure Marked (r : Registration) (output code following : Str) : Prop where
  plainCode : '_' ∉ code
  codeNotEmpty : code ≠ []
  start : ∀ id ∈ r.ids,
    ¬ startMarker id <:+: output ++ (endMarker r.id code ++ following)
  inside : ∀ id ∈ r.ids, ¬ endMarkerPrefix id <:+: output
  behind : ∀ id ∈ r.ids,
    ¬ endMarkerPrefix id <:+: (endMarker r.id code).tail ++ following

variable {r : Registration} {output code following taken text : Str}
  {capture : ActiveCapture} {keeps : Prop}

theorem endSuffix_isPrefix (id code rest : Str) :
    endSuffix <+: endMarker id code ++ rest :=
  IsPrefix.trans (by decide) (endPrefix_isPrefix id code rest)

theorem not_three_underscores (id code rest : Str) :
    ¬ "___".toList <+: endMarker id code ++ rest := by
  intro hunder
  have hinside := prefix_of_prefix_length_le hunder
    (endPrefix_isPrefix id code rest) (by decide)
  exact absurd hinside (by decide)

/-- An end marker in the text stands right behind the output. -/
theorem Marked.position (h : r.Marked output code following) {id found : Str}
    (hid : id ∈ r.ids) (hfound : '_' ∉ found) {front back : Str}
    (htext : front ++ endMarker id found ++ back =
      output ++ (endMarker r.id code ++ following)) : front = output := by
  have hle := not_endMarker_before (r.plainIds id hid) hfound
    (h.inside id hid) (endSuffix_isPrefix r.id code following)
    (not_three_underscores r.id code following) htext
  rw [append_assoc] at htext
  obtain ⟨between, rfl⟩ : output <+: front :=
    prefix_of_prefix_length_le (prefix_append _ _)
      (htext ▸ prefix_append _ _) hle
  rw [append_assoc, append_cancel_left_eq] at htext
  cases between with
  | nil => exact append_nil output
  | cons c cs =>
    obtain ⟨d, ds, hmarker⟩ := exists_cons_of_ne_nil
      (show endMarker r.id code ≠ [] by simp [endMarker, endMarkerPrefix])
    rw [hmarker, cons_append, cons_append] at htext
    have hrest := (cons.inj htext).2
    refine absurd ?_ (h.behind id hid)
    rw [hmarker, tail_cons, ← hrest]
    have hprefix : endMarkerPrefix id <+: endMarker id found ++ back := by
      rw [endMarker, append_assoc, append_assoc]
      exact prefix_append _ _
    exact hprefix.isInfix.trans infix_append_right

/-- What the search for an end marker finds is the own one. -/
theorem Marked.matched (h : r.Marked output code following)
    {next : OutputCaptureProcessor}
    (hread : taken ++ text <+: output ++ (endMarker r.id code ++ following))
    (hmatch : (r.processor capture []).tryMatchEnd text = some next) :
    ∃ before rest, text = before ++ endMarker r.id code ++ rest ∧ taken ++
      before = output ∧ ¬ endPrefix <:+: before ++ endPrefix.dropLast := by
  obtain ⟨before, id, found, after, rfl, hid, hfound, hfirst⟩ :=
    endMarker_of_tryMatchEnd hmatch
  rw [r.processor_ids] at hid
  obtain ⟨back, hback⟩ := hread
  have htext : taken ++ before ++ endMarker id found ++ (after ++ back) =
      output ++ (endMarker r.id code ++ following) := by
    rw [← hback]
    simp only [append_assoc]
  have hfront := h.position hid hfound htext
  rw [← hfront, append_assoc, append_cancel_left_eq] at htext
  have hmarker : endMarker r.id code <+:
      endMarker id found ++ (after ++ back) :=
    htext ▸ prefix_append _ _
  have hshort : endMarker id found ++ after <+:
      endMarker id found ++ (after ++ back) := by
    rw [← append_assoc]
    exact prefix_append _ _
  by_cases hlength : (endMarker r.id code).length ≤
      (endMarker id found ++ after).length
  · obtain ⟨rest, hrest⟩ :=
      prefix_of_prefix_length_le hmarker hshort hlength
    refine ⟨before, rest, ?_, hfront, hfirst⟩
    rw [append_assoc, append_assoc, hrest]
  · exfalso
    have hinside : endMarker id found ++ after <+:
        (endMarker r.id code).dropLast := by
      refine prefix_of_prefix_length_le hshort
        ((List.dropLast_prefix _).trans hmarker) ?_
      rw [length_dropLast]
      omega
    have hoccurs : endMarker id found <:+: (endMarker r.id code).dropLast :=
      (prefix_append _ after).isInfix.trans hinside.isInfix
    exact not_within_of_headed (headed_endMarker_dropLast r.plain
      h.plainCode h.codeNotEmpty) hoccurs

/-- A capture between its markers, its result not sent. -/
structure Taking (capture : ActiveCapture) (read : Str) (keeps : Prop) :
    Prop where
  phase : capture.phase = .capturing
  resultTx : capture.resultTx = true
  reads : Reads capture read keeps

theorem Taking.append (h : Taking capture taken keeps) (text : Str) :
    Taking (appendCaptureOutput text capture) (taken ++ text)
      (keeps ∧ AppendKeeps capture text) := by
  refine ⟨?_, ?_, h.reads.append text⟩
  · rw [appendCaptureOutput_fitting]
    exact h.phase
  · rw [appendCaptureOutput_fitting]
    exact h.resultTx

/-- The processor once the capture is complete. -/
def finished (r : Registration) (capture : ActiveCapture)
    (before code : Str) : OutputCaptureProcessor :=
  { r.processor { capture with
      buffer := [], resultTx := false, phase := .postCapture } [] with
    sent := r.sent ++ [(r.id, endResult capture before (parseI32 code))] }

theorem processLoop_finishes (h : r.Marked output code following)
    (htaking : Taking capture taken keeps) {before rest : Str}
    (passthrough : Str)
    (hstart : (r.processor capture []).tryMatchStart
      (before ++ endMarker r.id code ++ rest) = none)
    (hfirst : ¬ endPrefix <:+: before ++ endPrefix.dropLast) :
    processLoop (r.processor capture [])
        (before ++ endMarker r.id code ++ rest) passthrough =
      (passthrough, r.finished capture before code) := by
  have hnil : before ++ endMarker r.id code ++ rest ≠ [] := by
    simp [endMarker, endMarkerPrefix]
  have hend : (r.processor capture []).tryMatchEnd
      (before ++ endMarker r.id code ++ rest) = _ :=
    tryMatchEnd_eq_some (r.processor_get capture []) r.plain h.plainCode
      h.codeNotEmpty hfirst
  rw [processLoop, if_neg hnil]
  split
  · next hmatch => rw [hstart] at hmatch; cases hmatch
  · rw [hend]
    simp only [processor_modify, htaking.resultTx, ↓reduceIte]
    rfl

theorem processor_endKeepsAt {before rest : Str}
    (hfirst : ¬ endPrefix <:+: before ++ endPrefix.dropLast) :
    (r.processor capture []).EndKeepsAt r.id
        (before ++ endMarker r.id code ++ rest) ↔
      EndKeeps capture before := by
  have hfind : (before ++ endMarker r.id code ++ rest).dropInfix? endPrefix =
      some (before, r.id ++ '_' :: code ++ endSuffix ++ rest) := by
    refine (Search.dropInfix?_eq_some (by decide)).mpr ⟨?_, hfirst⟩
    simp [endMarker, endMarkerPrefix]
  simp only [EndKeepsAt, r.processor_get, hfind, some.injEq, forall_eq']

theorem processor_appendKeepsAt :
    (r.processor capture []).AppendKeepsAt r.id text ↔
      AppendKeeps capture text := by
  simp only [AppendKeepsAt, r.processor_get, some.injEq, forall_eq']

/-- How the loop leaves the capture: it goes on reading, or it has sent its
result. -/
inductive Left (r : Registration) (output code read : Str) (keeps : Prop) :
    OutputCaptureProcessor → Prop
  | reading {capture : ActiveCapture} {taken kept : Str} {kept' : Prop}
      (taking : Taking capture taken kept') (text : taken ++ kept = read)
      (keeps_iff : kept' ↔ keeps) :
      Left r output code read keeps (r.processor capture kept)
  | sent {capture : ActiveCapture} {taken before : Str} {kept' : Prop}
      (taking : Taking capture taken kept') (text : taken ++ before = output)
      (complete : output ++ endMarker r.id code <+: read)
      (keeps_iff : kept' ∧ EndKeeps capture before ↔ keeps) :
      Left r output code read keeps (r.finished capture before code)

theorem Left.congr {read read' : Str} {keeps keeps' : Prop}
    {next : OutputCaptureProcessor} (h : r.Left output code read keeps next)
    (hread : read = read') (hkeeps : keeps ↔ keeps') :
    r.Left output code read' keeps' next := by
  rw [← hread, ← propext hkeeps]
  exact h

theorem processLoop_left (h : r.Marked output code following)
    (passthrough : Str) (htaking : Taking capture taken keeps)
    (hread : taken ++ text <+: output ++ (endMarker r.id code ++ following)) :
    ∃ next, processLoop (r.processor capture []) text passthrough =
        (passthrough, next) ∧
      r.Left output code (taken ++ text)
        (keeps ∧ LoopKeeps r.id (r.processor capture []) text) next := by
  induction hlength : text.length using Nat.strong_induction_on
    generalizing capture taken text keeps with
  | _ size ih =>
    by_cases hnil : text = []
    · refine ⟨r.processor capture [], ?_, .reading htaking ?_ ?_⟩
      · rw [processLoop, if_pos hnil]
      · rw [hnil]
      · rw [LoopKeeps, if_pos hnil, and_true]
    have hstart : (r.processor capture []).tryMatchStart text = none := by
      apply tryMatchStart_eq_none
      rw [r.processor_ids]
      intro id hid hoccurs
      refine h.start id hid (hoccurs.trans ?_)
      exact infix_append_right.trans hread.isInfix
    have hphase : (r.processor capture []).anyInPhase .capturing =
        some r.id := by
      rw [r.processor_anyInPhase capture [] (by decide), if_pos htaking.phase]
    cases hend : (r.processor capture []).tryMatchEnd text with
    | some next =>
      obtain ⟨before, rest, rfl, houtput, hfirst⟩ := h.matched hread hend
      refine ⟨_, processLoop_finishes h htaking passthrough hstart hfirst,
        .sent htaking houtput ⟨rest, ?_⟩ ?_⟩
      · rw [← houtput]
        simp only [append_assoc]
      · rw [loopKeeps_of_end hnil hstart hend, processor_endKeepsAt hfirst]
    | none =>
      cases hfind : text.dropInfix? markerPrefix with
      | none =>
        refine ⟨r.processor (appendCaptureOutput text capture) [], ?_,
          .reading (htaking.append text) (append_nil _) ?_⟩
        · rw [processLoop_of_plain hnil hstart hend hphase hfind,
            processor_modify]
        · rw [loopKeeps_of_plain hnil hstart hend hphase hfind,
            processor_appendKeepsAt]
      | some parts =>
        obtain ⟨before, rest⟩ := parts
        have htext : text = before ++ (markerPrefix ++ rest) := by
          rw [← append_assoc]
          exact ((Search.dropInfix?_eq_some (by decide)).mp hfind).1
        have hwhole : taken ++ before ++ (markerPrefix ++ rest) =
            taken ++ text := by
          rw [htext, append_assoc]
        have hbefore := htaking.append before
        have hkeeps := loopKeeps_of_marker r.id hnil hstart hend hphase hfind
        have hloop := processLoop_of_marker passthrough hnil hstart hend
          hphase hfind
        rw [processor_appendKeepsAt] at hkeeps
        simp only [processor_modify, processor_ids,
          processor_appendKeepsAt] at hkeeps hloop
        by_cases hpossible :
            isPossibleMarkerPrefix r.ids (markerPrefix ++ rest) = true
        · rw [if_pos hpossible] at hkeeps hloop
          refine ⟨_, hloop, .reading hbefore hwhole ?_⟩
          rw [hkeeps, and_true]
        · rw [if_neg hpossible] at hkeeps hloop
          by_cases hfront : before = []
          · rw [if_pos hfront] at hkeeps hloop
            have hpassed := hbefore.append markerPrefix
            have hrest : taken ++ before ++ markerPrefix ++ rest =
                taken ++ text := by
              rw [← hwhole, append_assoc (taken ++ before)]
            obtain ⟨next, hnext, hleft⟩ := ih rest.length
              (hlength ▸ Search.length_after_lt (by decide) hfind) hpassed
              (hrest ▸ hread) rfl
            refine ⟨next, hloop.trans hnext, hleft.congr hrest ?_⟩
            rw [hkeeps]
            simp only [and_assoc]
          · rw [if_neg hfront] at hkeeps hloop
            obtain ⟨next, hnext, hleft⟩ := ih (markerPrefix ++ rest).length
              (hlength ▸ length_candidate_lt hfind hfront) hbefore
              (hwhole ▸ hread) rfl
            refine ⟨next, hloop.trans hnext, hleft.congr hwhole ?_⟩
            rw [hkeeps, and_assoc]

theorem process_processor (capture : ActiveCapture) (kept chunk : Str) :
    (r.processor capture kept).process chunk =
      processLoop (r.processor capture []) (kept ++ chunk) [] := by
  have hactive : ¬ (r.processor capture kept).active.isEmpty = true := by
    simp [processor]
  rw [process, if_neg hactive]
  rfl

/-- What comes behind the end marker is free of markers. -/
theorem Marked.free_behind (h : r.Marked output code following)
    {read rest : Str}
    (hread : read ++ rest = output ++ (endMarker r.id code ++ following))
    (hcomplete : output ++ endMarker r.id code <+: read) :
    MarkerFree r.ids rest := by
  obtain ⟨more, rfl⟩ := hcomplete
  simp only [append_assoc, append_cancel_left_eq] at hread
  subst hread
  constructor
  · intro id hid hoccurs
    refine h.start id hid (hoccurs.trans ?_)
    rw [← append_assoc, ← append_assoc]
    exact infix_append_right
  · intro id hid found _ hoccurs
    refine h.behind id hid ?_
    have hstarts : endMarkerPrefix id <:+: endMarker id found := by
      rw [endMarker, append_assoc]
      exact (prefix_append _ _).isInfix
    refine (hstarts.trans hoccurs).trans ?_
    rw [← append_assoc]
    exact infix_append_right

/-- What the run has sent, with the capture as the end marker found it. -/
inductive Sends (r : Registration) (output code : Str) (keeps : Prop) :
    List (Str × CapturedOutput) → Prop
  | nothing : Sends r output code keeps r.sent
  | result {capture : ActiveCapture} {taken before : Str} {kept' : Prop}
      (taking : Taking capture taken kept') (text : taken ++ before = output)
      (keeps_iff : kept' ∧ EndKeeps capture before ↔ keeps) :
      Sends r output code keeps
        (r.sent ++ [(r.id, endResult capture before (parseI32 code))])

theorem Sends.congr {keeps keeps' : Prop} {sent : List (Str × CapturedOutput)}
    (h : r.Sends output code keeps sent) (hkeeps : keeps ↔ keeps') :
    r.Sends output code keeps' sent := by
  rw [← propext hkeeps]
  exact h

theorem processAll_sends (h : r.Marked output code following)
    (chunks : List Str) {kept : Str} (htaking : Taking capture taken keeps)
    (hread : taken ++ kept ++ chunks.flatten =
      output ++ (endMarker r.id code ++ following)) :
    r.Sends output code (keeps ∧ RunKeeps r.id (r.processor capture kept) chunks)
      ((r.processor capture kept).processAll chunks).2.sent := by
  induction chunks generalizing capture taken kept keeps with
  | nil => exact .nothing
  | cons chunk rest ih =>
    rw [flatten_cons, ← append_assoc, append_assoc taken] at hread
    obtain ⟨next, hloop, hleft⟩ := processLoop_left h [] htaking
      (hread ▸ prefix_append _ _)
    have hstep := (process_processor capture kept chunk).trans hloop
    simp only [processAll, RunKeeps, hstep]
    cases hleft with
    | reading htaking' htext hkeeps =>
      rw [← htext] at hread
      refine (ih htaking' hread).congr ?_
      rw [hkeeps, and_assoc]
      exact and_congr_right fun _ => and_congr_right fun _ =>
        ⟨fun h _ => h, fun h => h rfl⟩
    | @sent last taken' before kept' htaking' htext hcomplete hkeeps =>
      have hfree := h.free_behind hread hcomplete
      let after : Registration := { r with
        sent := r.sent ++ [(r.id, endResult last before (parseI32 code))] }
      have hpost : ((after.processor { last with
          buffer := [], resultTx := false, phase := .postCapture }
          []).processAll rest).2.sent = after.sent :=
        (after.processAll_postCapture rfl rest hfree).2
      change r.Sends output code _ ((after.processor _ []).processAll
        rest).2.sent
      rw [hpost]
      have hgrown : (r.finished last before code).sent ≠ r.sent := by
        rw [finished]
        exact fun h => cons_ne_nil _ _ (append_right_eq_self.mp h)
      refine .result htaking' htext (hkeeps.trans ?_)
      exact and_congr_right fun _ =>
        ⟨fun h => ⟨h, fun hsame => absurd hsame hgrown⟩, And.left⟩

end Registration

/-- While captures wait there is nothing to keep. -/
theorem loopKeeps_waiting {p : OutputCaptureProcessor} (h : AllWaiting p)
    {text : Str} (hfree : MarkerFree p.ids text) (id : Str) :
    LoopKeeps id p text := by
  rw [LoopKeeps]
  split
  · trivial
  · split
    · next hmatch =>
        rw [tryMatchStart_eq_none hfree.start] at hmatch
        cases hmatch
    · rw [tryMatchEnd_eq_none hfree.stop, isSome_none,
        if_neg Bool.false_ne_true, h.anyInPhase (by decide)]
      trivial

theorem runKeeps_waiting {p : OutputCaptureProcessor} (h : AllWaiting p)
    {text : Str} (htail : p.pendingMarkerTail = possibleMarkerTail p.ids text)
    (id : Str) (front back : List Str)
    (hfree : MarkerFree p.ids (text ++ front.flatten)) :
    RunKeeps id p (front ++ back) ↔ RunKeeps id { p with
        pendingMarkerTail :=
          possibleMarkerTail p.ids (text ++ front.flatten) } back := by
  induction front generalizing p text with
  | nil =>
    rw [flatten_nil, append_nil, ← htail]
    rfl
  | cons chunk rest ih =>
    rw [flatten_cons, ← append_assoc] at hfree ⊢
    have hchunk : MarkerFree p.ids (text ++ chunk) :=
      hfree.of_isInfix (prefix_append _ _).isInfix
    have hstep := process_waiting h htail hchunk
    have hnext : AllWaiting { p with
        pendingMarkerTail := possibleMarkerTail p.ids (text ++ chunk) } :=
      ⟨h.active, h.phase⟩
    have hidle : AllWaiting { p with pendingMarkerTail := [] } :=
      ⟨h.active, h.phase⟩
    have hkeeps : LoopKeeps id { p with pendingMarkerTail := [] }
        (p.pendingMarkerTail ++ chunk) := by
      apply loopKeeps_waiting hidle
      obtain ⟨dropped, hdropped⟩ := possibleMarkerTail_isSuffix p.ids text
      refine hchunk.of_isInfix ⟨dropped, [], ?_⟩
      rw [htail, append_nil, ← append_assoc, hdropped]
    rw [cons_append, RunKeeps, hstep]
    refine Iff.trans ?_ (ih hnext rfl hfree)
    exact ⟨fun h => h.2 rfl, fun h => ⟨hkeeps, fun _ => h⟩⟩

variable {r : Registration} {before output code after : Str}
  {chunks : List Str}

/-- From the registration to the output there is nothing to keep. -/
theorem runKeeps_startChunk {front back : List Str} {chunk following rest : Str}
    (hchunk : StartChunk r before following front chunk back rest)
    (hfree : MarkerFree r.ids front.flatten)
    (hcut : CutOff r.ids before (startMarker r.id) front.flatten) :
    RunKeeps r.id (r.processor {} []) (front ++ chunk :: back) ↔
      RunKeeps r.id (r.capturing [] []) (stripLineBreak rest :: back) := by
  have hids := r.processor_ids {} []
  have hfront := runKeeps_waiting (allWaiting_processor r []) rfl r.id front
    (chunk :: back) (show MarkerFree _ ([] ++ front.flatten) by
      rw [hids]
      exact hfree)
  rw [hids, nil_append] at hfront
  rw [hfront]
  let waiting := r.processor {} (possibleMarkerTail r.ids front.flatten)
  have hplain : ∀ id ∈ waiting.ids, PlainId id := by
    rw [r.processor_ids]
    exact r.plainIds
  have hmem : r.id ∈ waiting.ids := by
    rw [r.processor_ids]
    exact r.id_mem
  have htail : waiting.pendingMarkerTail =
      possibleMarkerTail waiting.ids front.flatten := by
    rw [r.processor_ids]
    rfl
  have hwaitingCut :
      CutOff waiting.ids before (startMarker r.id) front.flatten := by
    rw [r.processor_ids]
    exact hcut
  obtain ⟨hne, hmatch⟩ := tryMatchStart_startMarker hplain hmem htail
    hchunk.reaches hchunk.length_lt hwaitingCut
  have hstarted : modify { waiting with pendingMarkerTail := [] } r.id
      (fun capture => { capture with phase := .capturing }) =
      r.capturing [] [] := r.processor_modify {} [] _
  rw [hstarted] at hmatch
  have hstep : waiting.process chunk =
      (r.capturing [] []).process (stripLineBreak rest) := by
    rw [process_startMarker (allWaiting_processor r _) hplain hmem htail
      hchunk.reaches hchunk.length_lt hwaitingCut, hstarted,
      r.process_capturing, nil_append]
  have hloop : LoopKeeps r.id { waiting with pendingMarkerTail := [] }
      (waiting.pendingMarkerTail ++ chunk) ↔
      LoopKeeps r.id (r.capturing [] []) ([] ++ stripLineBreak rest) := by
    rw [LoopKeeps, if_neg hne]
    split
    · next last next hfound =>
        rw [hmatch] at hfound
        obtain ⟨rfl, rfl⟩ := Prod.mk.inj (some.inj hfound)
        rfl
    · next hnone =>
        rw [hmatch] at hnone
        cases hnone
  change RunKeeps r.id waiting (chunk :: back) ↔ _
  rw [RunKeeps, RunKeeps, hloop, hstep]
  rfl

/-- The stream of a registered capture, cut anywhere.  `output` is what follows
the line of the start marker; markers of registered captures stand only where
the command's own stand, and a start marker of another kind in front has been
left behind. -/
structure CommandStream (r : Registration) (before output code after : Str)
    (chunks : List Str) : Prop where
  stream : ∃ front chunk back rest, chunks = front ++ chunk :: back ∧
    StartChunk r before (rest ++ back.flatten) front chunk back rest ∧
    stripLineBreak rest ++ back.flatten =
      output ++ (endMarker r.id code ++ after) ∧
    CutOff r.ids before (startMarker r.id) front.flatten
  startBefore : ∀ id ∈ r.ids,
    ¬ startMarker id <:+: before ++ (startMarker r.id).dropLast
  endBefore : ∀ id ∈ r.ids, ¬ endMarkerPrefix id <:+: before
  marked : r.Marked output code after

theorem processAll_commandStream
    (h : CommandStream r before output code after chunks) :
    r.Sends output code (RunKeeps r.id (r.processor {} []) chunks)
      ((r.processor {} []).processAll chunks).2.sent := by
  obtain ⟨front, chunk, back, rest, rfl, hchunk, hstream, hcut⟩ := h.stream
  have hfree := free_before h.startBefore h.endBefore hchunk.inFront
  have hfirst : Registration.Taking { phase := .capturing } [] True :=
    ⟨rfl, rfl, .whole rfl rfl (Nat.zero_le _) trivial⟩
  rw [(processAll_startChunk hchunk hfree hcut).2]
  refine (Registration.processAll_sends h.marked (stripLineBreak rest :: back)
    hfirst hstream).congr ?_
  rw [true_and, runKeeps_startChunk hchunk hfree hcut]
  rfl

/-- What is delivered is a front of the output within the limit, and says
whether anything is missing, exactly if the run keeps to the limit. -/
theorem delivered_truePrefix_iff
    (h : CommandStream r before output code after chunks)
    {result : CapturedOutput} (hresult : (r.id, result) ∈
      ((r.processor {} []).processAll chunks).2.sent.drop r.sent.length) :
    TruePrefix output result ↔ RunKeeps r.id (r.processor {} []) chunks := by
  have hsends := processAll_commandStream h
  generalize ((r.processor {} []).processAll chunks).2.sent = sent at *
  cases hsends with
  | nothing =>
    rw [drop_length] at hresult
    exact absurd hresult not_mem_nil
  | result htaking htext hkeeps =>
    rw [drop_left, mem_singleton] at hresult
    rw [(Prod.mk.inj hresult).2, ← htext, ← hkeeps]
    exact htaking.reads.truePrefix_iff _

theorem splitStream_commandStream : CommandStream loneCapture
    "__DF_CMD_START_m2__\n$ ".toList "hello\n".toList "9".toList
    "\n$ lsmore".toList splitStream where
  stream := by
    refine ⟨splitStream.take 2, "RT_m3__\nhello\n__DF_CMD_EN".toList,
      splitStream.drop 3, "\nhello\n__DF_CMD_EN".toList, by decide +kernel,
      ⟨?_, ?_, rfl⟩, by decide +kernel, ?_⟩
    · decide +kernel
    · decide +kernel
    · unfold CutOff
      decide +kernel
  startBefore := by decide +kernel
  endBefore := by decide +kernel
  marked := {
    plainCode := by decide +kernel
    codeNotEmpty := by decide +kernel
    start := by decide +kernel
    inside := by decide +kernel
    behind := by decide +kernel }

theorem splitStream_keeps :
    RunKeeps loneCapture.id (loneCapture.processor {} []) splitStream := by
  have hresult : (loneCapture.id, {
      output := "hello".toList
      exitCode := some 9
      sourceTruncated := false }) ∈ ((loneCapture.processor {} []).processAll
        splitStream).2.sent.drop loneCapture.sent.length := by
    decide +kernel
  refine (delivered_truePrefix_iff splitStream_commandStream hresult).mp
    ⟨"hello\n".toList, prefix_rfl, ?_, ?_, ?_⟩
  · decide +kernel
  · decide +kernel
  · decide +kernel

/-- One byte more than the limit, in one chunk with its end marker. -/
def longOutput : Str := replicate (maxCaptureBytes + 1) 'a'

theorem len_longOutput : len longOutput = maxCaptureBytes + 1 := by
  rw [longOutput, len_replicate]
  exact Nat.mul_one _

theorem trim_longOutput : trim longOutput = longOutput := by
  have hdrop : longOutput.dropWhile isWhitespace = longOutput := by
    rw [longOutput, replicate_succ, dropWhile_cons_of_neg (by decide)]
  have hreverse : longOutput.reverse = longOutput := reverse_replicate ..
  rw [trim, hdrop, hreverse, hdrop, hreverse]

theorem mem_longOutput {c : Char} (h : c ∈ longOutput) : c = 'a' :=
  eq_of_mem_replicate h

/-- The text in front of the end marker is added to the buffer unchecked. -/
theorem longOutput_delivered :
    ((loneCapture.processor {} []).processAll ["__DF_CMD_START_m3__\n".toList,
          longOutput ++ endMarker loneCapture.id "0".toList]).2.sent =
        [(loneCapture.id, {
          output := longOutput
          exitCode := some 0
          sourceTruncated := false })] ∧
      ¬ TruePrefix longOutput {
        output := longOutput
        exitCode := some 0
        sourceTruncated := false } := by
  have hstart : (loneCapture.processor {} []).process
      "__DF_CMD_START_m3__\n".toList = ([], loneCapture.capturing [] []) := by
    decide +kernel
  have hnone : (loneCapture.capturing [] []).tryMatchStart
      (longOutput ++ endMarker loneCapture.id "0".toList ++ []) = none := by
    apply tryMatchStart_eq_none
    intro id hid hoccurs
    have hmem : 'T' ∈ startMarker id := by
      simp [startMarker, startPrefix]
    have htext := hoccurs.subset hmem
    simp only [append_nil, mem_append] at htext
    rcases htext with hlong | hmarker
    · exact absurd (mem_longOutput hlong) (by decide)
    · exact absurd hmarker (by decide)
  have hfirst : ¬ endPrefix <:+: longOutput ++ endPrefix.dropLast := by
    intro hoccurs
    have hcount := hoccurs.sublist.count_le '_'
    have hlong : longOutput.count '_' = 0 :=
      count_eq_zero.mpr fun hmem =>
        absurd (mem_longOutput hmem) (by decide)
    rw [count_append, hlong, Nat.zero_add] at hcount
    exact absurd hcount (by decide)
  have hend : processLoop (loneCapture.capturing [] [])
      (longOutput ++ endMarker loneCapture.id "0".toList ++ []) [] =
      ([], loneCapture.completed ([] ++ longOutput) "0".toList) :=
    loneCapture.processLoop_endMarker [] (by decide) (by decide) hnone hfirst
  rw [append_nil] at hend
  have hlast : (loneCapture.capturing [] []).process
      (longOutput ++ endMarker loneCapture.id "0".toList) =
      ([], loneCapture.completed longOutput "0".toList) := by
    rw [loneCapture.process_capturing, nil_append]
    exact hend
  constructor
  · simp only [processAll, hstart, hlast, Registration.completed,
      trim_longOutput]
    rfl
  · rintro ⟨front, -, hwithin, -, hmissing⟩
    have hwhole : front = longOutput := by
      by_contra hne
      exact Bool.noConfusion (hmissing.mpr hne)
    rw [hwhole, len_longOutput] at hwithin
    omega

end NiceTerm.Capture
