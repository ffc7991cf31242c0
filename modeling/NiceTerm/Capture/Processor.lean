/-
The capture processor: it takes a command's output out of the terminal stream
between a start and an end marker.  The start time of a capture and the
duration computed from it are not kept.
-/
import NiceTerm.Lib.RustStr
import NiceTerm.Lib.Search

namespace NiceTerm.Capture

open RustStr

structure CapturedOutput where
  output : Str
  exitCode : Option Int
  sourceTruncated : Bool
deriving DecidableEq, Repr

def markerPrefix : Str := "__DF_CMD_".toList
def startPrefix : Str := markerPrefix ++ "START_".toList
def endPrefix : Str := markerPrefix ++ "END_".toList
def endSuffix : Str := "__".toList
def maxCaptureBytes : Nat := 4 * 1024 * 1024

inductive CapturePhase
  | waitingForStart
  | capturing
  | postCapture
deriving DecidableEq, Repr

/-- `resultTx` says whether the sender has not been used yet. -/
structure ActiveCapture where
  buffer : Str := []
  phase : CapturePhase := .waitingForStart
  resultTx : Bool := true
  sourceTruncated : Bool := false
deriving DecidableEq, Repr

/-- The map of captures has one entry for each marker id; `sent` are the
outputs sent so far, under the id they were registered with. -/
structure OutputCaptureProcessor where
  active : List (Str × ActiveCapture) := []
  pendingMarkerTail : Str := []
  sent : List (Str × CapturedOutput) := []
deriving DecidableEq, Repr

def appendCaptureOutput (text : Str) (capture : ActiveCapture) :
    ActiveCapture :=
  let available := maxCaptureBytes - len capture.buffer
  if len text ≤ available then
    { capture with buffer := capture.buffer ++ text }
  else
    let stop := floorCharBoundary text (min available (len text))
    { capture with
      buffer := capture.buffer ++ (splitAt text stop).1
      sourceTruncated := true }

namespace OutputCaptureProcessor

variable (p : OutputCaptureProcessor)

def ids : List Str :=
  p.active.map Prod.fst

def get (id : Str) : Option ActiveCapture :=
  (p.active.find? fun entry => entry.1 = id).map Prod.snd

/-- `active.get_mut(id)` followed by a change of the entry. -/
def modify (id : Str)
    (change : ActiveCapture → ActiveCapture) : OutputCaptureProcessor :=
  { p with
    active := p.active.map fun entry =>
      if entry.1 = id then (entry.1, change entry.2) else entry }

def remove (id : Str) : OutputCaptureProcessor :=
  { p with active := p.active.filter fun entry => entry.1 ≠ id }

variable (markerId : Str)

def register :
    OutputCaptureProcessor :=
  { p with active := (p.remove markerId).active ++ [(markerId, {})] }

def hasActive : Bool :=
  !p.active.isEmpty

/-- The tail is cleared when the last capture goes. -/
def clearTailIfIdle : OutputCaptureProcessor :=
  if p.active.isEmpty then { p with pendingMarkerTail := [] } else p

def cancel :
    OutputCaptureProcessor :=
  (p.remove markerId).clearTailIfIdle

def anyInPhase (target : CapturePhase) : Option Str :=
  (p.active.find? fun entry => entry.2.phase = target).map Prod.fst

/-- `after_marker` without a line break at its front. -/
def stripLineBreak (afterMarker : Str) : Str :=
  match afterMarker.dropPrefix? "\r\n".toList with
  | some after => after
  | none => (afterMarker.dropPrefix? "\n".toList).getD afterMarker

/-- `try_match_start`; a match has nothing in front of it. -/
def tryMatchStart (text : Str) : Option (Str × OutputCaptureProcessor) :=
  match text.dropInfix? startPrefix with
  | none => none
  | some (_, afterPrefix) =>
    match afterPrefix.dropInfix? endSuffix with
    | none => none
    | some (markerId, afterMarker) =>
      if markerId ∈ p.ids then
        some (stripLineBreak afterMarker, p.modify markerId fun capture =>
          { capture with phase := .capturing })
      else none

/-- `try_match_end`; nothing of the text is left behind a match. -/
def tryMatchEnd (text : Str) : Option OutputCaptureProcessor :=
  match text.dropInfix? endPrefix with
  | none => none
  | some (before, afterPrefix) =>
    match afterPrefix.dropInfix? endSuffix with
    | none => none
    | some (inner, _) =>
      match rsplitOnce '_' inner with
      | none => none
      | some (markerId, code) =>
        match p.get markerId with
        | none => none
        | some capture =>
          let result : CapturedOutput :=
            { output := trim (capture.buffer ++ before)
              exitCode := parseI32 code
              sourceTruncated := capture.sourceTruncated }
          some { p.modify markerId fun capture =>
              { capture with
                buffer := []
                resultTx := false
                phase := .postCapture } with
            sent :=
              if capture.resultTx then p.sent ++ [(markerId, result)]
              else p.sent }

def startMarker : Str :=
  startPrefix ++ markerId ++ endSuffix

def endMarkerPrefix : Str :=
  endPrefix ++ markerId ++ ['_']

def isPossibleMarkerPrefix (ids : List Str) (value : Str) : Bool :=
  if value = [] then false
  else if value.isPrefixOf markerPrefix then true
  else
    ids.any fun markerId =>
      value.isPrefixOf (startMarker markerId) ||
      value.isPrefixOf (endMarkerPrefix markerId) ||
      match value.dropPrefix? (endMarkerPrefix markerId) with
      | none => false
      | some rest => rest.all fun ch => isAsciiDigit ch || ch == '-'

/-- The text from `possible_marker_tail_start` on, empty when there is none. -/
def possibleMarkerTail (ids : List Str) : Str → Str
  | [] => []
  | c :: cs =>
    if isPossibleMarkerPrefix ids (c :: cs) then c :: cs
    else possibleMarkerTail ids cs

theorem length_stripLineBreak_le (text : Str) :
    (stripLineBreak text).length ≤ text.length := by
  unfold stripLineBreak
  split
  · next after hdrop =>
      rw [Search.dropPrefix?_eq_some.mp hdrop, List.length_append]
      exact Nat.le_add_left _ _
  · cases hdrop : text.dropPrefix? "\n".toList with
    | none => exact Nat.le_refl _
    | some after =>
      rw [Search.dropPrefix?_eq_some.mp hdrop, List.length_append]
      exact Nat.le_add_left _ _

/-- What stands behind a start marker is shorter than the text. -/
theorem length_tryMatchStart_lt {p next : OutputCaptureProcessor}
    {text after : Str} (h : p.tryMatchStart text = some (after, next)) :
    after.length < text.length := by
  unfold tryMatchStart at h
  split at h
  · cases h
  · next before afterPrefix hprefix =>
      split at h
      · cases h
      · next markerId afterMarker hsuffix =>
          split_ifs at h
          have hafter : stripLineBreak afterMarker = after :=
            congrArg Prod.fst (Option.some.inj h)
          have hstrip := length_stripLineBreak_le afterMarker
          rw [hafter] at hstrip
          have hback := Search.length_after_lt (by decide) hprefix
          have hfront := Search.length_after_lt (by decide) hsuffix
          omega

theorem length_candidate_lt {text before rest : Str}
    (h : text.dropInfix? markerPrefix = some (before, rest))
    (hne : before ≠ []) : (markerPrefix ++ rest).length < text.length := by
  obtain ⟨rfl, -⟩ := (Search.dropInfix?_eq_some (by decide)).mp h
  have hpos := List.length_pos_iff.mpr hne
  simp only [List.length_append]
  omega

/-- The loop of `process`. -/
def processLoop (p : OutputCaptureProcessor) (remaining passthrough : Str) :
    Str × OutputCaptureProcessor :=
  if remaining = [] then (passthrough, p)
  else
    match _hstart : p.tryMatchStart remaining with
    | some (after, next) => processLoop next after passthrough
    | none =>
      match p.tryMatchEnd remaining with
      | some next => (passthrough, next)
      | none =>
        match p.anyInPhase .capturing with
        | some captureId =>
          match _hfind : remaining.dropInfix? markerPrefix with
          | none =>
            (passthrough, p.modify captureId (appendCaptureOutput remaining))
          | some (before, rest) =>
            let p := p.modify captureId (appendCaptureOutput before)
            let candidate := markerPrefix ++ rest
            if isPossibleMarkerPrefix p.ids candidate then
              (passthrough, { p with
                pendingMarkerTail := p.pendingMarkerTail ++ candidate })
            else if _hpos : before = [] then
              processLoop
                (p.modify captureId (appendCaptureOutput markerPrefix))
                rest passthrough
            else processLoop p candidate passthrough
        | none =>
          match p.anyInPhase .postCapture with
          | some captureId =>
            (passthrough, (p.remove captureId).clearTailIfIdle)
          | none =>
            if (p.anyInPhase .waitingForStart).isSome then
              (passthrough, { p with
                pendingMarkerTail := p.pendingMarkerTail ++
                  possibleMarkerTail p.ids remaining })
            else
              match _hfind : remaining.dropInfix? markerPrefix with
              | none => (passthrough ++ remaining, p)
              | some (before, rest) =>
                if _hpos : before = [] then
                  processLoop p rest (passthrough ++ markerPrefix)
                else
                  processLoop p (markerPrefix ++ rest) (passthrough ++ before)
termination_by remaining.length
decreasing_by
  · exact length_tryMatchStart_lt _hstart
  · exact Search.length_after_lt (by decide) _hfind
  · exact length_candidate_lt _hfind _hpos
  · exact Search.length_after_lt (by decide) _hfind
  · exact length_candidate_lt _hfind _hpos

def process (p : OutputCaptureProcessor) (text : Str) :
    Str × OutputCaptureProcessor :=
  if p.active.isEmpty then (text, p)
  else
    processLoop { p with pendingMarkerTail := [] }
      (p.pendingMarkerTail ++ text) []

/-- Successive calls of `process`, with what each forwards to the terminal. -/
def processAll (p : OutputCaptureProcessor) :
    List Str → List Str × OutputCaptureProcessor
  | [] => ([], p)
  | chunk :: chunks =>
    let first := p.process chunk
    let rest := first.2.processAll chunks
    (first.1 :: rest.1, rest.2)

end OutputCaptureProcessor

end NiceTerm.Capture
