/-
The streaming stripper for the program's own OSC sequences: working directory
reports, ready markers and accepted commands.
-/
import NiceTerm.Lib.RustStr
import NiceTerm.Lib.Search

namespace NiceTerm.Osc

open List RustStr

def esc : Char := '\x1b'
def bel : Char := '\x07'

def oscIntroducer : Str := [esc, ']']
def stringTerminator : Str := [esc, '\\']

def readyMarkerPrefix : Str := "7777;NiceTermReady:".toList
def commandMarkerPrefix : Str := "7777;NiceTermCommand:".toList
def legacyReadyMarkerPrefix : Str := "7777;DflyReady:".toList
def legacyCommandMarkerPrefix : Str := "7777;DflyCommand:".toList
def cwdPrefix : Str := "7;".toList

def maxOscBuf : Nat := 64 * 1024

def buildReadyMarker (sessionId : Str) : Str :=
  oscIntroducer ++ readyMarkerPrefix ++ sessionId ++ [bel]

def markerInner (marker : Str) : Str :=
  match marker.dropPrefix? oscIntroducer with
  | none => marker
  | some rest =>
    match rest.dropSuffix? [bel] with
    | some inner => inner
    | none => (rest.dropSuffix? stringTerminator).getD rest

def hexDigit (b : UInt8) : Option UInt8 :=
  if 0x30 ≤ b ∧ b ≤ 0x39 then some (b - 0x30)
  else if 0x61 ≤ b ∧ b ≤ 0x66 then some (b - 0x61 + 10)
  else if 0x41 ≤ b ∧ b ≤ 0x46 then some (b - 0x41 + 10)
  else none

/-- `u8::from_str_radix` in base 16 on two bytes, which takes a plus sign. -/
def hexByte (hi lo : UInt8) : Option UInt8 :=
  if hi = 0x2B then hexDigit lo
  else
    match hexDigit hi, hexDigit lo with
    | some hi, some lo => some (hi * 16 + lo)
    | _, _ => none

/-- The loop of `percent_decode_utf8`. -/
def percentDecodeLoop : List UInt8 → Option (List UInt8)
  | [] => some []
  | b :: rest =>
    if b = 0x25 then
      match rest with
      | hi :: lo :: rest =>
        match hexByte hi lo with
        | some value => (percentDecodeLoop rest).map (value :: ·)
        | none => none
      | _ => none
    else (percentDecodeLoop rest).map (b :: ·)

def percentDecodeUtf8 (input : Str) : Option Str :=
  if '%' ∉ input then some input
  else (percentDecodeLoop (utf8 input)).bind fromUtf8

def parseOsc7Payload (payload : Str) : Option Str := do
  let afterScheme ← payload.dropPrefix? "file://".toList
  let path ←
    if ['/'].isPrefixOf afterScheme then some afterScheme
    else (afterScheme.dropInfix? ['/']).map fun parts => '/' :: parts.2
  let decoded ← percentDecodeUtf8 path
  if decoded = [] then none else some decoded

structure OscStripper where
  buf : Str := []
  readyInner : Str
  legacyReadyInner : Option Str
deriving Repr, DecidableEq

def OscStripper.new (readyMarker : Str) : OscStripper where
  readyInner := markerInner readyMarker
  legacyReadyInner :=
    ((markerInner readyMarker).dropPrefix? readyMarkerPrefix).map
      (legacyReadyMarkerPrefix ++ ·)

def OscStripper.isCurrentReadyMarker (stripper : OscStripper) (inner : Str) :
    Bool :=
  inner == stripper.readyInner || stripper.legacyReadyInner == some inner

/-- A sequence that has been removed, and how much of the buffer follows it. -/
structure OscSpan where
  sequence : Str
  remaining : Nat
deriving Repr, DecidableEq

/-- The result of a push.  The last field records history only: the sequences
removed, in order. -/
structure OscResult where
  visible : Str := []
  visibleAfterReady : Str := []
  cwdPaths : List Str := []
  ready : Bool := false
  acceptedCommands : List Str := []
  stripped : List OscSpan := []
deriving Repr, DecidableEq

def OscResult.append (a b : OscResult) : OscResult where
  visible := a.visible ++ b.visible
  visibleAfterReady := a.visibleAfterReady ++ b.visibleAfterReady
  cwdPaths := a.cwdPaths ++ b.cwdPaths
  ready := a.ready || b.ready
  acceptedCommands := a.acceptedCommands ++ b.acceptedCommands
  stripped := a.stripped ++ b.stripped

def shown (afterReady : Bool) (text : Str) : OscResult where
  visible := text
  visibleAfterReady := if afterReady then text else []

/-- What the branches of the loop make of the text between the introducer and
the terminator. -/
inductive Recognised where
  | cwd (path : Option Str)
  | ready
  | otherReady
  | command (text : Str)
  | foreign
deriving Repr, DecidableEq

def commandPayload (inner : Str) : Option Str :=
  (inner.dropPrefix? commandMarkerPrefix).or
    (inner.dropPrefix? legacyCommandMarkerPrefix)

/-- The BEL anywhere in the payload is taken first, and only without one the
ST. -/
def findOscEnd (payload : Str) : Option (Str × Str × Str) :=
  match payload.dropInfix? [bel] with
  | some (inner, after) => some (inner, [bel], after)
  | none =>
    (payload.dropInfix? stringTerminator).map
      fun parts => (parts.1, stringTerminator, parts.2)

open Search

theorem findOscEnd_eq_some {payload inner terminator after : Str}
    (h : findOscEnd payload = some (inner, terminator, after)) :
    payload = inner ++ terminator ++ after ∧ bel ∉ inner ∧
      (terminator = [bel] ∨ terminator = stringTerminator ∧ bel ∉ payload ∧
        ¬ stringTerminator <:+: inner) := by
  unfold findOscEnd at h
  split at h
  · next inner' after' hfind =>
    simp only [Option.some.injEq, Prod.mk.injEq] at h
    obtain ⟨rfl, rfl, rfl⟩ := h
    obtain ⟨rfl, hfirst⟩ :=
      (dropInfix?_eq_some (cons_ne_nil _ _)).mp hfind
    refine ⟨rfl, ?_, .inl rfl⟩
    simpa [singleton_infix_iff] using hfirst
  · next hnone =>
    rw [dropInfix?_eq_none, singleton_infix_iff] at hnone
    simp only [Option.map_eq_some_iff, Prod.mk.injEq] at h
    obtain ⟨⟨inner', after'⟩, hfind, rfl, rfl, rfl⟩ := h
    obtain ⟨rfl, hfirst⟩ :=
      (dropInfix?_eq_some (cons_ne_nil _ _)).mp hfind
    refine ⟨rfl, fun hmem => hnone (by simp [hmem]), .inr ⟨rfl, hnone, ?_⟩⟩
    exact fun hoccurs => hfirst (infix_append_of_infix_left hoccurs)

section Push

-- `decode` stands for `BASE64_STANDARD.decode`
variable (decode : Str → Option (List UInt8))

def parseCommandPayload (payload : Str) : Option Str := do
  let decoded ← decode payload
  let command ← fromUtf8 decoded
  if command = [] then none else some command

def OscStripper.recognise (stripper : OscStripper) (inner : Str) : Recognised :=
  match inner.dropPrefix? cwdPrefix with
  | some payload => .cwd (parseOsc7Payload payload)
  | none =>
    if stripper.isCurrentReadyMarker inner then .ready
    else if readyMarkerPrefix.isPrefixOf inner ||
        legacyReadyMarkerPrefix.isPrefixOf inner then .otherReady
    else
      match (commandPayload inner).bind (parseCommandPayload decode) with
      | some command => .command command
      | none => .foreign

def Recognised.result (sequence : Str) (afterReady : Bool) (remaining : Nat) :
    Recognised → OscResult
  | .cwd path =>
    { cwdPaths := path.toList, stripped := [⟨sequence, remaining⟩] }
  | .ready => { ready := true, stripped := [⟨sequence, remaining⟩] }
  | .otherReady => { stripped := [⟨sequence, remaining⟩] }
  | .command text =>
    { acceptedCommands := [text], stripped := [⟨sequence, remaining⟩] }
  | .foreign => shown afterReady sequence

/-- The loop of `push`: the result, and what stays in the buffer. -/
def OscStripper.pushLoop (stripper : OscStripper) (afterReady : Bool)
    (buf : Str) : OscResult × Str :=
  match _hfind : buf.dropInfix? oscIntroducer with
  | none => (shown afterReady buf, [])
  | some (before, payload) =>
    match _hend : findOscEnd payload with
    | none =>
      let rest := oscIntroducer ++ payload
      if maxOscBuf < len rest then
        ((shown afterReady before).append { visible := rest }, [])
      else (shown afterReady before, rest)
    | some (inner, terminator, after) =>
      let recognised := stripper.recognise decode inner
      let next := stripper.pushLoop (afterReady || recognised == .ready) after
      (((shown afterReady before).append (recognised.result
        (oscIntroducer ++ inner ++ terminator) afterReady
          after.length)).append next.1, next.2)
termination_by buf.length
decreasing_by
  obtain ⟨rfl, -⟩ := findOscEnd_eq_some _hend
  obtain ⟨rfl, -⟩ :=
    (dropInfix?_eq_some (cons_ne_nil _ _)).mp _hfind
  simp only [length_append, length_cons]
  omega

def OscStripper.push (stripper : OscStripper) (chunk : Str) :
    OscResult × OscStripper :=
  let buf := stripper.buf ++ chunk
  if maxOscBuf < len buf ∧ esc ∉ buf then
    ({ visible := buf }, { stripper with buf := [] })
  else
    let result := stripper.pushLoop decode false buf
    (result.1, { stripper with buf := result.2 })

def OscStripper.flush (stripper : OscStripper) : Str × OscStripper :=
  (stripper.buf, { stripper with buf := [] })

def OscStripper.pushAll (stripper : OscStripper) :
    List Str → OscResult × OscStripper
  | [] => ({}, stripper)
  | chunk :: rest =>
    let first := stripper.push decode chunk
    let others := first.2.pushAll rest
    (first.1.append others.1, others.2)

end Push

/-! The stripper against every split of a stream.  An introducer cut in two is
passed through, so a stream is safe to split only when it holds no sequence
that the stripper would remove. -/

variable {decode : Str → Option (List UInt8)}

theorem oscIntroducer_ne_nil : oscIntroducer ≠ [] := cons_ne_nil _ _

theorem stringTerminator_ne_nil : stringTerminator ≠ [] := cons_ne_nil _ _

section Loop

variable {stripper : OscStripper} {afterReady : Bool}
  {buf before payload inner terminator after : Str}

theorem pushLoop_of_plain (h : buf.dropInfix? oscIntroducer = none) :
    stripper.pushLoop decode afterReady buf = (shown afterReady buf, []) := by
  rw [OscStripper.pushLoop]
  split
  · rfl
  · next hfind => simp [h] at hfind

theorem pushLoop_of_open
    (h : buf.dropInfix? oscIntroducer = some (before, payload))
    (hend : findOscEnd payload = none) :
    stripper.pushLoop decode afterReady buf =
      if maxOscBuf < len (oscIntroducer ++ payload) then
        ((shown afterReady before).append
          { visible := oscIntroducer ++ payload }, [])
      else (shown afterReady before, oscIntroducer ++ payload) := by
  rw [OscStripper.pushLoop]
  split
  · next hfind => simp [h] at hfind
  · next before' payload' hfind =>
    obtain ⟨rfl, rfl⟩ : before = before' ∧ payload = payload' := by
      simpa [h] using hfind
    split
    · rfl
    · next hsome => simp [hend] at hsome

theorem pushLoop_of_closed
    (h : buf.dropInfix? oscIntroducer = some (before, payload))
    (hend : findOscEnd payload = some (inner, terminator, after)) :
    stripper.pushLoop decode afterReady buf =
      let recognised := stripper.recognise decode inner
      let next := stripper.pushLoop decode
        (afterReady || recognised == .ready) after
      (((shown afterReady before).append (recognised.result
        (oscIntroducer ++ inner ++ terminator) afterReady
          after.length)).append next.1, next.2) := by
  rw [OscStripper.pushLoop]
  split
  · next hfind => simp [h] at hfind
  · next before' payload' hfind =>
    obtain ⟨rfl, rfl⟩ : before = before' ∧ payload = payload' := by
      simpa [h] using hfind
    split
    · next hnone => simp [hend] at hnone
    · next inner' terminator' after' hsome =>
      obtain ⟨rfl, rfl, rfl⟩ :
          inner = inner' ∧ terminator = terminator' ∧ after = after' := by
        simpa [hend] using hsome
      rfl

end Loop

variable (stripper : OscStripper)

/-- A complete sequence of the program's own: what the stripper removes when
it is alone in a chunk. -/
def OscStripper.OwnSequence
    (decode : Str → Option (List UInt8)) (sequence : Str) : Prop :=
  ∃ inner, bel ∉ inner ∧ stripper.recognise decode inner ≠ .foreign ∧
    (sequence = oscIntroducer ++ inner ++ [bel] ∨
      sequence = oscIntroducer ++ inner ++ stringTerminator ∧
        ¬ stringTerminator <:+: inner)

def OscStripper.ContainsOwn
    (decode : Str → Option (List UInt8)) (stream : Str) : Prop :=
  ∃ sequence, stripper.OwnSequence decode sequence ∧ sequence <:+: stream

/-- What a session sees of a stream: the visible text with the final flush, the
working directories, the commands and the ready flag. -/
structure Observed where
  visible : Str
  cwdPaths : List Str
  acceptedCommands : List Str
  ready : Bool
deriving Repr, DecidableEq

def OscStripper.observe
    (decode : Str → Option (List UInt8)) (chunks : List Str) : Observed :=
  let result := stripper.pushAll decode chunks
  ⟨result.1.visible ++ result.2.flush.1, result.1.cwdPaths,
    result.1.acceptedCommands, result.1.ready⟩

/-- Nothing is recognised in `text`: all of it is visible or still buffered. -/
structure Quiet (text : Str) (result : OscResult) (buf : Str) : Prop where
  text : result.visible ++ buf = text
  cwdPaths : result.cwdPaths = []
  acceptedCommands : result.acceptedCommands = []
  ready : result.ready = false

theorem quiet_shown (afterReady : Bool) (text buf : Str) :
    Quiet (text ++ buf) (shown afterReady text) buf :=
  ⟨rfl, rfl, rfl, rfl⟩

theorem Quiet.append {text more buf : Str} {first second : OscResult}
    (hfirst : Quiet text first []) (hsecond : Quiet more second buf) :
    Quiet (text ++ more) (first.append second) buf where
  text := by
    simp [OscResult.append, ← hfirst.text, ← hsecond.text]
  cwdPaths := by
    simp [OscResult.append, hfirst.cwdPaths, hsecond.cwdPaths]
  acceptedCommands := by
    simp [OscResult.append, hfirst.acceptedCommands, hsecond.acceptedCommands]
  ready := by simp [OscResult.append, hfirst.ready, hsecond.ready]

section Streams

variable {stripper : OscStripper}

theorem not_containsOwn_of_isInfix {part stream : Str} (hoccurs : part <:+: stream)
    (h : ¬ stripper.ContainsOwn decode stream) :
    ¬ stripper.ContainsOwn decode part := by
  rintro ⟨sequence, hown, hpart⟩
  exact h ⟨sequence, hown, hpart.trans hoccurs⟩

/-- A closed sequence in a text without own sequences is foreign. -/
theorem recognise_of_not_containsOwn
    {before payload inner terminator after : Str}
    (hend : findOscEnd payload = some (inner, terminator, after))
    (h : ¬ stripper.ContainsOwn decode (before ++ oscIntroducer ++ payload)) :
    stripper.recognise decode inner = .foreign := by
  obtain ⟨rfl, hbel, hterminator⟩ := findOscEnd_eq_some hend
  by_contra hown
  refine h ⟨oscIntroducer ++ inner ++ terminator, ⟨inner, hbel, hown, ?_⟩,
    before, after, by simp⟩
  rcases hterminator with rfl | ⟨rfl, -, hfirst⟩
  · exact .inl rfl
  · exact .inr ⟨rfl, hfirst⟩

theorem pushLoop_quiet (afterReady : Bool) (buf : Str)
    (h : ¬ stripper.ContainsOwn decode buf) :
    Quiet buf (stripper.pushLoop decode afterReady buf).1
      (stripper.pushLoop decode afterReady buf).2 := by
  induction hlength : buf.length using Nat.strong_induction_on
    generalizing buf afterReady with
  | h length ih =>
    cases hfind : buf.dropInfix? oscIntroducer with
    | none =>
      rw [pushLoop_of_plain hfind]
      simpa using quiet_shown afterReady buf []
    | some parts =>
      obtain ⟨before, payload⟩ := parts
      obtain ⟨rfl, -⟩ :=
        (dropInfix?_eq_some oscIntroducer_ne_nil).mp hfind
      cases hend : findOscEnd payload with
      | none =>
        rw [pushLoop_of_open hfind hend]
        split
        · refine ⟨?_, rfl, rfl, rfl⟩
          simp [OscResult.append, shown]
        · simpa using quiet_shown afterReady before (oscIntroducer ++ payload)
      | some closed =>
        obtain ⟨inner, terminator, after⟩ := closed
        have hforeign := recognise_of_not_containsOwn hend h
        obtain ⟨rfl, -, -⟩ := findOscEnd_eq_some hend
        rw [pushLoop_of_closed hfind hend, hforeign]
        have hafter := ih after.length
          (by rw [← hlength]; simp [oscIntroducer]; omega) afterReady after
          (not_containsOwn_of_isInfix
            ⟨before ++ oscIntroducer ++ inner ++ terminator, [],
              by simp⟩ h) rfl
        have hready : (afterReady || Recognised.foreign == .ready) =
            afterReady := by
          rw [show (Recognised.foreign == .ready) = false from rfl,
            Bool.or_false]
        simp only [hready, Recognised.result]
        have hbefore := quiet_shown afterReady before []
        have hsequence := quiet_shown afterReady
          (oscIntroducer ++ inner ++ terminator) []
        simpa using (hbefore.append hsequence).append hafter

theorem push_quiet (chunk : Str)
    (h : ¬ stripper.ContainsOwn decode (stripper.buf ++ chunk)) :
    Quiet (stripper.buf ++ chunk) (stripper.push decode chunk).1
      (stripper.push decode chunk).2.buf := by
  unfold OscStripper.push
  dsimp only
  split
  · exact ⟨append_nil _, rfl, rfl, rfl⟩
  · exact pushLoop_quiet false _ h

theorem recognise_push (chunk : Str) :
    (stripper.push decode chunk).2.recognise decode =
      stripper.recognise decode := by
  unfold OscStripper.push
  dsimp only
  split <;> rfl

theorem containsOwn_push (chunk : Str) :
    (stripper.push decode chunk).2.ContainsOwn decode =
      stripper.ContainsOwn decode := by
  funext stream
  simp only [OscStripper.ContainsOwn, OscStripper.OwnSequence, recognise_push]

theorem pushAll_quiet (chunks : List Str)
    (h : ¬ stripper.ContainsOwn decode (stripper.buf ++ chunks.flatten)) :
    Quiet (stripper.buf ++ chunks.flatten) (stripper.pushAll decode chunks).1
      (stripper.pushAll decode chunks).2.buf := by
  induction chunks generalizing stripper with
  | nil => exact ⟨by simp [OscStripper.pushAll], rfl, rfl, rfl⟩
  | cons chunk rest ih =>
    simp only [flatten_cons, ← List.append_assoc] at h
    have hfirst := push_quiet chunk
      (not_containsOwn_of_isInfix ⟨[], rest.flatten, rfl⟩ h)
    have hlater : ¬ (stripper.push decode chunk).2.ContainsOwn decode
        ((stripper.push decode chunk).2.buf ++ rest.flatten) := by
      rw [containsOwn_push]
      refine not_containsOwn_of_isInfix
        ⟨(stripper.push decode chunk).1.visible, [], ?_⟩ h
      rw [← hfirst.text]
      simp
    have hrest := ih hlater
    refine ⟨?_, ?_, ?_, ?_⟩
    · simp only [OscStripper.pushAll, OscResult.append, List.append_assoc,
        hrest.text, flatten_cons]
      rw [← List.append_assoc, hfirst.text, List.append_assoc]
    · simp [OscStripper.pushAll, OscResult.append, hfirst.cwdPaths,
        hrest.cwdPaths]
    · simp [OscStripper.pushAll, OscResult.append, hfirst.acceptedCommands,
        hrest.acceptedCommands]
    · simp [OscStripper.pushAll, OscResult.append, hfirst.ready, hrest.ready]

/-- A stream without own sequences is shown unchanged, however it is split. -/
theorem observe_of_not_containsOwn (hbuf : stripper.buf = [])
    {chunks : List Str} (h : ¬ stripper.ContainsOwn decode chunks.flatten) :
    stripper.observe decode chunks = ⟨chunks.flatten, [], [], false⟩ := by
  have hstart : ¬ stripper.ContainsOwn decode
      (stripper.buf ++ chunks.flatten) := by simpa [hbuf] using h
  have hquiet := pushAll_quiet chunks hstart
  simp [OscStripper.observe, OscStripper.flush, hquiet.text, hquiet.cwdPaths,
    hquiet.acceptedCommands, hquiet.ready, hbuf]

theorem OscResult.append_assoc (a b c : OscResult) :
    (a.append b).append c = a.append (b.append c) := by
  simp [OscResult.append, Bool.or_assoc]

theorem pushAll_append (front back : List Str) :
    stripper.pushAll decode (front ++ back) =
      let first := stripper.pushAll decode front
      let second := first.2.pushAll decode back
      (first.1.append second.1, second.2) := by
  induction front generalizing stripper with
  | nil => simp [OscStripper.pushAll, OscResult.append]
  | cons chunk rest ih =>
    simp [OscStripper.pushAll, ih, OscResult.append_assoc]

/-- One character at a time. -/
def singly (text : Str) : List Str :=
  text.map fun c => [c]

@[simp] theorem singly_flatten (text : Str) : (singly text).flatten = text := by
  induction text with
  | nil => rfl
  | cons c cs ih => simpa [singly] using ih

theorem push_singleton (hbuf : stripper.buf = []) (c : Char) :
    stripper.push decode [c] = (shown false [c], stripper) := by
  have hshort : ¬ maxOscBuf < len [c] := by
    have hsize := c.utf8Size_le_four
    simp only [len_cons, len_nil, maxOscBuf]
    omega
  have hplain : [c].dropInfix? oscIntroducer = none := by
    rw [dropInfix?_eq_none]
    intro hoccurs
    have hlength := hoccurs.length_le
    simp [oscIntroducer] at hlength
  simp only [OscStripper.push, hbuf, nil_append, hshort, false_and,
    ↓reduceIte, pushLoop_of_plain hplain]
  rw [← hbuf]

/-- Fed one character at a time, the stripper removes nothing: an introducer
never stands in the buffer whole. -/
theorem pushAll_singly (hbuf : stripper.buf = []) (text : Str) :
    stripper.pushAll decode (singly text) = (shown false text, stripper) := by
  induction text with
  | nil => rfl
  | cons c cs ih =>
    change stripper.pushAll decode ([c] :: singly cs) = _
    simp only [OscStripper.pushAll, push_singleton hbuf, ih]
    rfl

theorem dropInfix?_oscIntroducer_front (payload : Str) :
    (oscIntroducer ++ payload).dropInfix? oscIntroducer =
      some ([], payload) := by
  refine (dropInfix?_eq_some oscIntroducer_ne_nil).mpr ⟨rfl, ?_⟩
  intro hoccurs
  have hlength := hoccurs.length_le
  simp [oscIntroducer] at hlength

theorem findOscEnd_bel {inner : Str} (h : bel ∉ inner) :
    findOscEnd (inner ++ [bel]) = some (inner, [bel], []) := by
  have hfind : (inner ++ [bel]).dropInfix? [bel] = some (inner, []) := by
    refine (dropInfix?_eq_some (cons_ne_nil _ _)).mpr
      ⟨by simp, ?_⟩
    simpa [singleton_infix_iff] using h
  simp [findOscEnd, hfind]

/-- The first character of the terminator does not help to complete it. -/
theorem stringTerminator_infix_concat {inner : Str} :
    stringTerminator <:+: inner ++ stringTerminator.dropLast ↔
      stringTerminator <:+: inner := by
  constructor
  · intro h
    refine (infix_concat_iff.mp h).resolve_left ?_
    rintro ⟨front, hfront⟩
    have hlast := congrArg List.getLast? hfront
    simp [stringTerminator, esc] at hlast
  · exact infix_append_of_infix_left

theorem findOscEnd_stringTerminator {inner : Str} (hbel : bel ∉ inner)
    (h : ¬ stringTerminator <:+: inner) :
    findOscEnd (inner ++ stringTerminator) =
      some (inner, stringTerminator, []) := by
  have hnone : (inner ++ stringTerminator).dropInfix? [bel] = none := by
    rw [dropInfix?_eq_none, singleton_infix_iff]
    have hst : bel ∉ stringTerminator := by decide
    simp [hbel, hst]
  have hfind : (inner ++ stringTerminator).dropInfix? stringTerminator =
      some (inner, []) := by
    refine (dropInfix?_eq_some stringTerminator_ne_nil).mpr
      ⟨by simp, ?_⟩
    rwa [stringTerminator_infix_concat]
  simp [findOscEnd, hnone, hfind]

theorem OscStripper.OwnSequence.length_pos {sequence : Str}
    (h : stripper.OwnSequence decode sequence) : 0 < sequence.length := by
  obtain ⟨inner, -, -, rfl | ⟨rfl, -⟩⟩ := h <;>
    simp [oscIntroducer]

theorem push_ownSequence (hbuf : stripper.buf = []) {sequence : Str}
    (h : stripper.OwnSequence decode sequence) :
    (stripper.push decode sequence).1.visible = [] ∧
      (stripper.push decode sequence).2 = stripper := by
  obtain ⟨inner, hbel, hown, hsequence⟩ := h
  obtain ⟨terminator, rfl, hend⟩ : ∃ terminator,
      sequence = oscIntroducer ++ (inner ++ terminator) ∧
        findOscEnd (inner ++ terminator) = some (inner, terminator, []) := by
    rcases hsequence with rfl | ⟨rfl, hfirst⟩
    · exact ⟨[bel], by simp, findOscEnd_bel hbel⟩
    · exact ⟨stringTerminator, by simp,
        findOscEnd_stringTerminator hbel hfirst⟩
  have hplain : ([] : Str).dropInfix? oscIntroducer = none := rfl
  have hesc : ¬ (maxOscBuf < len (oscIntroducer ++ (inner ++ terminator)) ∧
      esc ∉ oscIntroducer ++ (inner ++ terminator)) := by
    simp [oscIntroducer]
  have hrest (afterReady : Bool) :
      stripper.pushLoop decode afterReady [] = (shown afterReady [], []) :=
    pushLoop_of_plain hplain
  simp only [OscStripper.push, hbuf, nil_append, hesc, ↓reduceIte,
    pushLoop_of_closed (dropInfix?_oscIntroducer_front _) hend, hrest]
  refine ⟨?_, by rw [← hbuf]⟩
  cases hrecognised : stripper.recognise decode inner <;>
    simp_all [OscResult.append, shown, Recognised.result]

/-- Every way of splitting a stream shows the same exactly when the stream
holds no complete sequence of the program's own. -/
theorem splits_agree_iff (decode : Str → Option (List UInt8))
    (sessionId stream : Str) :
    (∀ left right : List Str, left.flatten = stream → right.flatten = stream →
      (OscStripper.new (buildReadyMarker sessionId)).observe decode left =
        (OscStripper.new (buildReadyMarker sessionId)).observe decode right) ↔
      ¬ (OscStripper.new (buildReadyMarker sessionId)).ContainsOwn decode
        stream := by
  let stripper := OscStripper.new (buildReadyMarker sessionId)
  have hbuf : stripper.buf = [] := rfl
  constructor
  · rintro h ⟨sequence, hown, before, after, hsplit⟩
    obtain ⟨hvisible, hnext⟩ := push_ownSequence hbuf hown
    have hisolated :
        (stripper.observe decode
          (singly before ++ sequence :: singly after)).visible =
          before ++ after := by
      simp only [OscStripper.observe, pushAll_append, pushAll_singly hbuf,
        OscStripper.pushAll, hnext, OscResult.append, shown, hvisible,
        OscStripper.flush, hbuf]
      simp
    have hsingle : (stripper.observe decode (singly stream)).visible =
        stream := by
      simp [OscStripper.observe, pushAll_singly hbuf, shown,
        OscStripper.flush, hbuf]
    have hsame : (stripper.observe decode
          (singly before ++ sequence :: singly after)).visible =
        (stripper.observe decode (singly stream)).visible :=
      congrArg Observed.visible
        (h _ _ (by simp [← hsplit]) (singly_flatten stream))
    rw [hisolated, hsingle, ← hsplit] at hsame
    have hlength := congrArg List.length hsame
    have hpos := hown.length_pos
    simp only [length_append] at hlength
    omega
  · intro h left right hleft hright
    rw [observe_of_not_containsOwn hbuf (by rwa [hleft]),
      observe_of_not_containsOwn hbuf (by rwa [hright]), hleft, hright]

end Streams

end NiceTerm.Osc
