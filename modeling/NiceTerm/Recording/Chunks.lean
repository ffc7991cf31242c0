/-
How the replay depends on where the output is cut.  Character by character the
replay is a machine that also knows which control sequence it is in; between
two calls only the line and the cursor are kept.
-/
import NiceTerm.Lib.Resuming
import NiceTerm.Recording.Replay

namespace NiceTerm.Recording

open RustStr (Str)

/-- The control sequence a text is in the middle of. -/
inductive Mode
  | ground
  | escape
  | csi (params : Str)
  | osc (escaped : Bool)
  | string (escaped : Bool)
deriving DecidableEq, Repr

def Mode.next : Mode → Char → Mode
  | ground, c => if c = '\x1b' then escape else ground
  | escape, c =>
    if c = '[' then csi []
    else if c = ']' then osc false
    else if isStringOpener c then string false
    else ground
  | csi params, c => if isCsiFinal c then ground else csi (params ++ [c])
  | osc escaped, c =>
    if c = '\x07' ∨ escaped = true ∧ c = '\\' then ground
    else osc (c = '\x1b')
  | string escaped, c =>
    if escaped = true ∧ c = '\\' then ground else string (c = '\x1b')

def Mode.advance (replay : Replay) : Mode → Char → Replay
  | ground, c => if c = '\x1b' then replay else replayChar c replay
  | csi params, c =>
    if isCsiFinal c then applyCsiSequence params c replay else replay
  | _, _ => replay

/-- Every control sequence of the text ends within it. -/
def Complete (text : Str) : Prop :=
  text.foldl Mode.next .ground = .ground

instance (text : Str) : Decidable (Complete text) :=
  inferInstanceAs (Decidable (_ = _))

/-- The replay from within a control sequence. -/
def feed : Mode → Replay → Str → Replay
  | _, replay, [] => replay
  | mode, replay, c :: rest => feed (mode.next c) (mode.advance replay c) rest

open Mode

theorem feed_csi (params : Str) (replay : Replay) (text : Str) :
    feed (.csi params) replay text =
      match csiSequence text with
      | none => replay
      | some (more, final, rest) =>
        feed .ground (applyCsiSequence (params ++ more) final replay) rest := by
  induction text generalizing params with
  | nil => rfl
  | cons c rest ih =>
    by_cases hfinal : isCsiFinal c = true
    · simp [feed, csiSequence, Mode.next, advance, hfinal]
    · simp only [feed, csiSequence, Mode.next, advance, hfinal,
        Bool.false_eq_true, ↓reduceIte, ih]
      cases csiSequence rest with
      | none => rfl
      | some sequence => simp

section

variable (replay : Replay) (text : Str)
include replay text

theorem feed_osc_escaped :
    feed (.osc true) replay text =
      if text.head? = some '\\' then feed .ground replay text.tail
      else feed (.osc false) replay text := by
  cases text with
  | nil => rfl
  | cons c rest =>
    by_cases hend : c = '\\'
    · simp [feed, Mode.next, advance, hend]
    · simp [feed, Mode.next, advance, hend]

theorem feed_osc :
    feed (.osc false) replay text = feed .ground replay (afterOsc text) := by
  induction text with
  | nil => rfl
  | cons c rest ih =>
    by_cases hbel : c = '\x07'
    · simp [feed, afterOsc, Mode.next, advance, hbel]
    by_cases hesc : c = '\x1b'
    · have hstart : feed (.osc false) replay (c :: rest) =
          feed (.osc true) replay rest := by
        simp [feed, Mode.next, advance, hesc]
      rw [hstart, feed_osc_escaped, ih]
      by_cases hend : rest.head? = some '\\' <;>
        simp [afterOsc, hesc, hend]
    · simp [feed, afterOsc, Mode.next, advance, hbel, hesc, ih]

theorem feed_string_escaped :
    feed (.string true) replay text =
      if text.head? = some '\\' then feed .ground replay text.tail
      else feed (.string false) replay text := by
  cases text with
  | nil => rfl
  | cons c rest =>
    by_cases hend : c = '\\'
    · simp [feed, Mode.next, advance, hend]
    · simp [feed, Mode.next, advance, hend]

theorem feed_string :
    feed (.string false) replay text =
      feed .ground replay (afterString text) := by
  induction text with
  | nil => rfl
  | cons c rest ih =>
    by_cases hesc : c = '\x1b'
    · have hstart : feed (.string false) replay (c :: rest) =
          feed (.string true) replay rest := by
        simp [feed, Mode.next, advance, hesc]
      rw [hstart, feed_string_escaped, ih]
      by_cases hend : rest.head? = some '\\' <;>
        simp [afterString, hesc, hend]
    · simp [feed, afterString, Mode.next, advance, hesc, ih]

end

theorem length_of_csiSequence {text params rest : Str} {final : Char}
    (h : csiSequence text = some (params, final, rest)) :
    rest.length < text.length := by
  induction text generalizing params with
  | nil => simp [csiSequence] at h
  | cons c text ih =>
    by_cases hfinal : isCsiFinal c = true
    · simp only [csiSequence, hfinal, ↓reduceIte, Option.some.injEq,
        Prod.mk.injEq] at h
      rw [← h.2.2]
      exact Nat.lt_succ_self _
    · simp only [csiSequence, hfinal, Bool.false_eq_true, ↓reduceIte,
        Option.map_eq_some_iff, Prod.mk.injEq] at h
      obtain ⟨⟨more, last, behind⟩, hrest, -, rfl, rfl⟩ := h
      exact Nat.lt_succ_of_lt (ih hrest)

theorem length_afterOsc_le (text : Str) :
    (afterOsc text).length ≤ text.length := by
  induction text with
  | nil => rfl
  | cons c rest ih =>
    simp only [afterOsc, List.length_cons]
    split_ifs <;> grind

theorem length_afterString_le (text : Str) :
    (afterString text).length ≤ text.length := by
  induction text with
  | nil => rfl
  | cons c rest ih =>
    simp only [afterString, List.length_cons]
    split_ifs <;> grind

/-- The loop is the machine: a sequence it scans at once takes the machine
from its first character back to the ground. -/
theorem replayLoop_eq_feed (turns : Nat) (text : Str) (replay : Replay)
    (hturns : text.length ≤ turns) :
    replayLoop turns text replay = feed .ground replay text := by
  induction turns generalizing text replay with
  | zero =>
    obtain rfl := List.length_eq_zero_iff.mp (Nat.le_zero.mp hturns)
    rfl
  | succ turns ih =>
    cases text with
    | nil => rfl
    | cons c rest =>
      have hrest : rest.length ≤ turns := Nat.le_of_succ_le_succ hturns
      by_cases hesc : c = '\x1b'
      · subst hesc
        have hstart (text : Str) :
            feed .ground replay ('\x1b' :: text) =
              feed .escape replay text := rfl
        rw [hstart]
        cases rest with
        | nil => rfl
        | cons opener rest =>
          have hshort : rest.length < turns := hrest
          simp only [replayLoop, ↓reduceIte]
          by_cases hcsi : opener = '['
          · have hfeed : feed .escape replay (opener :: rest) =
                feed (.csi []) replay rest := by
              simp [feed, Mode.next, advance, hcsi]
            rw [if_pos hcsi, hfeed, feed_csi]
            cases hsequence : csiSequence rest with
            | none => rfl
            | some sequence =>
              have hlength := length_of_csiSequence hsequence
              exact ih _ _ (by omega)
          by_cases hosc : opener = ']'
          · have hfeed : feed .escape replay (opener :: rest) =
                feed (.osc false) replay rest := by
              simp [feed, Mode.next, advance, hosc]
            have hlength := length_afterOsc_le rest
            rw [if_neg hcsi, if_pos hosc, hfeed, feed_osc]
            exact ih _ _ (by omega)
          by_cases hstring : isStringOpener opener = true
          · have hfeed : feed .escape replay (opener :: rest) =
                feed (.string false) replay rest := by
              simp [feed, Mode.next, advance, hcsi, hosc, hstring]
            have hlength := length_afterString_le rest
            rw [if_neg hcsi, if_neg hosc, if_pos hstring, hfeed, feed_string]
            exact ih _ _ (by omega)
          · have hfeed : feed .escape replay (opener :: rest) =
                feed .ground replay rest := by
              simp [feed, Mode.next, advance, hcsi, hosc, hstring]
            rw [if_neg hcsi, if_neg hosc, if_neg hstring, hfeed]
            exact ih _ _ (by omega)
      · have hfeed : feed .ground replay (c :: rest) =
            feed .ground (replayChar c replay) rest := by
          simp [feed, Mode.next, advance, hesc]
        rw [hfeed]
        simp only [replayLoop, if_neg hesc]
        exact ih _ _ hrest

/-- The replay with lines in front that are done already. -/
def Replay.after (done : List Str) (replay : Replay) : Replay :=
  { replay with lines := done ++ replay.lines }

section

variable (done : List Str) (replay : Replay)
include done replay

theorem writeTerminalChar_after (ch : Char) :
    writeTerminalChar (replay.after done) ch =
      (writeTerminalChar replay ch).after done := rfl

theorem replayChar_after (c : Char) :
    replayChar c (replay.after done) = (replayChar c replay).after done := by
  simp only [replayChar, writeTerminalChar_after]
  split_ifs <;> simp [Replay.after]

theorem eraseLine_after (params : Str) :
    eraseLine params (replay.after done) =
      (eraseLine params replay).after done := by
  simp only [eraseLine, Replay.after]
  split <;> rfl

theorem deleteChars_after (params : Str) :
    deleteChars params (replay.after done) =
      (deleteChars params replay).after done := by
  by_cases hstop : replay.cursor <
      min (replay.cursor + csiParam params 0 1) replay.line.length
  · simp only [deleteChars, Replay.after, hstop, ↓reduceIte]
  · simp only [deleteChars, Replay.after, hstop, ↓reduceIte]

theorem applyCsiSequence_after (params : Str) (final : Char) :
    applyCsiSequence params final (replay.after done) =
      (applyCsiSequence params final replay).after done := by
  simp only [applyCsiSequence, eraseLine_after, deleteChars_after]
  split_ifs <;> simp [nextLines, Replay.after]

theorem advance_after (mode : Mode) (c : Char) :
    mode.advance (replay.after done) c = (mode.advance replay c).after done := by
  cases mode with
  | ground =>
    simp only [advance, replayChar_after]
    split <;> rfl
  | csi params =>
    simp only [advance, applyCsiSequence_after]
    split <;> rfl
  | escape => rfl
  | osc escaped => rfl
  | string escaped => rfl

end

/-- What the replay works with at a character. -/
structure Editor where
  mode : Mode
  line : Str
  cursor : Nat
deriving DecidableEq, Repr

def Editor.replay (editor : Editor) : Replay where
  line := editor.line
  cursor := editor.cursor
  lines := []

/-- The replay as a machine that puts out the lines that are done.  The line
and the cursor are kept between two calls. -/
def editing : Resuming Char Str Editor (Str × Nat) where
  resume kept := ⟨.ground, kept.1, min kept.2 kept.1.length⟩
  save editor := (editor.line, editor.cursor)
  step editor c :=
    let replay := editor.mode.advance editor.replay c
    (⟨editor.mode.next c, replay.line, replay.cursor⟩, replay.lines)

theorem feed_eq_run (text : Str) (editor : Editor) (done : List Str) :
    feed editor.mode (editor.replay.after done) text =
      (editing.run editor text).1.replay.after
        (done ++ (editing.run editor text).2) := by
  induction text generalizing editor done with
  | nil => simp [feed, Resuming.run]
  | cons c text ih =>
    have hstep := editing.step editor c
    have hadvance : editor.mode.advance (editor.replay.after done) c =
        (editing.step editor c).1.replay.after
          (done ++ (editing.step editor c).2) := by
      rw [advance_after]
      simp [Replay.after, Editor.replay, editing]
    have hmode : editor.mode.next c = (editing.step editor c).1.mode := rfl
    simp only [feed, Resuming.run]
    rw [hadvance, hmode, ih, List.append_assoc]

theorem mode_run (text : Str) (editor : Editor) :
    (editing.run editor text).1.mode = text.foldl Mode.next editor.mode := by
  induction text generalizing editor with
  | nil => rfl
  | cons c text ih => exact ih _

theorem replayTerminalOutput_eq (text line : Str) (cursor : Nat) :
    replayTerminalOutput text line cursor =
      let done := editing.run (editing.resume (line, cursor)) text
      { line := done.1.line, cursor := done.1.cursor, lines := done.2 } := by
  rw [replayTerminalOutput, replayLoop_eq_feed _ _ _ le_rfl]
  have hrun := feed_eq_run text (editing.resume (line, cursor)) []
  simp only [Replay.after, List.nil_append, Editor.replay,
    List.append_nil] at hrun
  exact hrun

namespace TranscriptState

open List

def kept (state : TranscriptState) : Str × Nat :=
  (state.outputBuffer, state.outputCursor)

/-- The texts that are recorded of some lines, given the echo that is still
expected, and the echo expected afterwards. -/
def outputTexts (echo : Option Str) : List Str → Option Str × List Str
  | [] => (echo, [])
  | line :: lines =>
    let line := RustStr.trimEndMatches '\r' line
    if line.isEmpty then outputTexts echo lines
    else
      let kept :=
        match echo with
        | none => some line
        | some echo => withoutEcho echo line
      let rest := outputTexts none lines
      (rest.1, kept.toList ++ rest.2)

theorem outputTexts_append (echo : Option Str) (front back : List Str) :
    outputTexts echo (front ++ back) =
      ((outputTexts (outputTexts echo front).1 back).1,
        (outputTexts echo front).2 ++
          (outputTexts (outputTexts echo front).1 back).2) := by
  induction front generalizing echo with
  | nil => rfl
  | cons line front ih =>
    simp only [cons_append, outputTexts, ih]
    split <;> simp

section

variable (clock : Nat → Str) (state : TranscriptState)
include clock state

theorem appendOutputLine_spec (line : Str) :
    let done := state.appendOutputLine clock line
    let texts := outputTexts state.submittedLineEcho [line]
    done.1.kept = state.kept ∧ done.1.submittedLineEcho = texts.1 ∧
      done.2.toList.map TranscriptRecord.data = texts.2 := by
  by_cases hempty : (RustStr.trimEndMatches '\r' line).isEmpty = true
  · simp [appendOutputLine, outputTexts, hempty]
  · cases hecho : state.submittedLineEcho with
    | none =>
      simp [appendOutputLine, outputTexts, hempty, hecho, appendRecord, kept,
        TranscriptRecord.new]
    | some echo =>
      cases hkept : withoutEcho echo (RustStr.trimEndMatches '\r' line) <;>
        simp [appendOutputLine, outputTexts, hempty, hecho, hkept,
          appendRecord, kept, TranscriptRecord.new]

theorem appendOutputLines_spec (lines : List Str) :
    let done := state.appendOutputLines clock lines
    let texts := outputTexts state.submittedLineEcho lines
    done.1.kept = state.kept ∧ done.1.submittedLineEcho = texts.1 ∧
      done.2.map TranscriptRecord.data = texts.2 := by
  induction lines generalizing state with
  | nil => exact ⟨rfl, rfl, rfl⟩
  | cons line lines ih =>
    obtain ⟨hkept, hecho, htexts⟩ := state.appendOutputLine_spec clock line
    obtain ⟨hkept', hecho', htexts'⟩ := ih (state.appendOutputLine clock line).1
    have hsplit := outputTexts_append state.submittedLineEcho [line] lines
    rw [singleton_append] at hsplit
    rw [hecho] at hecho' htexts'
    refine ⟨hkept'.trans hkept, ?_, ?_⟩
    · rw [hsplit]
      exact hecho'
    · rw [hsplit, ← htexts, ← htexts', appendOutputLines, map_append]

/-- A call keeps what the machine keeps, and records what it puts out. -/
theorem writeOutput_spec (data : Str) :
    let done := state.writeOutput clock data
    let call := editing.call state.kept data
    let texts := outputTexts state.submittedLineEcho call.2
    done.1.kept = call.1 ∧ done.1.submittedLineEcho = texts.1 ∧
      done.2.map TranscriptRecord.data = texts.2 := by
  by_cases hdata : data = []
  · subst hdata
    exact ⟨rfl, rfl, rfl⟩
  · have hempty : data.isEmpty = false := by simp [hdata]
    rw [editing.call_of_ne_nil _ hdata, writeOutput, hempty]
    simp only [Bool.false_eq_true, ↓reduceIte, replayTerminalOutput_eq]
    exact appendOutputLines_spec _ _ _

theorem writeOutputs_spec (chunks : List Str) :
    let done := state.writeOutputs clock chunks
    let calls := editing.calls state.kept chunks
    let texts := outputTexts state.submittedLineEcho calls.2
    done.1.kept = calls.1 ∧ done.1.submittedLineEcho = texts.1 ∧
      done.2.map TranscriptRecord.data = texts.2 := by
  induction chunks generalizing state with
  | nil => exact ⟨rfl, rfl, rfl⟩
  | cons data chunks ih =>
    obtain ⟨hkept, hecho, htexts⟩ := state.writeOutput_spec clock data
    obtain ⟨hkept', hecho', htexts'⟩ := ih (state.writeOutput clock data).1
    rw [hkept] at hkept'
    rw [hkept, hecho] at hecho' htexts'
    refine ⟨hkept', ?_, ?_⟩
    · rw [Resuming.calls, outputTexts_append]
      exact hecho'
    · rw [Resuming.calls, outputTexts_append, ← htexts, ← htexts',
        writeOutputs, map_append]

end

/-- The calls record the texts that one call with the whole text records, and
leave the same line and cursor behind. -/
def SameAsWhole (clock clock' : Nat → Str) (state : TranscriptState)
    (chunks : List Str) : Prop :=
  let split := state.writeOutputs clock chunks
  let whole := state.writeOutput clock' chunks.flatten
  split.2.map TranscriptRecord.data = whole.2.map TranscriptRecord.data ∧
    split.1.outputBuffer = whole.1.outputBuffer ∧
    split.1.outputCursor = whole.1.outputCursor

/-- The cursor has not been moved behind the end of the line. -/
def CursorInLine (state : TranscriptState) : Prop :=
  state.outputCursor ≤ state.outputBuffer.length

variable {state : TranscriptState}

theorem sameAsWhole_of_calls (clock clock' : Nat → Str)
    {chunks : List Str}
    (h : editing.calls state.kept chunks =
      editing.call state.kept chunks.flatten) :
    SameAsWhole clock clock' state chunks := by
  obtain ⟨hkept, -, htexts⟩ := state.writeOutputs_spec clock chunks
  obtain ⟨hkept', -, htexts'⟩ := state.writeOutput_spec clock' chunks.flatten
  rw [h] at hkept htexts
  have hsame := hkept.trans hkept'.symm
  exact ⟨htexts.trans htexts'.symm, congrArg Prod.fst hsame,
    congrArg Prod.snd hsame⟩

theorem SameAsWhole.kept {clock clock' : Nat → Str}
    {chunks : List Str} (h : SameAsWhole clock clock' state chunks) :
    (editing.calls state.kept chunks).1 =
      (editing.call state.kept chunks.flatten).1 := by
  rw [← (state.writeOutputs_spec clock chunks).1,
    ← (state.writeOutput_spec clock' chunks.flatten).1]
  exact Prod.ext h.2.1 h.2.2

/-- The machine can go on from a complete text with the cursor in the line. -/
theorem resumesAfter_iff (kept : Str × Nat) (front : Str) :
    editing.ResumesAfter kept front ↔ (front ≠ [] → Complete front ∧
      (editing.call kept front).1.2 ≤ (editing.call kept front).1.1.length) := by
  rw [Resuming.ResumesAfter]
  refine imp_congr_right fun hne => ?_
  have hmode := mode_run front (editing.resume kept)
  rw [editing.call_of_ne_nil _ hne]
  generalize (editing.run (editing.resume kept) front).1 = editor at hmode ⊢
  obtain ⟨mode, line, cursor⟩ := editor
  change mode = front.foldl Mode.next .ground at hmode
  rw [Complete, ← hmode]
  change (Editor.mk .ground line (min cursor line.length) =
    Editor.mk mode line cursor) ↔ mode = .ground ∧ cursor ≤ line.length
  rw [Editor.mk.injEq]
  grind

theorem length_writeTerminalChar (replay : Replay) (ch : Char) :
    (writeTerminalChar replay ch).line.length =
      max (replay.cursor + 1) replay.line.length := by
  rw [writeTerminalChar]
  split_ifs with hend
  · simp only [length_append, length_replicate, length_singleton] at hend ⊢
    omega
  · simp only [length_append, length_replicate, length_set] at hend ⊢
    omega

theorem letter_written (line : Str) (cursor : Nat) :
    let next := (editing.step ⟨.ground, line, cursor⟩ 'a').1
    next.line.length = max (cursor + 1) line.length ∧
      next.cursor = cursor + 1 :=
  ⟨length_writeTerminalChar ⟨line, cursor, []⟩ 'a', rfl⟩

theorem letter_swallowed {mode : Mode} (line : Str) (cursor : Nat)
    (hmode : mode ≠ .ground) :
    let next := (editing.step ⟨mode, line, cursor⟩ 'a').1
    next.line = line ∧ next.cursor = cursor := by
  cases mode with
  | ground => exact absurd rfl hmode
  | escape => exact ⟨rfl, rfl⟩
  | csi params => exact ⟨rfl, rfl⟩
  | osc escaped => exact ⟨rfl, rfl⟩
  | string escaped => exact ⟨rfl, rfl⟩

/-- Where the machine cannot go on, a letter is swallowed by the sequence or
stands behind a gap, and a new call just writes it. -/
theorem letter_differs {kept : Str × Nat} {front : Str}
    (h : ¬ editing.ResumesAfter kept front) :
    (editing.call (editing.call kept front).1 ['a']).1 ≠
      (editing.call kept (front ++ ['a'])).1 := by
  rw [resumesAfter_iff, Classical.not_imp] at h
  obtain ⟨hne, hunsettled⟩ := h
  have hmode := mode_run front (editing.resume kept)
  rw [editing.call_of_ne_nil kept hne] at hunsettled ⊢
  rw [editing.call_of_ne_nil kept (by simp), editing.run_append]
  generalize (editing.run (editing.resume kept) front).1 = editor
    at hmode hunsettled ⊢
  obtain ⟨mode, line, cursor⟩ := editor
  change mode = front.foldl Mode.next .ground at hmode
  rw [Complete, ← hmode] at hunsettled
  intro heq
  have hlines : (editing.step ⟨.ground, line, min cursor line.length⟩
      'a').1.line = (editing.step ⟨mode, line, cursor⟩ 'a').1.line :=
    congrArg Prod.fst heq
  have hcursors : (editing.step ⟨.ground, line, min cursor line.length⟩
      'a').1.cursor = (editing.step ⟨mode, line, cursor⟩ 'a').1.cursor :=
    congrArg Prod.snd heq
  have hlengths := congrArg List.length hlines
  obtain ⟨hlength, hcursor⟩ := letter_written line (min cursor line.length)
  rw [hlength] at hlengths
  rw [hcursor] at hcursors
  by_cases hground : mode = .ground
  · subst hground
    obtain ⟨hlength', hcursor'⟩ := letter_written line cursor
    rw [hcursor'] at hcursors
    exact hunsettled ⟨rfl, show cursor ≤ line.length by omega⟩
  · obtain ⟨hline', hcursor'⟩ := letter_swallowed line cursor hground
    rw [hline'] at hlengths
    rw [hcursor'] at hcursors
    omega

theorem resumesAfter_iff_settled (clock : Nat → Str)
    {front : List Str}
    (hfront : (editing.calls state.kept front).1 =
      (editing.call state.kept front.flatten).1) :
    editing.ResumesAfter state.kept front.flatten ↔
      (front.flatten ≠ [] → Complete front.flatten ∧
        CursorInLine (state.writeOutputs clock front).1) := by
  have hkept := (state.writeOutputs_spec clock front).1
  rw [resumesAfter_iff, ← hfront, ← hkept]
  rfl

/-- Successive calls record the same as one, whatever comes next, exactly if
every cut is behind a complete text with the cursor in the line. -/
theorem cut_unnoticed_iff (clock clock' : Nat → Str) (state : TranscriptState)
    (chunks : List Str) :
    (∀ front, front <+: chunks → ∀ back,
        SameAsWhole clock clock' state (front ++ [back])) ↔
      ∀ front, front <+: chunks → front.flatten ≠ [] → Complete front.flatten ∧
          CursorInLine (state.writeOutputs clock front).1 := by
  constructor
  · intro h front hfront
    have hnothing := (h front hfront []).kept
    have hletter := (h front hfront ['a']).kept
    simp only [Resuming.calls_concat, Resuming.call_nil, flatten_append,
      flatten_singleton, append_nil] at hnothing hletter
    rw [hnothing] at hletter
    apply (resumesAfter_iff_settled clock hnothing).mp
    by_contra hnot
    exact letter_differs hnot hletter
  · intro h
    have hcalls (front : List Str) (hfront : front <+: chunks) :
        editing.calls state.kept front =
            editing.call state.kept front.flatten ∧
          editing.ResumesAfter state.kept front.flatten := by
      induction front using reverseRecOn with
      | nil => exact ⟨rfl, fun hne => absurd rfl hne⟩
      | append_singleton front back ih =>
        have hshort : front <+: chunks :=
          IsPrefix.trans (prefix_append front [back]) hfront
        obtain ⟨hcalls, hresumes⟩ := ih hshort
        have hall := editing.calls_concat_eq_call hcalls hresumes back
        refine ⟨hall, ?_⟩
        rw [resumesAfter_iff_settled clock (congrArg Prod.fst hall)]
        exact h _ hfront
    intro front hfront back
    obtain ⟨hfront, hresumes⟩ := hcalls front hfront
    exact sameAsWhole_of_calls clock clock'
      (editing.calls_concat_eq_call hfront hresumes back)

/-- An erasure comes in two chunks: its start is lost and its end is recorded
as text. -/
theorem cut_erasure_differs :
    ¬ SameAsWhole (fun _ => []) (fun _ => []) (new 0)
      ["ls\x1b[".toList, "2K".toList] := by
  rintro ⟨-, hbuffer, -⟩
  revert hbuffer
  decide +kernel

end TranscriptState

end NiceTerm.Recording
