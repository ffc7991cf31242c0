/-
How much a replay can grow.  The text is a series of turns of the loop; padding
is limited by the largest column that a cursor movement reaches, but blank
lines and inserted blanks come in any number that a parameter names.
-/
import NiceTerm.Recording.Replay

namespace NiceTerm.Recording

open List Replay RustStr
open RustStr (Str)

/-- One turn of the loop; a skipped sequence is known by its length. -/
inductive Turn
  | csi (params : Str) (final : Char)
  | skipped (bytes : Nat)
  | char (c : Char)
deriving DecidableEq, Repr

def Turn.apply : Turn → Replay → Replay
  | .csi params final, replay => applyCsiSequence params final replay
  | .skipped _, replay => replay
  | .char c, replay => replayChar c replay

/-- The bytes of the text that the turn takes. -/
def Turn.bytes : Turn → Nat
  | .csi params _ => len params + 3
  | .skipped bytes => bytes
  | .char c => c.utf8Size

/-- The number of lines or blanks that the parameter of the turn asks for. -/
def Turn.count : Turn → Nat
  | .csi params final =>
    if final = 'B' || final = 'E' then max (csiParam params 0 1) 1
    else if final = '@' then csiParam params 0 1
    else 0
  | .skipped _ | .char _ => 0

/-- The turns of the loop over a text. -/
def turnsLoop : Nat → Str → List Turn
  | 0, _ => []
  | _, [] => []
  | turns + 1, c :: rest =>
    if c = '\x1b' then
      match rest with
      | [] => []
      | opener :: rest =>
        if opener = '[' then
          match csiSequence rest with
          | none => []
          | some (params, final, rest) =>
            .csi params final :: turnsLoop turns rest
        else if opener = ']' then
          .skipped (len ('\x1b' :: opener :: rest) -
            len (afterOsc rest)) :: turnsLoop turns (afterOsc rest)
        else if isStringOpener opener then
          .skipped (len ('\x1b' :: opener :: rest) - len (afterString rest)) ::
              turnsLoop turns (afterString rest)
        else
          .skipped (len ['\x1b', opener]) :: turnsLoop turns rest
    else .char c :: turnsLoop turns rest

def turnsOf (text : Str) : List Turn := turnsLoop text.length text

def playTurns (turns : List Turn) (replay : Replay) : Replay :=
  turns.foldl (fun replay turn => turn.apply replay) replay

def startReplay (initialLine : Str) (initialCursor : Nat) : Replay where
  line := initialLine
  cursor := min initialCursor initialLine.length
  lines := []

/-- The number of lines and characters. -/
def Replay.size (replay : Replay) : Nat :=
  replay.lines.length + replay.lines.flatten.length + replay.line.length

/-- The cursor is behind the line only where a movement has put it. -/
def Replay.Clamped (replay : Replay) : Prop :=
  replay.cursor ≤ max maxReplayCursorColumns replay.line.length

def totalBytes : List Turn → Nat
  | [] => 0
  | turn :: turns => turn.bytes + totalBytes turns

theorem replayLoop_eq (turns : Nat) (text : Str) (replay : Replay) :
    replayLoop turns text replay = playTurns (turnsLoop turns text) replay := by
  induction turns generalizing text replay with
  | zero => rfl
  | succ turns ih =>
    cases text with
    | nil => rfl
    | cons c rest =>
      rw [replayLoop.eq_def, turnsLoop.eq_def]
      dsimp only
      by_cases hesc : c = '\x1b'
      · simp only [hesc, ↓reduceIte]
        cases rest with
        | nil => rfl
        | cons opener rest =>
          dsimp only
          by_cases hcsi : opener = '['
          · simp only [hcsi, ↓reduceIte]
            cases hsequence : csiSequence rest with
            | none => rfl
            | some sequence =>
              obtain ⟨params, final, back⟩ := sequence
              exact ih back _
          · simp only [hcsi, ↓reduceIte]
            by_cases hosc : opener = ']'
            · simp only [hosc, ↓reduceIte]
              exact ih _ replay
            · simp only [hosc, ↓reduceIte]
              by_cases hstring : isStringOpener opener = true
              · simp only [hstring, ↓reduceIte]
                exact ih _ replay
              · simp only [hstring]
                exact ih _ replay
      · simp only [hesc, ↓reduceIte]
        exact ih rest _

theorem replayTerminalOutput_turns (text initialLine : Str)
    (initialCursor : Nat) :
    replayTerminalOutput text initialLine initialCursor =
      playTurns (turnsOf text) (startReplay initialLine initialCursor) :=
  replayLoop_eq text.length text _

theorem len_afterOsc_le (text : Str) : len (afterOsc text) ≤ len text := by
  induction text with
  | nil => exact Nat.le_refl 0
  | cons c rest ih =>
    rw [afterOsc, len_cons]
    split
    · omega
    · split
      · cases rest with
        | nil => simp
        | cons d rest =>
          simp only [tail_cons, len_cons]
          omega
      · omega

theorem len_afterString_le (text : Str) :
    len (afterString text) ≤ len text := by
  induction text with
  | nil => exact Nat.le_refl 0
  | cons c rest ih =>
    rw [afterString, len_cons]
    split
    · cases rest with
      | nil => simp
      | cons d rest =>
        simp only [tail_cons, len_cons]
        omega
    · omega

theorem utf8Size_of_isCsiFinal {c : Char} (h : isCsiFinal c = true) :
    c.utf8Size = 1 := by
  rw [Char.utf8Size_eq_one_iff, UInt32.le_iff_toNat_le]
  simp only [isCsiFinal, Bool.and_eq_true, decide_eq_true_eq] at h
  exact Nat.le_trans h.2 (by decide)

theorem len_csiSequence {text params back : Str} {final : Char}
    (h : csiSequence text = some (params, final, back)) :
    len text = len params + 1 + len back := by
  induction text generalizing params with
  | nil => exact absurd h.symm (Option.some_ne_none _)
  | cons c rest ih =>
    rw [csiSequence] at h
    split at h
    next hfinal =>
      obtain ⟨rfl, rfl, rfl⟩ : [] = params ∧ c = final ∧ rest = back := by
        simpa using h
      have hone := utf8Size_of_isCsiFinal hfinal
      simp only [len_cons, len_nil]
      omega
    next =>
      obtain ⟨⟨inner, last, after⟩, hinner, heq⟩ :=
        Option.map_eq_some_iff.mp h
      obtain ⟨rfl, rfl, rfl⟩ :
          c :: inner = params ∧ last = final ∧ after = back := by
        simpa using heq
      have hlen := ih hinner
      simp only [len_cons] at hlen ⊢
      omega

/-- The turns take no more than there is. -/
theorem totalBytes_turnsLoop_le (turns : Nat) (text : Str) :
    totalBytes (turnsLoop turns text) ≤ len text := by
  induction turns generalizing text with
  | zero => exact Nat.zero_le _
  | succ turns ih =>
    cases text with
    | nil => exact Nat.zero_le _
    | cons c rest =>
      rw [turnsLoop.eq_def]
      dsimp only
      by_cases hesc : c = '\x1b'
      · simp only [hesc, ↓reduceIte]
        cases rest with
        | nil => exact Nat.zero_le _
        | cons opener rest =>
          dsimp only
          by_cases hcsi : opener = '['
          · simp only [hcsi, ↓reduceIte]
            cases hsequence : csiSequence rest with
            | none => exact Nat.zero_le _
            | some sequence =>
              obtain ⟨params, final, back⟩ := sequence
              have hlen := len_csiSequence hsequence
              have hback := ih back
              simp only [totalBytes, Turn.bytes, len_cons]
              have hesc1 : '\x1b'.utf8Size = 1 := rfl
              have hcsi1 : '['.utf8Size = 1 := rfl
              omega
          · simp only [hcsi, ↓reduceIte]
            have hosc := len_afterOsc_le rest
            have hstring := len_afterString_le rest
            have hrest := ih rest
            have hafter := ih (afterOsc rest)
            have hbehind := ih (afterString rest)
            split
            · simp only [totalBytes, Turn.bytes, len_cons]
              omega
            · split
              · simp only [totalBytes, Turn.bytes, len_cons]
                omega
              · simp only [totalBytes, Turn.bytes, len_cons, len_nil]
                omega
      · simp only [hesc, ↓reduceIte, totalBytes, Turn.bytes, len_cons]
        have hrest := ih rest
        omega

section Growing

variable {replay : Replay}

theorem length_insertBlank (cursor n : Nat) (line : Str) :
    ((insertBlank cursor)^[n] line).length = line.length + n := by
  induction n generalizing line with
  | zero => rfl
  | succ n ih =>
    rw [Function.iterate_succ_apply, ih, insertBlank,
      length_insertIdx_of_le_length (Nat.min_le_right _ _)]
    omega

theorem size_of_lines {replay : Replay} {line : Str} {cursor : Nat} :
    ({ replay with line := line, cursor := cursor } : Replay).size +
      replay.line.length = replay.size + line.length := by
  simp only [size]
  omega

/-- A character that is written comes with padding up to the cursor. -/
theorem length_writeTerminalChar (ch : Char) :
    (writeTerminalChar replay ch).line.length =
      max replay.line.length (replay.cursor + 1) := by
  simp only [writeTerminalChar]
  split
  next h =>
    simp only [length_append, length_replicate, length_singleton] at h ⊢
    omega
  next h =>
    simp only [length_set, length_append, length_replicate]
      at h ⊢
    omega

theorem Replay.Clamped.write (ch : Char) :
    (writeTerminalChar replay ch).Clamped := by
  rw [Replay.Clamped, length_writeTerminalChar]
  change replay.cursor + 1 ≤ _
  omega

theorem size_write_le (h : replay.Clamped) (ch : Char) :
    (writeTerminalChar replay ch).size ≤
      replay.size + (maxReplayCursorColumns + 1) := by
  have hsize : (writeTerminalChar replay ch).size + replay.line.length =
      replay.size + (writeTerminalChar replay ch).line.length := size_of_lines
  rw [length_writeTerminalChar] at hsize
  rw [Replay.Clamped] at h
  omega

theorem size_nextLines (params : Str) :
    (nextLines params replay).size =
      replay.size + max (csiParam params 0 1) 1 := by
  simp only [nextLines, size, length_append, length_cons, length_replicate,
    flatten_append, flatten_cons, flatten_replicate_nil, length_nil]
  omega

section

variable (h : replay.Clamped)
include h

/-- Erasing and deleting only take characters away, and keep the cursor within
the line or where it is. -/
theorem eraseLine_shrinks (params : Str) :
    (eraseLine params replay).size ≤ replay.size ∧
      (eraseLine params replay).Clamped := by
  simp only [Replay.Clamped] at h ⊢
  rw [eraseLine]
  split
  · simp only [size, length_take]
    omega
  · simp only [size, length_drop]
    omega
  · simp only [size, length_nil]
    omega
  · simp only [size, length_nil]
    omega
  · exact ⟨Nat.le_refl _, h⟩

theorem deleteChars_shrinks (params : Str) :
    (deleteChars params replay).size ≤ replay.size ∧
      (deleteChars params replay).Clamped := by
  simp only [Replay.Clamped] at h ⊢
  rw [deleteChars]
  split
  · simp only [size, length_append, length_take, length_drop]
    omega
  · exact ⟨Nat.le_refl _, h⟩

/-- What a control sequence can do to the size. -/
theorem size_csi (params : Str) (final : Char) :
    ((applyCsiSequence params final replay).size =
        replay.size + (Turn.csi params final).count ∨
      (applyCsiSequence params final replay).size ≤ replay.size ∧
        (Turn.csi params final).count = 0) ∧
      (applyCsiSequence params final replay).Clamped := by
  rw [applyCsiSequence, Turn.count]
  by_cases hlines : (final = 'B' || final = 'E') = true
  · rw [if_pos hlines, if_pos hlines]
    exact ⟨.inl (size_nextLines params), Nat.zero_le _⟩
  rw [if_neg hlines, if_neg hlines]
  by_cases hforward : final = 'C'
  · rw [if_pos hforward]
    subst hforward
    exact ⟨.inr ⟨Nat.le_refl _, rfl⟩,
      Nat.le_trans (Nat.min_le_right _ _) (Nat.le_max_left _ _)⟩
  rw [if_neg hforward]
  by_cases hback : final = 'D'
  · rw [if_pos hback]
    subst hback
    exact ⟨.inr ⟨Nat.le_refl _, rfl⟩, Nat.le_trans (Nat.sub_le _ _) h⟩
  rw [if_neg hback]
  by_cases hcolumn : final = 'G'
  · rw [if_pos hcolumn]
    subst hcolumn
    exact ⟨.inr ⟨Nat.le_refl _, rfl⟩,
      Nat.le_trans (Nat.min_le_right _ _) (Nat.le_max_left _ _)⟩
  rw [if_neg hcolumn]
  by_cases herase : final = 'K'
  · rw [if_pos herase]
    subst herase
    obtain ⟨hsize, hclamped⟩ := eraseLine_shrinks h params
    exact ⟨.inr ⟨hsize, rfl⟩, hclamped⟩
  rw [if_neg herase]
  by_cases hdelete : final = 'P'
  · rw [if_pos hdelete]
    subst hdelete
    obtain ⟨hsize, hclamped⟩ := deleteChars_shrinks h params
    exact ⟨.inr ⟨hsize, rfl⟩, hclamped⟩
  rw [if_neg hdelete]
  by_cases hinsert : final = '@'
  · rw [if_pos hinsert, if_pos hinsert]
    simp only [Replay.Clamped, size, length_insertBlank] at h ⊢
    omega
  · rw [if_neg hinsert, if_neg hinsert]
    exact ⟨.inr ⟨Nat.le_refl _, rfl⟩, h⟩

theorem replayChar_grows (c : Char) :
    (replayChar c replay).size ≤ replay.size + (maxReplayCursorColumns + 1) ∧
      (replayChar c replay).Clamped := by
  rw [replayChar]
  split
  · exact ⟨Nat.le_add_right _ _, Nat.zero_le _⟩
  · split
    · refine ⟨?_, Nat.zero_le _⟩
      simp only [size, length_append, flatten_append,
        length_singleton, flatten_singleton, length_nil]
      omega
    · split
      · exact ⟨size_write_le h '\t', .write '\t'⟩
      · split
        · exact ⟨Nat.le_add_right _ _, Nat.le_trans (Nat.sub_le _ _) h⟩
        · split
          · exact ⟨Nat.le_add_right _ _, h⟩
          · exact ⟨size_write_le h c, .write c⟩

theorem Replay.Clamped.apply (turn : Turn) : (turn.apply replay).Clamped := by
  cases turn with
  | csi params final => exact (size_csi h params final).2
  | skipped bytes => exact h
  | char c => exact (replayChar_grows h c).2

/-- A turn adds at most its share exactly if it does not ask for more. -/
theorem size_apply_le_iff (turn : Turn) :
    (turn.apply replay).size ≤
        replay.size + turn.bytes * (maxReplayCursorColumns + 1) ↔
      turn.count ≤ turn.bytes * (maxReplayCursorColumns + 1) := by
  cases turn with
  | csi params final =>
    rcases (size_csi h params final).1 with hsize | ⟨hsize, hcount⟩
    · rw [Turn.apply, hsize]
      exact Nat.add_le_add_iff_left
    · rw [Turn.apply, hcount]
      exact iff_of_true (Nat.le_trans hsize (Nat.le_add_right _ _))
        (Nat.zero_le _)
  | skipped bytes =>
    exact iff_of_true (Nat.le_add_right _ _) (Nat.zero_le _)
  | char c =>
    have hbytes : 1 ≤ c.utf8Size := Char.utf8Size_pos c
    refine iff_of_true ?_ (Nat.zero_le _)
    calc
      (replayChar c replay).size ≤
          replay.size + (maxReplayCursorColumns + 1) :=
        (replayChar_grows h c).1
      _ ≤ replay.size + c.utf8Size * (maxReplayCursorColumns + 1) :=
        Nat.add_le_add_left (Nat.le_mul_of_pos_left _ hbytes) _

end

end Growing

theorem playTurns_clamped {turns : List Turn} {replay : Replay}
    (h : replay.Clamped) : (playTurns turns replay).Clamped := by
  induction turns generalizing replay with
  | nil => exact h
  | cons turn turns ih => exact ih (h.apply turn)

/-- Where no turn adds more than its share, all of them do not. -/
theorem size_playTurns_le {turns : List Turn} {replay : Replay}
    (h : replay.Clamped)
    (hcounts : ∀ turn ∈ turns,
      turn.count ≤ turn.bytes * (maxReplayCursorColumns + 1)) :
    (playTurns turns replay).size ≤
      replay.size + totalBytes turns * (maxReplayCursorColumns + 1) := by
  induction turns generalizing replay with
  | nil => exact Nat.le_add_right _ _
  | cons turn turns ih =>
    have hfirst := (size_apply_le_iff h turn).mpr (hcounts turn mem_cons_self)
    have hrest := ih (h.apply turn) fun other hmem =>
      hcounts other (mem_cons_of_mem turn hmem)
    calc
      (playTurns turns (turn.apply replay)).size ≤ (turn.apply replay).size +
            totalBytes turns * (maxReplayCursorColumns + 1) := hrest
      _ ≤ replay.size + turn.bytes * (maxReplayCursorColumns + 1) +
            totalBytes turns * (maxReplayCursorColumns + 1) :=
        Nat.add_le_add_right hfirst _
      _ = replay.size +
            totalBytes (turn :: turns) * (maxReplayCursorColumns + 1) := by
        rw [totalBytes, Nat.add_mul, Nat.add_assoc]

/-- The output is linear in the input, and every turn of the loop adds at most
in proportion to the bytes that it takes. -/
def GrowsLinearly (text initialLine : Str) (initialCursor : Nat) : Prop :=
  (replayTerminalOutput text initialLine initialCursor).size ≤
      initialLine.length + len text * (maxReplayCursorColumns + 1) ∧
    ∀ before turn after, turnsOf text = before ++ turn :: after →
      (turn.apply (playTurns before
          (startReplay initialLine initialCursor))).size ≤
        (playTurns before (startReplay initialLine initialCursor)).size +
          turn.bytes * (maxReplayCursorColumns + 1)

/-- A replay grows linearly exactly if no sequence asks for more lines or blanks
than its share. -/
theorem growsLinearly_iff (text initialLine : Str) (initialCursor : Nat) :
    GrowsLinearly text initialLine initialCursor ↔ ∀ turn ∈ turnsOf text,
        turn.count ≤ turn.bytes * (maxReplayCursorColumns + 1) := by
  have hstart : (startReplay initialLine initialCursor).Clamped :=
    Nat.le_trans (Nat.min_le_right _ _) (Nat.le_max_right _ _)
  have hsize : (startReplay initialLine initialCursor).size =
      initialLine.length := by
    simp [startReplay, size]
  constructor
  · rintro ⟨-, hturns⟩ turn hmem
    obtain ⟨before, after, hsplit⟩ := append_of_mem hmem
    exact (size_apply_le_iff (playTurns_clamped hstart) turn).mp
      (hturns before turn after hsplit)
  · intro hcounts
    constructor
    · have hbytes : totalBytes (turnsOf text) ≤ len text :=
        totalBytes_turnsLoop_le text.length text
      have htotal := size_playTurns_le hstart hcounts
      rw [hsize] at htotal
      rw [replayTerminalOutput_turns]
      exact Nat.le_trans htotal
        (Nat.add_le_add_left (Nat.mul_le_mul_right _ hbytes) _)
    · intro before turn after hsplit
      have hmem : turn ∈ turnsOf text := by
        rw [hsplit]
        exact mem_append_right before mem_cons_self
      exact (size_apply_le_iff (playTurns_clamped hstart) turn).mpr
        (hcounts turn hmem)

/-- Eight bytes that move the cursor down by 99999 lines. -/
def manyLines : Str := "\x1b[99999B".toList

theorem size_manyLines : (replayTerminalOutput manyLines [] 0).size = 99999 := by
  have hturns : turnsOf manyLines = [.csi "99999".toList 'B'] := by
    decide +kernel
  have hcount : csiParam "99999".toList 0 1 = 99999 := by decide +kernel
  rw [replayTerminalOutput_turns, hturns]
  change (nextLines "99999".toList (startReplay [] 0)).size = 99999
  rw [size_nextLines, hcount]
  rfl

theorem manyLines_not_linear : ¬ ∀ (text initialLine : Str)
    (initialCursor : Nat), GrowsLinearly text initialLine initialCursor := by
  intro h
  have htotal := (h manyLines [] 0).1
  rw [size_manyLines] at htotal
  exact absurd htotal (by decide +kernel)

end NiceTerm.Recording
