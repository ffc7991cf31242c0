/-
What a terminal does with text: the characters and control sequences it is
made of, and the operation each of them stands for.  Text with anything but
the controls and sequences a visual frame may have is outside the model.
-/
import NiceTerm.Gate.Classifier
import NiceTerm.Lib.Terminal

namespace NiceTerm.Gate

open JsString List Terminal

inductive Token
  | csi (csi : Csi)
  | control (code : UInt16)
  | print (code : Nat)
deriving DecidableEq, Repr

/-- CR, TAB and BS. -/
def isCursorControl (code : UInt16) : Bool :=
  code == 0x0d || code == 0x09 || code == 0x08

def isControl (code : UInt16) : Bool :=
  code < 0x20 || code == 0x7f || (0x80 ≤ code && code ≤ 0x9f)

def tokenize (text : JsStr) : Option (List Token) :=
  match _htext : text with
  | [] => some []
  | code :: tail =>
    if startsCsi text then
      match _hcsi : parseCsi text with
      | none => none
      | some csi =>
        (tokenize csi.rest).map (.csi { csi with rest := [] } :: ·)
    else if isCursorControl code then
      (tokenize tail).map (.control code :: ·)
    else if isControl code then none
    else
      (tokenize (text.drop (charLength text))).map
        (.print (codePoint text) :: ·)
termination_by text.length
decreasing_by
  · have hshorter := length_parseCsi _hcsi
    simpa [_htext] using hshorter
  · simp
  · have hpos := charLength_pos (code :: tail)
    simp only [_htext, length_drop, length_cons]
    omega

def decimal (digits : JsStr) : Nat :=
  digits.foldl (fun value digit => 10 * value + (digit.toNat - 0x30)) 0

/-- A parameter that is missing or empty counts as 0. -/
def csiParam (params : JsStr) (index : Nat) : Nat :=
  decimal (((numericParams params)[index]?).getD [])

def cursorTravel (final : UInt16) (params : JsStr) : Travel × Travel :=
  let count := max 1 (csiParam params 0)
  if final = 0x41 then (.back count, .stay)
  else if final = 0x42 then (.ahead count, .stay)
  else if final = 0x43 then (.stay, .ahead count)
  else if final = 0x44 then (.stay, .back count)
  else if final = 0x45 then (.ahead count, .goto 0)
  else if final = 0x46 then (.back count, .goto 0)
  else if final = 0x64 then (.goto (count - 1), .stay)
  else if final = 0x48 ∨ final = 0x66 then
    (.goto (count - 1), .goto (max 1 (csiParam params 1) - 1))
  else (.stay, .goto (count - 1))

def eraseRegion (final : UInt16) (params : JsStr) : Option Region :=
  match csiParam params 0 with
  | 0 => some (if final = 0x4a then .toScreenEnd else .toLineEnd)
  | 1 => some (if final = 0x4a then .toScreenStart else .toLineStart)
  | 2 => some (if final = 0x4a then .screen else .line)
  | _ => none

/-- `?2026`, the mode of synchronized output. -/
def synchronizedMode : JsStr := [0x3f, 0x32, 0x30, 0x32, 0x36]

/-- Erases with another parameter have no effect on the screen. -/
def csiOperations (csi : Csi) : Option (List Operation) :=
  if csi.intermediates ≠ [] then none
  else if csi.final = 0x6d then
    if hasPrivateMarker csi.params then none else some [.sgr csi.params]
  else if isAllowedCursorCsi csi.final csi.params then
    let moves := cursorTravel csi.final csi.params
    some [.travel moves.1 moves.2]
  else if isAllowedEraseCsi csi.final csi.params then
    some ((eraseRegion csi.final csi.params).toList.map .erase)
  else if csi.params = synchronizedMode ∧
      (csi.final = 0x68 ∨ csi.final = 0x6c) then
    some [.synchronize (csi.final == 0x68)]
  else none

def controlTravel (code : UInt16) : Travel :=
  if code = 0x0d then .goto 0
  else if code = 0x09 then .tab
  else .back 1

def Token.operations : Token → Option (List Operation)
  | .csi sequence => csiOperations sequence
  | .control code => some [.travel .stay (controlTravel code)]
  | .print code => some [.print code]

def tokenOperations : List Token → Option (List Operation)
  | [] => some []
  | token :: rest =>
    match token.operations, tokenOperations rest with
    | some front, some back => some (front ++ back)
    | _, _ => none

def textOperations (text : JsStr) : Option (List Operation) :=
  (tokenize text).bind tokenOperations

theorem tokenOperations_append {front back : List Token}
    {first second : List Operation}
    (hfront : tokenOperations front = some first)
    (hback : tokenOperations back = some second) :
    tokenOperations (front ++ back) = some (first ++ second) := by
  induction front generalizing first with
  | nil =>
    rw [← Option.some.inj hfront]
    exact hback
  | cons token rest ih =>
    simp only [tokenOperations] at hfront
    split at hfront
    · next head tail hhead htail =>
      rw [← Option.some.inj hfront, cons_append, tokenOperations, hhead,
        ih htail, append_assoc]
    · cases hfront

variable {text : JsStr}

theorem parseCsiLoop_append {consumed params intermediates : JsStr}
    {csi : Csi}
    (h : parseCsiLoop consumed params intermediates text = some csi)
    (more : JsStr) :
    parseCsiLoop consumed params intermediates (text ++ more) =
      some { csi with rest := csi.rest ++ more } := by
  induction text generalizing consumed params intermediates with
  | nil => exact absurd h (by simp [parseCsiLoop])
  | cons code rest ih =>
    rw [cons_append, parseCsiLoop]
    rw [parseCsiLoop] at h
    split_ifs at h ⊢
    · exact ih h
    · exact ih h
    · rw [← Option.some.inj h]

theorem startsCsi_length (h : startsCsi text = true) :
    (if text.head? = some 0x9b then 1 else 2) ≤ text.length := by
  match text with
  | [] => exact absurd h (by decide)
  | [unit] =>
    simp only [startsCsi, List.isPrefixOf, Bool.and_false, Bool.false_or,
      head?_cons, beq_iff_eq] at h
    rw [if_pos (by simpa using h)]
    exact Nat.le_refl 1
  | first :: second :: rest =>
    split <;> simp

theorem parseCsi_append {csi : Csi} (hstarts : startsCsi text = true)
    (h : parseCsi text = some csi) (more : JsStr) :
    parseCsi (text ++ more) = some { csi with rest := csi.rest ++ more } := by
  have hlength := startsCsi_length hstarts
  have hne : text ≠ [] := by
    rintro rfl
    exact absurd hstarts (by decide)
  have hhead : (text ++ more).head? = text.head? :=
    head?_append_of_ne_nil text hne
  unfold parseCsi at h ⊢
  dsimp only at h ⊢
  rw [hhead, take_append_of_le_length hlength,
    drop_append_of_le_length hlength]
  exact parseCsiLoop_append h more

theorem startsCsi_append {more : JsStr} (hne : text ≠ [])
    (hmore : ∀ unit ∈ more.head?, unit ≠ 0x5b) :
    startsCsi (text ++ more) = startsCsi text := by
  match text with
  | [] => exact absurd rfl hne
  | [unit] =>
    cases more with
    | nil => simp
    | cons next rest =>
      have hnext : (0x5b == next) = false := by
        simpa using (hmore next rfl).symm
      simp [startsCsi, List.isPrefixOf, hnext]
  | first :: second :: rest => simp [startsCsi, List.isPrefixOf]

/-- The first code point does not change when a pair is not completed. -/
theorem codePoint_append {more : JsStr} (hne : text ≠ [])
    (hmore : ∀ unit ∈ more.head?, isLowSurrogate unit = false) :
    codePoint (text ++ more) = codePoint text := by
  match text with
  | [] => exact absurd rfl hne
  | [unit] =>
    cases more with
    | nil => simp
    | cons next rest => simp [codePoint, hmore next rfl]
  | first :: second :: rest => rfl

theorem charLength_le (hne : text ≠ []) : charLength text ≤ text.length := by
  match text with
  | [] => exact absurd rfl hne
  | [unit] =>
    have hunit := toNat_le unit
    simp [charLength, codePoint, Nat.not_lt.mpr hunit]
  | first :: second :: rest =>
    unfold charLength
    split <;> simp

theorem tokenize_csi {csi : Csi}
    (hstarts : startsCsi text = true) (hcsi : parseCsi text = some csi) :
    tokenize text =
      (tokenize csi.rest).map (.csi { csi with rest := [] } :: ·) := by
  cases text with
  | nil => exact absurd hstarts (by decide)
  | cons code tail =>
    rw [tokenize, if_pos hstarts]
    split
    · next hnone => rw [hcsi] at hnone; cases hnone
    · next other hother => rw [Option.some.inj (hcsi.symm.trans hother)]

theorem tokenize_control {code : UInt16} {tail : JsStr}
    (hstarts : ¬ startsCsi (code :: tail) = true)
    (hcontrol : isCursorControl code = true) :
    tokenize (code :: tail) = (tokenize tail).map (.control code :: ·) := by
  rw [tokenize, if_neg hstarts, if_pos hcontrol]

theorem tokenize_print {code : UInt16} {tail : JsStr}
    (hstarts : ¬ startsCsi (code :: tail) = true)
    (hcursor : ¬ isCursorControl code = true)
    (hcontrol : ¬ isControl code = true) :
    tokenize (code :: tail) =
      (tokenize ((code :: tail).drop (charLength (code :: tail)))).map
        (.print (codePoint (code :: tail)) :: ·) := by
  rw [tokenize, if_neg hstarts, if_neg hcursor, if_neg hcontrol]

/-- Complete text is read the same when a boundary follows. -/
theorem tokenize_append {more : JsStr} {tokens : List Token}
    (h : tokenize text = some tokens)
    (hlow : ∀ unit ∈ more.head?, isLowSurrogate unit = false)
    (hbracket : ∀ unit ∈ more.head?, unit ≠ 0x5b) :
    tokenize (text ++ more) = (tokenize more).map (tokens ++ ·) := by
  have hsame : ∀ code (tail : JsStr),
      startsCsi (code :: (tail ++ more)) = startsCsi (code :: tail) :=
    fun code tail => startsCsi_append (cons_ne_nil code tail) hbracket
  induction text using tokenize.induct generalizing tokens with
  | case1 =>
    rw [tokenize] at h
    rw [← Option.some.inj h]
    simp
  | case2 code tail hstarts hnone =>
    rw [tokenize, if_pos hstarts] at h
    split at h
    · cases h
    · next hsome => rw [hnone] at hsome; cases hsome
  | case3 code tail csi hstarts hcsi ih =>
    rw [tokenize_csi hstarts hcsi] at h
    obtain ⟨rest, hrest, rfl⟩ := Option.map_eq_some_iff.mp h
    have hlonger := parseCsi_append hstarts hcsi more
    rw [cons_append] at hlonger
    rw [← hsame] at hstarts
    rw [cons_append, tokenize_csi hstarts hlonger, ih hrest, Option.map_map]
    rfl
  | case4 code tail hcontrol hstarts ih =>
    rw [tokenize_control hstarts hcontrol] at h
    obtain ⟨rest, hrest, rfl⟩ := Option.map_eq_some_iff.mp h
    rw [← hsame] at hstarts
    rw [cons_append, tokenize_control hstarts hcontrol, ih hrest,
      Option.map_map]
    rfl
  | case5 code tail hcursor hcontrol hstarts =>
    rw [tokenize, if_neg hstarts, if_neg hcursor, if_pos hcontrol] at h
    cases h
  | case6 code tail hcursor hcontrol hstarts ih =>
    rw [tokenize_print hstarts hcursor hcontrol] at h
    obtain ⟨rest, hrest, rfl⟩ := Option.map_eq_some_iff.mp h
    have hne := cons_ne_nil code tail
    have hcode := codePoint_append hne hlow
    have hlength : charLength ((code :: tail) ++ more) =
        charLength (code :: tail) := by
      rw [charLength, charLength, hcode]
    rw [← hsame] at hstarts
    rw [cons_append] at hcode hlength
    rw [cons_append, tokenize_print hstarts hcursor hcontrol, hcode, hlength, ←
      cons_append, drop_append_of_le_length (charLength_le hne), ih hrest,
      Option.map_map]
    rfl

variable {Attr Cell : Type} {rows cols : Nat}

/-- The screen after the text has been written to it. -/
def writeText (emulator : Emulator Attr Cell) (text : JsStr)
    (s : Screen Attr Cell rows cols) : Option (Screen Attr Cell rows cols) :=
  (textOperations text).map (s.run emulator)

end NiceTerm.Gate
