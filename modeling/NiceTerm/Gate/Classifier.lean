/-
The classifier of DEC 2026 frames: a scan over the text between the two
boundaries that accepts printable text, harmless controls and a few control
sequences, and notes whether they clear the screen before anything is printed.
-/
import NiceTerm.Lib.JsString

namespace NiceTerm.Gate

open JsString

inductive SuccessorProof
  | selfContainedReplacement
  | none
deriving DecidableEq, Repr

inductive Dec2026FrameClassification
  | replaceableVisual (bytes : Nat) (successorProof : SuccessorProof)
  | stateful (bytes : Nat) (reason : String)
  | unknown (bytes : Nat) (reason : String)
deriving DecidableEq, Repr

/-- A control sequence; `rest` is the text behind it. -/
structure Csi where
  params : JsStr
  intermediates : JsStr
  final : UInt16
  raw : JsStr
  rest : JsStr
deriving DecidableEq, Repr

/-- The loop of `parseCsi`; `consumed` is the sequence up to the cursor. -/
def parseCsiLoop (consumed params intermediates : JsStr) :
    JsStr → Option Csi
  | [] => none
  | code :: rest =>
    if 0x30 ≤ code ∧ code ≤ 0x3f ∧ intermediates = [] then
      parseCsiLoop (consumed ++ [code]) (params ++ [code]) intermediates rest
    else if 0x20 ≤ code ∧ code ≤ 0x2f then
      parseCsiLoop (consumed ++ [code]) params (intermediates ++ [code]) rest
    else if 0x40 ≤ code ∧ code ≤ 0x7e then
      some ⟨params, intermediates, code, consumed ++ [code], rest⟩
    else none

/-- `parseCsi`, with `text` starting at the index. -/
def parseCsi (text : JsStr) : Option Csi :=
  let start := if text.head? = some 0x9b then 1 else 2
  parseCsiLoop (text.take start) [] [] (text.drop start)

/-- `params.split(";")`, empty for no parameters. -/
def numericParams : JsStr → List JsStr
  | [] => []
  | params => params.splitOn 0x3b

/-- One of `?`, `>`, `<` and `=`. -/
def hasPrivateMarker (params : JsStr) : Bool :=
  params.any fun code =>
    code == 0x3f || code == 0x3e || code == 0x3c || code == 0x3d

def isDigit (code : UInt16) : Bool :=
  0x30 ≤ code && code ≤ 0x39

/-- The parameter is empty or a number. -/
def isNumeric (param : JsStr) : Bool :=
  param.all isDigit

variable (final : UInt16)

/-- `c` and `n`. -/
def isDeviceReport : Bool :=
  final == 0x63 || final == 0x6e

/-- The finals of the cursor sequences: `A` to `H`, `f`, `d` and the
backquote. -/
def isCursorFinal : Bool :=
  (0x41 ≤ final && final ≤ 0x48) || final == 0x66 || final == 0x64 ||
    final == 0x60

def isAllowedCursorCsi (params : JsStr) : Bool :=
  isCursorFinal final && !hasPrivateMarker params &&
    (numericParams params).all isNumeric

/-- `J` and `K`, but not the `J` that clears the scrollback. -/
def isAllowedEraseCsi (params : JsStr) : Bool :=
  (final == 0x4a || final == 0x4b) && !hasPrivateMarker params &&
    (numericParams params).all isNumeric &&
    !(final == 0x4a && (numericParams params).any (· == [0x33]))

/-- `0m` with nothing before it. -/
def isSgrReset (csi : Csi) : Bool :=
  csi.final == 0x6d && csi.params == [0x30] && [0x30, 0x6d].isSuffixOf csi.raw

/-- `2J` -/
def isEd2 (csi : Csi) : Bool :=
  csi.final == 0x4a && csi.params == [0x32]

/-- `H`, `1;1H` and `1;1f` -/
def isHome (csi : Csi) : Bool :=
  if csi.final = 0x48 then
    csi.params == [] || csi.params == [0x31, 0x3b, 0x31]
  else csi.final == 0x66 && csi.params == [0x31, 0x3b, 0x31]

inductive CsiClass
  | allowed
  | stateful (reason : String)
  | unknown (reason : String)
deriving DecidableEq, Repr

def classifyCsi (csi : Csi) : CsiClass :=
  if csi.intermediates ≠ [] then .unknown "csi-intermediate"
  else if isDeviceReport csi.final then .stateful "device-report"
  else if csi.final = 0x68 ∨ csi.final = 0x6c then .stateful "mode-change"
  else if csi.final = 0x72 then .stateful "scroll-region"
  else if csi.final = 0x40 ∨ csi.final = 0x4c ∨ csi.final = 0x4d ∨
      csi.final = 0x50 then .stateful "insert-delete"
  else if csi.final = 0x53 ∨ csi.final = 0x54 then .stateful "scroll-up-down"
  else if csi.final = 0x6d then
    if hasPrivateMarker csi.params then .unknown "private-sgr" else .allowed
  else if isAllowedCursorCsi csi.final csi.params then .allowed
  else if csi.final = 0x4a ∧ (numericParams csi.params).any (· == [0x33]) then
    .stateful "clear-scrollback"
  else if isAllowedEraseCsi csi.final csi.params then .allowed
  else
    .unknown ("unknown-csi-" ++ String.singleton (Char.ofNat csi.final.toNat))

/-- What the scan has seen so far. -/
structure Seen where
  resetBeforeEd2 : Bool := false
  ed2AfterReset : Bool := false
  homeBeforePrintable : Bool := false
  printable : Bool := false
deriving DecidableEq, Repr

/-- The flags after an allowed control sequence. -/
def Seen.csi (csi : Csi) (seen : Seen) : Seen :=
  if seen.printable then seen
  else
    let resetBeforeEd2 := seen.resetBeforeEd2 || isSgrReset csi
    { seen with
      resetBeforeEd2
      ed2AfterReset := seen.ed2AfterReset || (resetBeforeEd2 && isEd2 csi)
      homeBeforePrintable := seen.homeBeforePrintable || isHome csi }

/-- What follows ESC when it starts no control sequence. -/
def classifyEscape (bytes : Nat) (next : Option UInt16) :
    Dec2026FrameClassification :=
  if next = some 0x5d then .stateful bytes "osc"
  else if next = some 0x50 then .stateful bytes "dcs"
  else if next = some 0x5f then .stateful bytes "apc"
  else if next = some 0x5e then .stateful bytes "pm"
  else if next = some 0x58 then .stateful bytes "sos"
  else if next = some 0x63 then .stateful bytes "ris"
  else .unknown bytes "unknown-esc"

/-- A control character that ends the scan, if it is one; CR, TAB and BS do
not. -/
def classifyControl (bytes : Nat) (code : UInt16) :
    Option Dec2026FrameClassification :=
  if code = 0x9d then some (.stateful bytes "c1-osc")
  else if code = 0x90 then some (.stateful bytes "c1-dcs")
  else if code = 0x9f then some (.stateful bytes "c1-apc")
  else if code = 0x9e then some (.stateful bytes "c1-pm")
  else if code = 0x98 then some (.stateful bytes "c1-sos")
  else if code = 0x0d ∨ code = 0x09 ∨ code = 0x08 then none
  else if code = 0x0a then some (.stateful bytes "lf")
  else if code = 0x07 then some (.stateful bytes "bel")
  else if code < 0x20 ∨ code = 0x7f ∨ (0x80 ≤ code ∧ code ≤ 0x9f) then
    some (.unknown bytes "unknown-control")
  else none

theorem length_parseCsiLoop {consumed params intermediates text : JsStr}
    {csi : Csi}
    (h : parseCsiLoop consumed params intermediates text = some csi) :
    csi.rest.length < text.length := by
  induction text generalizing consumed params intermediates with
  | nil => exact absurd h (by simp [parseCsiLoop])
  | cons code rest ih =>
    unfold parseCsiLoop at h
    split_ifs at h
    · exact Nat.lt_succ_of_lt (ih h)
    · exact Nat.lt_succ_of_lt (ih h)
    · rw [← Option.some.inj h]
      exact Nat.lt_succ_self _

theorem length_parseCsi {text : JsStr} {csi : Csi}
    (h : parseCsi text = some csi) : csi.rest.length < text.length := by
  have hloop := length_parseCsiLoop h
  rw [List.length_drop] at hloop
  omega

/-- The text starts with a control sequence introducer. -/
def startsCsi (text : JsStr) : Bool :=
  [0x1b, 0x5b].isPrefixOf text || text.head? == some 0x9b

/-- The loop of `classifyDec2026Frame`, on the content from `index` on. -/
def classifyLoop (bytes : Nat) (content : JsStr) (seen : Seen) :
    Dec2026FrameClassification :=
  match _hcontent : content with
  | [] =>
    .replaceableVisual bytes (if seen.resetBeforeEd2 && seen.ed2AfterReset &&
          seen.homeBeforePrintable then .selfContainedReplacement
      else .none)
  | code :: tail =>
    if startsCsi content then
      match _hcsi : parseCsi content with
      | none =>
        .unknown bytes
          (if code = 0x1b then "malformed-csi" else "malformed-c1-csi")
      | some csi =>
        match classifyCsi csi with
        | .allowed => classifyLoop bytes csi.rest (seen.csi csi)
        | .stateful reason => .stateful bytes reason
        | .unknown reason => .unknown bytes reason
    else if code = 0x1b then classifyEscape bytes tail.head?
    else
      match classifyControl bytes code with
      | some classification => classification
      | none =>
        if code = 0x0d ∨ code = 0x09 ∨ code = 0x08 then
          classifyLoop bytes tail seen
        else
          classifyLoop bytes (content.drop (charLength content))
            { seen with printable := true }
termination_by content.length
decreasing_by
  · have hshorter := length_parseCsi _hcsi
    simpa [_hcontent] using hshorter
  · simp
  · have hpos := charLength_pos (code :: tail)
    simp only [_hcontent, List.length_drop, List.length_cons]
    omega

def classifyDec2026Frame (content : JsStr) (frameBytes : Nat) :
    Dec2026FrameClassification :=
  classifyLoop frameBytes content {}

end NiceTerm.Gate
