/-
What a telnet session writes to its socket for the commands of the user: typed
bytes and window sizes.  The session is not in raw mode and no file transfer
is active.
-/
import NiceTerm.Lib.Nvt
import NiceTerm.Lib.RustStr
import NiceTerm.Lib.Utf8

namespace NiceTerm.Telnet

open List Nvt
open RustStr (Str)

inductive TelnetEnterMode where
  | crlf
  | cr
  | lf
deriving Repr, DecidableEq

structure TelnetSessionConfig where
  backspaceMode : Str := "del".toList
  rawTcpCli : Bool := false
  enterMode : TelnetEnterMode := .cr
  forceCharacterAtATime : Bool := false
  sendNaws : Bool := true
deriving Repr, DecidableEq

/-- An encoding of `encoding_rs`. -/
structure Encoding where
  isUtf8 : Bool
  encode : List Char → Bytes

inductive SessionCommand where
  | write (data : Bytes)
  | resize (cols rows : Nat)
deriving Repr, DecidableEq

def optNaws : UInt8 := 31

def buildNaws (cols rows : Nat) : Bytes :=
  [iac, sb, optNaws, UInt8.ofNat (cols / 256), UInt8.ofNat (cols % 256),
    UInt8.ofNat (rows / 256), UInt8.ofNat (rows % 256), iac, se]

def maybeBuildNaws (cols rows : Nat) (config : TelnetSessionConfig) :
    Option Bytes :=
  if config.rawTcpCli || !config.sendNaws then none
  else some (buildNaws cols rows)

def enterBytes : TelnetEnterMode → Bytes
  | .crlf => [13, 10]
  | .cr => [13]
  | .lf => [10]

def normalizeEnterBytes (data : Bytes) (enterMode : TelnetEnterMode) : Bytes :=
  data.flatMap fun byte => if byte = 13 then enterBytes enterMode else [byte]

def remapDelToBs (data : Bytes) : Bytes :=
  data.map fun byte => if byte = 0x7f then 0x08 else byte

def splitWriteChunks (data : Bytes) (forceCharacterAtATime : Bool) :
    List Bytes :=
  if !forceCharacterAtATime then [data]
  else (Utf8.decodeLossy data).map String.utf8EncodeChar

/-- Up to a final byte of an escape sequence, and what is behind it. -/
def throughFinal : Bytes → Bytes × Bytes
  | [] => ([], [])
  | byte :: rest =>
    if 0x40 ≤ byte && byte ≤ 0x7e then ([byte], rest)
    else (byte :: (throughFinal rest).1, (throughFinal rest).2)

/-- `ansi_sequence_end`, on the bytes behind ESC. -/
def ansiSequence : Bytes → Bytes × Bytes
  | [] => ([], [])
  | byte :: rest =>
    if byte = 0x5b || byte = 0x5d || byte = 0x28 || byte = 0x29 ||
        byte = 0x23 then
      (byte :: (throughFinal rest).1, (throughFinal rest).2)
    else ([byte], rest)

theorem throughFinal_length (bytes : Bytes) :
    (throughFinal bytes).2.length ≤ bytes.length := by
  induction bytes with
  | nil => exact Nat.le_refl 0
  | cons byte rest ih =>
    rw [throughFinal]
    split
    · simp
    · exact Nat.le_succ_of_le ih

theorem ansiSequence_length (bytes : Bytes) :
    (ansiSequence bytes).2.length ≤ bytes.length := by
  cases bytes with
  | nil => exact Nat.le_refl 0
  | cons byte rest =>
    rw [ansiSequence]
    split
    · exact Nat.le_succ_of_le (throughFinal_length rest)
    · simp

def isAscii (byte : UInt8) : Bool := byte < 0x80

/-- The loop of `encode_terminal_input`: escape sequences and ASCII are kept,
what is between them is encoded. -/
def encodeInput (target : Encoding) : Bytes → Bytes
  | [] => []
  | byte :: rest =>
    if byte = 0x1b then
      byte :: (ansiSequence rest).1 ++ encodeInput target (ansiSequence rest).2
    else if isAscii byte then byte :: encodeInput target rest
    else
      target.encode (Utf8.decodeLossy
          (byte :: rest.takeWhile fun next => !isAscii next)) ++
        encodeInput target (rest.dropWhile fun next => !isAscii next)
termination_by bytes => bytes.length
decreasing_by
  all_goals simp only [length_cons]
  · have := ansiSequence_length rest
    omega
  · omega
  · have := (dropWhile_sublist (l := rest)
      fun next => !isAscii next).length_le
    omega

def encodeTerminalInput (target : Encoding) (data : Bytes) : Bytes :=
  if target.isUtf8 then data else encodeInput target data

variable (config : TelnetSessionConfig) (target : Encoding)

def inputBytes (data : Bytes) : Bytes :=
  encodeTerminalInput target (normalizeEnterBytes
    (if config.backspaceMode = "ctrl_h".toList then remapDelToBs data
      else data) config.enterMode)

/-- The chunks a command writes to the socket. -/
def writtenChunks : SessionCommand → List Bytes
  | .write data =>
    splitWriteChunks (inputBytes config target data)
      config.forceCharacterAtATime
  | .resize cols rows =>
    (maybeBuildNaws (cols % 65536) (rows % 65536) config).toList

def socketBytes (commands : List SessionCommand) : Bytes :=
  (commands.flatMap (writtenChunks config target)).flatten

/-- The input of a command, as it is encoded. -/
def typedBytes : SessionCommand → Bytes
  | .write data => inputBytes config target data
  | .resize _ _ => []

/-- The window size a command announces. -/
def sentSize : SessionCommand → Option (Nat × Nat)
  | .write _ => none
  | .resize cols rows => if config.sendNaws then some (cols, rows) else none

/-- A window size in the content of a subnegotiation. -/
def nawsSize : Bytes → Option (Nat × Nat)
  | [option, colsHigh, colsLow, rowsHigh, rowsLow] =>
    if option = optNaws then
      some (256 * colsHigh.toNat + colsLow.toNat,
        256 * rowsHigh.toNat + rowsLow.toNat)
    else none
  | _ => none

def sizes (events : List Event) : List (Nat × Nat) :=
  (contents events).filterMap nawsSize

/-- The receiver has the typed bytes and the window sizes. -/
def ReceivedAsSent (commands : List SessionCommand) : Prop :=
  visible (run .data (socketBytes config target commands)).2 =
      commands.flatMap (typedBytes config target) ∧
    sizes (run .data (socketBytes config target commands)).2 =
      commands.filterMap (sentSize config)

/-- A size whose four bytes can be sent as they are. -/
def PlainSize (cols rows : Nat) : Prop :=
  (cols < 65536 ∧ rows < 65536) ∧
    cols / 256 ≠ 255 ∧ cols % 256 ≠ 255 ∧ rows / 256 ≠ 255 ∧ rows % 256 ≠ 255

/-- A command whose bytes need no escapes and are not changed by the split. -/
def Plain : SessionCommand → Prop
  | .write data =>
    if config.forceCharacterAtATime then
      ∃ text, inputBytes config target data = Utf8.encode text
    else iac ∉ inputBytes config target data
  | .resize cols rows => config.sendNaws = true → PlainSize cols rows

/-! What a receiver makes of the bytes a session writes.  Unescaped bytes 255 cost
the receiver more than was sent for them, so it cannot have received all. -/

variable (config : TelnetSessionConfig) (target : Encoding)

theorem socketBytes_cons (command : SessionCommand)
    (commands : List SessionCommand) :
    socketBytes config target (command :: commands) =
      (writtenChunks config target command).flatten ++
        socketBytes config target commands := by
  simp only [socketBytes, flatMap_cons, flatten_append]

theorem split_unforced (data : Bytes) :
    (splitWriteChunks data false).flatten = data := by
  simp [splitWriteChunks]

theorem split_forced (data : Bytes) :
    (splitWriteChunks data true).flatten =
      Utf8.encode (Utf8.decodeLossy data) := by
  simp [splitWriteChunks, Utf8.encode, flatMap_def]

/-- A plain size message is one subnegotiation. -/
theorem run_naws {a b c d : UInt8} (ha : a ≠ iac) (hb : b ≠ iac)
    (hc : c ≠ iac) (hd : d ≠ iac) :
    run .data [iac, sb, optNaws, a, b, c, d, iac, se] =
      (.data, [.subnegotiation [optNaws, a, b, c, d]]) := by
  have hsub : ∀ {content : Bytes} {byte : UInt8}, byte ≠ iac →
      step (.sub content) byte = (.sub (content ++ [byte]), none) :=
    fun h => if_neg h
  have hopen : step .data iac = (.command, none) := rfl
  have hbegin : step .command sb = (.sub [], none) := rfl
  have hclose : ∀ content : Bytes, step (.sub content) iac =
      (.subCommand content, none) := fun _ => rfl
  have hend : ∀ content : Bytes, step (.subCommand content) se =
      (.data, some (.subnegotiation content)) := fun _ => rfl
  have hoption : optNaws ≠ iac := by decide
  simp only [run, hopen, hbegin, hsub hoption, hsub ha, hsub hb, hsub hc,
    hsub hd, hclose, hend]
  rfl

theorem toNat_byte (n : Nat) : (UInt8.ofNat n).toNat = n % 256 :=
  UInt8.toNat_ofNat'

theorem ofNat_ne_iac {n : Nat} (hn : n < 256) (h : n ≠ 255) :
    UInt8.ofNat n ≠ iac := by
  intro heq
  have hnat := congrArg UInt8.toNat heq
  rw [toNat_byte] at hnat
  change n % 256 = 255 at hnat
  omega

/-- The content of the message for a size. -/
def sizeContent (cols rows : Nat) : Bytes :=
  [optNaws, UInt8.ofNat (cols / 256), UInt8.ofNat (cols % 256),
    UInt8.ofNat (rows / 256), UInt8.ofNat (rows % 256)]

theorem nawsSize_content {cols rows : Nat} (hcols : cols < 65536)
    (hrows : rows < 65536) :
    nawsSize (sizeContent cols rows) = some (cols, rows) := by
  simp only [nawsSize, sizeContent, if_true, toNat_byte, Option.some.injEq,
    Prod.mk.injEq]
  omega

theorem run_buildNaws {cols rows : Nat} (h : PlainSize cols rows) :
    run .data (buildNaws (cols % 65536) (rows % 65536)) =
      (.data, [.subnegotiation (sizeContent cols rows)]) := by
  obtain ⟨⟨hcols, hrows⟩, h1, h2, h3, h4⟩ := h
  rw [Nat.mod_eq_of_lt hcols, Nat.mod_eq_of_lt hrows]
  exact run_naws (ofNat_ne_iac (by omega) h1) (ofNat_ne_iac (by omega) h2)
    (ofNat_ne_iac (by omega) h3) (ofNat_ne_iac (by omega) h4)

/-- A size in a content without IAC is a plain one. -/
theorem plainSize_of_content {content : Bytes} {cols rows : Nat}
    (hsize : nawsSize content = some (cols, rows)) (hplain : iac ∉ content) :
    PlainSize cols rows := by
  have hbyte : ∀ byte ∈ content, byte.toNat < 255 := by
    intro byte hmem
    have hlt := byte.toNat_lt
    have hne : byte.toNat ≠ 255 := by
      intro heq
      apply hplain
      have : byte = iac := UInt8.toNat_inj.mp heq
      exact this ▸ hmem
    omega
  unfold nawsSize at hsize
  split at hsize
  · next option a b c d =>
      split at hsize
      · simp only [Option.some.injEq, Prod.mk.injEq] at hsize
        have ha := hbyte a (by simp)
        have hb := hbyte b (by simp)
        have hc := hbyte c (by simp)
        have hd := hbyte d (by simp)
        obtain ⟨rfl, rfl⟩ := hsize
        refine ⟨⟨by omega, by omega⟩, ?_, ?_, ?_, ?_⟩ <;> omega
      · cases hsize
  · cases hsize

theorem sizes_append (front back : List Event) :
    sizes (front ++ back) = sizes front ++ sizes back := by
  simp only [sizes, contents_append, filterMap_append]

theorem sizes_map_data (bytes : Bytes) : sizes (bytes.map Event.data) = [] := by
  simp [sizes]

/-- The bytes of a plain command come to the receiver as they were meant. -/
theorem run_plain_command (hraw : config.rawTcpCli = false)
    {command : SessionCommand} (h : Plain config target command) :
    ∃ events, run .data (writtenChunks config target command).flatten =
          (.data, events) ∧
        visible events = typedBytes config target command ∧
        sizes events = (sentSize config command).toList := by
  cases command with
  | write data =>
    have hflatten : (splitWriteChunks (inputBytes config target data)
        config.forceCharacterAtATime).flatten =
          inputBytes config target data ∧
        iac ∉ inputBytes config target data := by
      simp only [Plain] at h
      cases hforce : config.forceCharacterAtATime with
      | true =>
        rw [hforce, if_pos rfl] at h
        rw [split_forced, (Utf8.encode_decodeLossy_iff _).mpr h]
        obtain ⟨text, htext⟩ := h
        exact ⟨rfl, htext ▸ Utf8.encode_ne_255 text⟩
      | false =>
        rw [hforce] at h
        exact ⟨split_unforced _, by simpa using h⟩
    refine ⟨(inputBytes config target data).map Event.data, ?_,
      visible_map_data _, sizes_map_data _⟩
    rw [writtenChunks, hflatten.1]
    exact run_plain hflatten.2
  | resize cols rows =>
    by_cases hnaws : config.sendNaws = true
    · refine ⟨[.subnegotiation (sizeContent cols rows)], ?_, rfl, ?_⟩
      · simp only [writtenChunks, maybeBuildNaws, hraw, hnaws, Bool.not_true,
          Bool.or_false, Bool.false_eq_true, if_false, Option.toList_some,
          flatten_cons, flatten_nil, append_nil]
        exact run_buildNaws (h hnaws)
      · have hsize := nawsSize_content (h hnaws).1.1 (h hnaws).1.2
        simp [sizes, contents, Event.content?, hsize, sentSize, hnaws]
    · refine ⟨[], ?_, rfl, ?_⟩
      · simp only [Bool.not_eq_true] at hnaws
        simp [writtenChunks, maybeBuildNaws, hnaws, run]
      · simp [sizes, contents, sentSize, hnaws]

theorem receivedAsSent_of_plain (hraw : config.rawTcpCli = false)
    {commands : List SessionCommand}
    (h : ∀ command ∈ commands, Plain config target command) :
    (run .data (socketBytes config target commands)).1 = .data ∧
      ReceivedAsSent config target commands := by
  induction commands with
  | nil => exact ⟨rfl, rfl, rfl⟩
  | cons command rest ih =>
    obtain ⟨hstate, hbytes, hsizes⟩ := ih
      fun other hmem => h other (mem_cons_of_mem command hmem)
    obtain ⟨events, hrun, hvisible, hsize⟩ := run_plain_command config target
      hraw (h command mem_cons_self)
    rw [ReceivedAsSent, socketBytes_cons, run_append, hrun]
    refine ⟨hstate, ?_, ?_⟩
    · rw [visible_append, hvisible, hbytes, flatMap_cons]
    · rw [sizes_append, hsize, hsizes, filterMap_cons]
      cases sentSize config command <;> rfl

theorem socketBytes_length (hraw : config.rawTcpCli = false)
    (hforce : config.forceCharacterAtATime = false)
    (commands : List SessionCommand) :
    (socketBytes config target commands).length =
      (commands.flatMap (typedBytes config target)).length +
        9 * (commands.filterMap (sentSize config)).length := by
  induction commands with
  | nil => rfl
  | cons command rest ih =>
    rw [socketBytes_cons, length_append, ih, flatMap_cons,
      length_append, filterMap_cons]
    cases command with
    | write data =>
      rw [writtenChunks, hforce, split_unforced]
      simp only [typedBytes, sentSize]
      omega
    | resize cols rows =>
      cases hnaws : config.sendNaws with
      | true =>
        simp only [writtenChunks, maybeBuildNaws, buildNaws, hraw, hnaws,
          typedBytes, sentSize, Bool.not_true, Bool.or_false,
          Bool.false_eq_true, if_false, if_true, Option.toList_some,
          flatten_cons, flatten_nil, append_nil, length_cons, length_nil]
        omega
      | false =>
        simp [writtenChunks, maybeBuildNaws, hnaws, typedBytes, sentSize]

theorem contentPrice_sizes (received : List Bytes) :
    9 * (received.filterMap nawsSize).length ≤ contentPrice received ∧
      (contentPrice received ≤ 9 * (received.filterMap nawsSize).length →
        ∀ content ∈ received, ∀ size, nawsSize content = some size →
          iac ∉ content) := by
  induction received with
  | nil => exact ⟨Nat.zero_le _, fun _ content h => by cases h⟩
  | cons content rest ih =>
    obtain ⟨hleast, hexact⟩ := ih
    cases hsize : nawsSize content with
    | none =>
      rw [filterMap_cons_none hsize, contentPrice]
      refine ⟨by omega, fun h other hmem size hother => ?_⟩
      rcases mem_cons.mp hmem with rfl | hmem
      · rw [hsize] at hother
        cases hother
      · exact hexact (by omega) other hmem size hother
    | some size =>
      have hlength : content.length = 5 := by
        unfold nawsSize at hsize
        split at hsize
        · rfl
        · cases hsize
      rw [filterMap_cons_some hsize, contentPrice, width, length_cons, hlength]
      refine ⟨by omega, fun h other hmem size hother => ?_⟩
      rcases mem_cons.mp hmem with rfl | hmem
      · exact count_eq_zero.mp (by omega)
      · exact hexact (by omega) other hmem size hother

/-- A window size that was sent is announced by its command. -/
theorem sentSize_resize {cols rows : Nat} (hnaws : config.sendNaws = true) :
    sentSize config (.resize cols rows) = some (cols, rows) :=
  if_pos hnaws

/-- Without the split, whatever arrives as it was sent needed no escapes. -/
theorem plain_of_receivedAsSent (hraw : config.rawTcpCli = false)
    (hforce : config.forceCharacterAtATime = false)
    {commands : List SessionCommand}
    (h : ReceivedAsSent config target commands) :
    ∀ command ∈ commands, Plain config target command := by
  obtain ⟨hbytes, hsizes⟩ := h
  have hprice := run_price .data (socketBytes config target commands)
  have hvisible := width_visible_le
    (run .data (socketBytes config target commands)).2
  have hcontents := contentPrice_sizes (contents
    (run .data (socketBytes config target commands)).2)
  change (contents _).filterMap nawsSize = _ at hsizes
  rw [socketBytes_length config target hraw hforce] at hprice
  rw [hbytes, width] at hvisible
  rw [hsizes] at hcontents
  simp only [State.paid] at hprice
  have htyped : (commands.flatMap (typedBytes config target)).count iac =
      0 := by omega
  have hnone := hcontents.2 (by omega)
  intro command hmem
  cases command with
  | write data =>
    simp only [Plain, hforce, Bool.false_eq_true, if_false]
    intro hiac
    apply count_eq_zero.mp htyped
    exact mem_flatMap.mpr ⟨.write data, hmem, hiac⟩
  | resize cols rows =>
    intro hnaws
    have hsent : (cols, rows) ∈ commands.filterMap (sentSize config) :=
      mem_filterMap.mpr ⟨_, hmem, sentSize_resize config hnaws⟩
    rw [← hsizes] at hsent
    obtain ⟨content, hcontent, hsize⟩ := mem_filterMap.mp hsent
    exact plainSize_of_content hsize (hnone content hcontent _ hsize)

end NiceTerm.Telnet
