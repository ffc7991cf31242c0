/-
Writing a character at a time: the bytes are valid UTF-8 and hold no IAC, so
only window sizes can confuse the receiver.  One that does is never received,
and no later one makes up for it.
-/
import NiceTerm.Telnet.Writing

namespace NiceTerm.Telnet

open List Nvt Option

variable (config : TelnetSessionConfig) (target : Encoding)

theorem filterMap_cons_length {α β : Type} (f : α → Option β) (a : α)
    (rest : List α) :
    ((a :: rest).filterMap f).length =
      (f a).toList.length + (rest.filterMap f).length := by
  rw [filterMap_cons]
  cases f a with
  | none => exact (Nat.zero_add _).symm
  | some b => exact Nat.add_comm _ 1

/-- Two readings of a list agree if one is never shorter than the other. -/
theorem flatMap_injective_of_length {α β : Type} {f g : α → List β}
    (hle : ∀ a, (g a).length ≤ (f a).length) {list : List α}
    (h : list.flatMap f = list.flatMap g) : ∀ a ∈ list, f a = g a := by
  have hwhole : ∀ rest : List α,
      (rest.flatMap g).length ≤ (rest.flatMap f).length := by
    intro rest
    induction rest with
    | nil => exact Nat.le_refl 0
    | cons a rest ih =>
      have hfirst := hle a
      simp only [flatMap_cons, length_append]
      omega
  induction list with
  | nil =>
    intro a hmem
    cases hmem
  | cons first rest ih =>
    simp only [flatMap_cons] at h
    have hlength := congrArg List.length h
    simp only [length_append] at hlength
    have hfirst := hle first
    have hrest := hwhole rest
    obtain ⟨heq, htail⟩ := append_inj h (by omega)
    intro a hmem
    rcases mem_cons.mp hmem with rfl | hmem
    · exact heq
    · exact ih htail a hmem

/-- How far a receiver is in a message that may be a window size. -/
def progress : State → Nat
  | .data => 0
  | .command => 1
  | .option _ => 0
  | .sub content => if content.length ≤ 5 then 2 + content.length else 0
  | .subCommand content => if content.length ≤ 5 then 3 + content.length else 0

/-- Between two commands of the session, no IAC is open. -/
def Settled : State → Prop
  | .data | .sub _ => True
  | _ => False

theorem progress_le (s : State) : progress s ≤ 8 := by
  cases s <;> simp only [progress] <;> (try split) <;> omega

theorem sizes_subnegotiation (content : Bytes) :
    (sizes [.subnegotiation content]).length = 0 ∨ content.length = 5 := by
  by_cases hlength : content.length = 5
  · exact .inr hlength
  · left
    have hnone : nawsSize content = none := by
      unfold nawsSize
      split
      · exact absurd rfl hlength
      · rfl
    simp [sizes, contents, Event.content?, hnone]

theorem sizes_length_le_one (event : Option Event) :
    (sizes event.toList).length ≤ 1 := by
  cases event with
  | none => simp [sizes, contents]
  | some event =>
    refine (length_filterMap_le _ _).trans ?_
    exact length_filterMap_le _ [event]

@[simp] theorem sizes_nil : sizes [] = [] := rfl

@[simp] theorem sizes_data (byte : UInt8) : sizes [.data byte] = [] := rfl

@[simp] theorem sizes_negotiate (command option : UInt8) :
    sizes [.negotiate command option] = [] := rfl

/-- Every size takes nine steps. -/
theorem step_progress (s : State) (byte : UInt8) :
    progress (step s byte).1 + 9 * (sizes (step s byte).2.toList).length ≤
      progress s + 1 := by
  cases s with
  | data =>
    by_cases h : byte = iac
    · simp [step, h, progress]
    · simp [step, h, progress]
  | command =>
    by_cases h : byte = iac
    · simp [step, h, progress]
    · by_cases hneg : isNegotiation byte = true
      · simp [step, h, hneg, progress]
      · by_cases hsb : byte = sb
        · subst hsb
          decide
        · simp [step, h, hneg, hsb, progress]
  | option command => simp [step, progress]
  | sub content =>
    by_cases h : byte = iac
    · simp only [step, h, if_true, toList_none, progress, sizes_nil,
        length_nil]
      split <;> omega
    · simp only [step, h, if_false, toList_none, progress, sizes_nil,
        length_append, length_singleton, length_nil]
      split <;> split <;> omega
  | subCommand content =>
    by_cases hse : byte = se
    · have hone := sizes_length_le_one (some (.subnegotiation content))
      have hfive := sizes_subnegotiation content
      simp only [step, hse, if_true, toList_some, progress] at hone ⊢
      rcases hfive with hnone | hfive
      · omega
      · rw [if_pos (by omega)]
        omega
    · by_cases h : byte = iac
      · have hne : iac ≠ se := by decide
        simp only [step, h, hne, if_false, if_true, toList_none, sizes_nil,
          length_nil, progress, length_append, length_singleton]
        split <;> split <;> omega
      · simp only [step, hse, h, if_false, toList_none, progress,
          sizes_nil, length_nil]
        split <;> omega

theorem run_progress (s : State) (bytes : Bytes) :
    progress (run s bytes).1 + 9 * (sizes (run s bytes).2).length ≤
      progress s + bytes.length := by
  induction bytes generalizing s with
  | nil => simp [run, sizes, contents]
  | cons byte rest ih =>
    have hstep := step_progress s byte
    have hrest := ih (step s byte).1
    simp only [run, sizes_append, length_append, length_cons]
    omega

/-- Bytes without IAC open and close nothing. -/
theorem run_settled {s : State} (hs : Settled s) {bytes : Bytes}
    (h : iac ∉ bytes) :
    Settled (run s bytes).1 ∧ sizes (run s bytes).2 = [] := by
  induction bytes generalizing s with
  | nil => exact ⟨hs, rfl⟩
  | cons byte rest ih =>
    simp only [mem_cons, not_or] at h
    have hstep : Settled (step s byte).1 ∧
        sizes (step s byte).2.toList = [] := by
      cases s with
      | data =>
        rw [show step .data byte = _ from if_neg (Ne.symm h.1)]
        exact ⟨trivial, rfl⟩
      | sub content =>
        rw [show step (.sub content) byte = _ from if_neg (Ne.symm h.1)]
        exact ⟨trivial, rfl⟩
      | command => exact hs.elim
      | option command => exact hs.elim
      | subCommand content => exact hs.elim
    obtain ⟨hsettled, hnone⟩ := ih hstep.1 h.2
    refine ⟨hsettled, ?_⟩
    rw [run, sizes_append, hstep.2, hnone, append_nil]

theorem settled_after_message (s : State) : Settled (run s [iac, se]).1 := by
  cases s with
  | data => exact trivial
  | command => exact trivial
  | option command => exact trivial
  | sub content => exact trivial
  | subCommand content => exact trivial

theorem run_message (s : State) (cols rows : Nat) :
    Settled (run s (buildNaws cols rows)).1 ∧
      (sizes (run s (buildNaws cols rows)).2).length ≤ 1 := by
  constructor
  · have hsplit : buildNaws cols rows = [iac, sb, optNaws,
        UInt8.ofNat (cols / 256), UInt8.ofNat (cols % 256),
        UInt8.ofNat (rows / 256), UInt8.ofNat (rows % 256)] ++ [iac, se] := rfl
    rw [hsplit, run_append]
    exact settled_after_message _
  · have hprogress := run_progress s (buildNaws cols rows)
    have hstart := progress_le s
    have hlength : (buildNaws cols rows).length = 9 := rfl
    omega

/-- An IAC among the bytes of a size costs a step. -/
theorem sizes_lost {content : Bytes} (hpos : 0 < content.length)
    (hlength : content.length ≤ 4) (next : UInt8) {rest : Bytes}
    (hrest : content.length + rest.length ≤ 5) :
    sizes (run (.sub content) (iac :: next :: rest)).2 = [] := by
  have hfirst : step (.sub content) iac = (.subCommand content, none) := rfl
  have hnext : progress (step (.subCommand content) next).1 ≤
        3 + content.length ∧
      sizes (step (.subCommand content) next).2.toList = [] := by
    by_cases hse : next = se
    · rcases sizes_subnegotiation content with hnone | hfive
      · simp only [step, hse, if_true, toList_some, progress]
        exact ⟨by omega, length_eq_zero_iff.mp hnone⟩
      · omega
    · by_cases h : next = iac
      · subst h
        have hne : iac ≠ se := by decide
        simp only [step, hne, if_false, if_true, progress, length_append,
          length_singleton]
        refine ⟨?_, rfl⟩
        split <;> omega
      · simp only [step, hse, h, if_false, progress]
        refine ⟨?_, rfl⟩
        split <;> omega
  have hprogress := run_progress (step (.subCommand content) next).1 rest
  apply length_eq_zero_iff.mp
  rw [run, hfirst, run]
  simp only [toList_none, nil_append, sizes_append, hnext.2]
  omega

theorem run_sub_cons {content : Bytes} {byte : UInt8} (h : byte ≠ iac)
    (rest : Bytes) :
    (run (.sub content) (byte :: rest)).2 =
      (run (.sub (content ++ [byte])) rest).2 := by
  rw [run, show step (.sub content) byte = _ from if_neg h]
  rfl

/-- A message with an IAC among its four bytes is not received as a size. -/
theorem message_lost {a b c d : UInt8}
    (h : a = iac ∨ b = iac ∨ c = iac ∨ d = iac) :
    sizes (run .data [iac, sb, optNaws, a, b, c, d, iac, se]).2 = [] := by
  have hopen : (run .data [iac, sb, optNaws, a, b, c, d, iac, se]).2 =
      (run (.sub [optNaws]) [a, b, c, d, iac, se]).2 := rfl
  rw [hopen]
  by_cases ha : a = iac
  · subst ha
    exact sizes_lost (by simp) (by simp) b (by simp)
  · rw [run_sub_cons ha]
    by_cases hb : b = iac
    · subst hb
      exact sizes_lost (by simp) (by simp) c (by simp)
    · rw [run_sub_cons hb]
      by_cases hc : c = iac
      · subst hc
        exact sizes_lost (by simp) (by simp) d (by simp)
      · rw [run_sub_cons hc]
        obtain rfl : d = iac := by
          rcases h with h | h | h | h
          · exact absurd h ha
          · exact absurd h hb
          · exact absurd h hc
          · exact h
        exact sizes_lost (by simp) (by simp) iac (by simp)

/-- From the receiver's data state, a size is received as a plain one or not
at all. -/
theorem run_size (cols rows : Nat) :
    (run .data (buildNaws (cols % 65536) (rows % 65536))).1 = .data ∧
        sizes (run .data (buildNaws (cols % 65536) (rows % 65536))).2 =
          [(cols % 65536, rows % 65536)] ∧
        PlainSize (cols % 65536) (rows % 65536) ∨
      sizes (run .data (buildNaws (cols % 65536) (rows % 65536))).2 = [] := by
  by_cases h : iac ∈ sizeContent (cols % 65536) (rows % 65536)
  · right
    apply message_lost
    simp only [sizeContent, mem_cons, not_mem_nil, or_false] at h
    have hoption : iac ≠ optNaws := by decide
    rcases h with h | h | h | h | h
    · exact absurd h hoption
    · exact .inl h.symm
    · exact .inr (.inl h.symm)
    · exact .inr (.inr (.inl h.symm))
    · exact .inr (.inr (.inr h.symm))
  · left
    have hcontent := nawsSize_content (Nat.mod_lt cols (by omega))
      (Nat.mod_lt rows (by omega))
    have hplain := plainSize_of_content hcontent h
    have hrun := run_buildNaws hplain
    rw [Nat.mod_mod, Nat.mod_mod] at hrun
    rw [hrun]
    refine ⟨rfl, ?_, hplain⟩
    simp [sizes, contents, Event.content?, hcontent]

/-- The bytes a command writes, a character at a time. -/
def characterBytes : SessionCommand → Bytes
  | .write data =>
    Utf8.encode (Utf8.decodeLossy (inputBytes config target data))
  | .resize _ _ => []

variable {config} (hraw : config.rawTcpCli = false)
  (hforce : config.forceCharacterAtATime = true)

include hforce in
theorem written_data (data : Bytes) :
    (writtenChunks config target (.write data)).flatten =
      characterBytes config target (.write data) := by
  rw [writtenChunks, hforce, split_forced, characterBytes]

include hraw in
theorem written_size (cols rows : Nat) :
    (writtenChunks config target (.resize cols rows)).flatten =
      if config.sendNaws then buildNaws (cols % 65536) (rows % 65536)
      else [] := by
  cases hnaws : config.sendNaws <;>
    simp [writtenChunks, maybeBuildNaws, hraw, hnaws]

include hraw hforce

theorem run_command {s : State} (hs : Settled s) (command : SessionCommand) :
    Settled (run s (writtenChunks config target command).flatten).1 ∧
      (sizes (run s (writtenChunks config target command).flatten).2).length ≤
        (sentSize config command).toList.length := by
  cases command with
  | write data =>
    rw [written_data target hforce]
    obtain ⟨hsettled, hnone⟩ := run_settled hs (Utf8.encode_ne_255
      (Utf8.decodeLossy (inputBytes config target data)))
    rw [characterBytes, hnone]
    exact ⟨hsettled, Nat.zero_le _⟩
  | resize cols rows =>
    rw [written_size target hraw]
    cases hnaws : config.sendNaws with
    | true =>
      rw [if_pos rfl, sentSize, hnaws, if_pos rfl]
      exact run_message s (cols % 65536) (rows % 65536)
    | false => exact ⟨hs, Nat.zero_le _⟩

theorem run_commands {s : State} (hs : Settled s)
    (commands : List SessionCommand) :
    (sizes (run s (socketBytes config target commands)).2).length ≤
      (commands.filterMap (sentSize config)).length := by
  induction commands generalizing s with
  | nil => exact Nat.le_refl 0
  | cons command rest ih =>
    obtain ⟨hsettled, hfirst⟩ := run_command target hraw hforce hs command
    have hrest := ih hsettled
    rw [socketBytes_cons, run_append, sizes_append, length_append,
      filterMap_cons_length]
    omega

variable {commands : List SessionCommand}

/-- If every size is received, all were plain. -/
theorem plain_sizes_of_received
    (h : sizes (run .data (socketBytes config target commands)).2 =
      commands.filterMap (sentSize config)) :
    ∀ cols rows, .resize cols rows ∈ commands → config.sendNaws = true →
      PlainSize cols rows := by
  induction commands with
  | nil =>
    intro cols rows hmem
    cases hmem
  | cons command rest ih =>
    rw [socketBytes_cons, run_append, sizes_append, filterMap_cons] at h
    cases command with
    | write data =>
      rw [written_data target hforce, characterBytes,
        run_plain (Utf8.encode_ne_255 _), sizes_map_data] at h
      intro cols rows hmem
      rcases mem_cons.mp hmem with heq | hmem
      · cases heq
      · exact ih h cols rows hmem
    | resize cols rows =>
      intro otherCols otherRows hmem hnaws
      rw [written_size target hraw, hnaws, if_pos rfl,
        sentSize_resize config hnaws] at h
      rcases run_size cols rows with ⟨hstate, hsize, hplain⟩ | hlost
      · rw [hstate, hsize] at h
        obtain ⟨hfirst, hrest⟩ := cons.inj h
        rcases mem_cons.mp hmem with heq | hmem
        · cases heq
          obtain ⟨hcols, hrows⟩ := Prod.mk.inj hfirst
          rw [← hcols, ← hrows]
          exact hplain
        · exact ih hrest otherCols otherRows hmem hnaws
      · -- the lost size cannot be made up for
        exfalso
        have hrest := run_commands target hraw hforce
          (run_message .data (cols % 65536) (rows % 65536)).1 rest
        have hlength := congrArg List.length h
        rw [hlost, nil_append, length_cons] at hlength
        omega

/-- Among plain sizes, the receiver has the characters that were written. -/
theorem visible_of_plain_sizes
    (h : ∀ cols rows, .resize cols rows ∈ commands → config.sendNaws = true →
      PlainSize cols rows) :
    visible (run .data (socketBytes config target commands)).2 =
      commands.flatMap (characterBytes config target) := by
  induction commands with
  | nil => rfl
  | cons command rest ih =>
    have hrest := ih fun cols rows hmem =>
      h cols rows (mem_cons_of_mem command hmem)
    rw [socketBytes_cons, run_append, visible_append, flatMap_cons]
    cases command with
    | write data =>
      have hrun : run .data (characterBytes config target (.write data)) =
          _ := run_plain (Utf8.encode_ne_255 _)
      rw [written_data target hforce, hrun, visible_map_data, hrest]
    | resize cols rows =>
      rw [written_size target hraw]
      by_cases hnaws : config.sendNaws = true
      · rw [if_pos hnaws,
          run_buildNaws (h cols rows mem_cons_self hnaws), hrest]
        rfl
      · rw [if_neg hnaws, run, hrest]
        rfl

/-- In character mode, what arrives as it was sent was plain. -/
theorem plain_of_received_characters
    (h : ReceivedAsSent config target commands) :
    ∀ command ∈ commands, Plain config target command := by
  obtain ⟨hbytes, hsizes⟩ := h
  have hplain := plain_sizes_of_received target hraw hforce hsizes
  rw [visible_of_plain_sizes target hraw hforce hplain] at hbytes
  have hwidens : ∀ command : SessionCommand,
      (typedBytes config target command).length ≤
        (characterBytes config target command).length := by
    intro command
    cases command with
    | write data => exact Utf8.length_le_encode_decodeLossy _
    | resize cols rows => exact Nat.le_refl 0
  have hequal := flatMap_injective_of_length hwidens hbytes
  intro command hmem
  cases command with
  | write data =>
    simp only [Plain, hforce, if_true]
    exact (Utf8.encode_decodeLossy_iff _).mp (hequal _ hmem)
  | resize cols rows => exact hplain cols rows hmem

omit hforce in
/-- The receiver has exactly what was typed and announced if nothing that was
sent needs an escape and no typed byte is lost to the split. -/
theorem receivedAsSent_iff_plain (commands : List SessionCommand) :
    ReceivedAsSent config target commands ↔
      ∀ command ∈ commands, Plain config target command := by
  constructor
  · intro h
    cases hforce : config.forceCharacterAtATime with
    | true => exact plain_of_received_characters target hraw hforce h
    | false => exact plain_of_receivedAsSent config target hraw hforce h
  · intro h
    exact (receivedAsSent_of_plain config target hraw h).2

omit hraw hforce

/-- UTF-8, where the input is written as it is. -/
def utf8 : Encoding := ⟨true, Utf8.encode⟩

/-- The one-byte encoding of the first 256 characters. -/
def latin1 : Encoding :=
  ⟨false, fun text => text.map fun c => UInt8.ofNat c.toNat⟩

theorem login_received :
    ReceivedAsSent {} utf8 [.resize 80 24, .write [108, 115, 13]] ↔
      ∀ command ∈ [SessionCommand.resize 80 24, .write [108, 115, 13]],
        Plain {} utf8 command :=
  receivedAsSent_iff_plain utf8 rfl [.resize 80 24, .write [108, 115, 13]]

/-- A window of 255 columns is not received, and neither is a typed ÿ. -/
theorem unescaped_iac_lost :
    ¬ ReceivedAsSent {} utf8 [.resize 255 24] ∧
      ¬ ReceivedAsSent {} latin1 [.write [0xC3, 0xBF]] := by
  unfold ReceivedAsSent
  constructor
  · decide
  · decide +kernel

end NiceTerm.Telnet
