/-
`strip_telnet_commands`, called on one read after another.  It keeps nothing
between the reads, so it is compared with a receiver that reads on.
-/
import NiceTerm.Lib.Nvt

namespace NiceTerm.Telnet

open List Nvt

/-- The skip of a subnegotiation: up to the first IAC SE behind its start. -/
def skipSubnegotiation : Bytes → Bytes
  | [] => []
  | [_] => []
  | byte :: next :: rest =>
    if byte = iac ∧ next = se then rest
    else skipSubnegotiation (next :: rest)

theorem skipSubnegotiation_length (bytes : Bytes) :
    (skipSubnegotiation bytes).length ≤ bytes.length := by
  fun_induction skipSubnegotiation bytes with
  | case1 => simp
  | case2 => simp
  | case3 byte next rest h =>
    simp only [length_cons]
    omega
  | case4 byte next rest h ih =>
    simp only [length_cons] at ih ⊢
    omega

/-- What `strip_telnet_commands` returns, and the calls of `on_negotiate`. -/
def stripTelnetCommands : Bytes → Bytes × List (UInt8 × UInt8)
  | [] => ([], [])
  | [byte] => ([byte], [])
  | byte :: next :: rest =>
    if byte = iac then
      if next = iac then
        ((iac :: (stripTelnetCommands rest).1), (stripTelnetCommands rest).2)
      else if isNegotiation next then
        match rest with
        | [] => ([], [])
        | option :: rest =>
          ((stripTelnetCommands rest).1,
            (next, option) :: (stripTelnetCommands rest).2)
      else if next = sb then stripTelnetCommands (skipSubnegotiation rest)
      else stripTelnetCommands rest
    else
      (byte :: (stripTelnetCommands (next :: rest)).1,
        (stripTelnetCommands (next :: rest)).2)
termination_by bytes => bytes.length
decreasing_by
  all_goals simp only [length_cons]
  all_goals try have := skipSubnegotiation_length rest
  all_goals omega

/-- The reader loop: every read on its own. -/
def stripReads (reads : List Bytes) : Bytes × List (UInt8 × UInt8) :=
  (reads.flatMap fun read => (stripTelnetCommands read).1,
    reads.flatMap fun read => (stripTelnetCommands read).2)

/-- A receiver that sees the whole stream. -/
def received (s : State) (stream : Bytes) : Bytes × List (UInt8 × UInt8) :=
  (visible (run s stream).2, negotiations (run s stream).2)

/-- No subnegotiation contains a doubled IAC with SE behind it. -/
def Regular : State → Bytes → Prop
  | _, [] => True
  | s, [byte] => Regular (step s byte).1 []
  | s, byte :: next :: rest =>
    ¬ (∃ content, s = .subCommand content ∧ byte = iac ∧ next = se) ∧
      Regular (step s byte).1 (next :: rest)

/-- Every read ends where no command is open; the last may end inside one, but
not behind its IAC. -/
def Whole : List Bytes → Prop
  | [] => True
  | [last] => Regular .data last ∧ (run .data last).1 ≠ .command
  | read :: next :: rest =>
    Regular .data read ∧ (run .data read).1 = .data ∧ Whole (next :: rest)

theorem received_cons (s : State) (byte : UInt8) (rest : Bytes) :
    received s (byte :: rest) = (((step s byte).2.bind Event.byte?).toList ++
          (received (step s byte).1 rest).1,
        ((step s byte).2.bind Event.pair?).toList ++
          (received (step s byte).1 rest).2) := by
  have hvisible : ∀ event : Option Event, visible event.toList =
      (event.bind Event.byte?).toList := by
    rintro (_ | (_ | _ | _)) <;> rfl
  have hpairs : ∀ event : Option Event, negotiations event.toList =
      (event.bind Event.pair?).toList := by
    rintro (_ | (_ | _ | _)) <;> rfl
  simp only [received, run, visible_append, negotiations_append, hvisible,
    hpairs]

variable {byte : UInt8} {rest : Bytes}

theorem regular_tail {s : State}
    (h : Regular s (byte :: rest)) : Regular (step s byte).1 rest := by
  cases rest with
  | nil => exact h
  | cons next rest => exact h.2

theorem skip_of_ne (h : byte ≠ iac) (rest : Bytes) :
    skipSubnegotiation (byte :: rest) = skipSubnegotiation rest := by
  cases rest with
  | nil => rfl
  | cons next rest =>
    rw [skipSubnegotiation, if_neg fun hboth => h hboth.1]

theorem skip_of_next_ne (h : ∀ more, rest ≠ se :: more) :
    skipSubnegotiation (iac :: rest) = skipSubnegotiation rest := by
  cases rest with
  | nil => rfl
  | cons next rest =>
    rw [skipSubnegotiation, if_neg]
    rintro ⟨-, rfl⟩
    exact h rest rfl

/-- A silent step. -/
theorem received_silent {s t : State} (h : step s byte = (t, none))
    (rest : Bytes) : received s (byte :: rest) = received t rest := by
  rw [received_cons, h]
  rfl

theorem run_fst_cons (s : State) (byte : UInt8) (rest : Bytes) :
    (run s (byte :: rest)).1 = (run (step s byte).1 rest).1 := rfl

/-- The receiver in a state and the code on the bytes it goes on with. -/
def Skips (s : State) (bytes rest : Bytes) : Prop :=
  received s bytes = received .data rest ∧ Regular .data rest ∧
    ((run s bytes).1 ≠ .command → (run .data rest).1 ≠ .command)

theorem Skips.silent {s t : State} {bytes : Bytes}
    (h : step s byte = (t, none)) (hskips : Skips t bytes rest) :
    Skips s (byte :: bytes) rest := by
  obtain ⟨hreceived, hregular, hstate⟩ := hskips
  refine ⟨(received_silent h bytes).trans hreceived, hregular, ?_⟩
  rw [run_fst_cons, h]
  exact hstate

/-- The skip of the code ends where the receiver's subnegotiation does. -/
theorem skips_subnegotiation (rest : Bytes) (content : Bytes)
    (h : Regular (.sub content) rest) :
    Skips (.sub content) rest (skipSubnegotiation rest) := by
  induction hlength : rest.length using Nat.strongRecOn
    generalizing rest content with
  | ind n ih =>
    subst hlength
    cases rest with
    | nil => exact ⟨rfl, trivial, fun _ => by decide⟩
    | cons byte rest =>
      by_cases hbyte : byte = iac
      · subst hbyte
        have hstep : step (.sub content) iac = (.subCommand content, none) := by
          rw [step, if_pos rfl]
        have htail := regular_tail h
        rw [hstep] at htail
        apply Skips.silent hstep
        cases rest with
        | nil => exact ⟨rfl, trivial, fun _ => by decide⟩
        | cons next rest =>
          have hafter := regular_tail htail
          by_cases hse : next = se
          · subst hse
            have hend : step (.subCommand content) se =
                (.data, some (.subnegotiation content)) := by
              rw [step, if_pos rfl]
            rw [hend] at hafter
            rw [skipSubnegotiation, if_pos ⟨rfl, rfl⟩]
            refine ⟨?_, hafter, ?_⟩
            · rw [received_cons, hend]
              rfl
            · rw [run_fst_cons, hend]
              exact id
          · by_cases hnext : next = iac
            · subst hnext
              have hdouble : step (.subCommand content) iac =
                  (.sub (content ++ [iac]), none) := by
                rw [step, if_neg (by decide), if_pos rfl]
              rw [hdouble] at hafter
              have hno : ∀ more, rest ≠ se :: more := by
                rintro more rfl
                exact htail.1 ⟨content, rfl, rfl, rfl⟩
              rw [skip_of_next_ne (by simpa using hse), skip_of_next_ne hno]
              exact Skips.silent hdouble (ih rest.length
                (by simp only [length_cons]; omega) rest _ hafter rfl)
            · have hother : step (.subCommand content) next =
                  (.sub content, none) := by
                rw [step, if_neg hse, if_neg hnext]
              rw [hother] at hafter
              rw [skip_of_next_ne (by simpa using hse), skip_of_ne hnext]
              exact Skips.silent hother (ih rest.length
                (by simp only [length_cons]; omega) rest _ hafter rfl)
      · have hstep : step (.sub content) byte =
            (.sub (content ++ [byte]), none) := if_neg hbyte
        have htail := regular_tail h
        rw [hstep] at htail
        rw [skip_of_ne hbyte]
        exact Skips.silent hstep (ih rest.length
          (by simp only [length_cons]; omega) rest _ htail rfl)

theorem step_data_iac : step .data iac = (.command, none) := rfl

theorem step_data_of_ne (h : byte ≠ iac) :
    step .data byte = (.data, some (.data byte)) :=
  if_neg h

theorem step_command_negotiation (h : byte ≠ iac)
    (hneg : isNegotiation byte = true) :
    step .command byte = (.option byte, none) := by
  rw [step, if_neg h, if_pos hneg]

theorem step_command_sb : step .command sb = (.sub [], none) := rfl

theorem step_command_other (h : byte ≠ iac)
    (hneg : ¬ isNegotiation byte = true) (hsb : byte ≠ sb) :
    step .command byte = (.data, none) := by
  rw [step, if_neg h, if_neg hneg, if_neg hsb]

/-- On a read that is regular and does not end behind an IAC, the code agrees
with the receiver. -/
theorem strip_eq_received (bytes : Bytes) (hregular : Regular .data bytes)
    (hstate : (run .data bytes).1 ≠ .command) :
    stripTelnetCommands bytes = received .data bytes := by
  fun_induction stripTelnetCommands bytes with
  | case1 => rfl
  | case2 byte =>
    by_cases hbyte : byte = iac
    · subst hbyte
      exact absurd rfl hstate
    · rw [received_cons, step_data_of_ne hbyte]
      rfl
  | case3 rest ih =>
    rw [ih (regular_tail (regular_tail hregular)) hstate,
      received_silent step_data_iac, received_cons]
    rfl
  | case4 next hnext hneg =>
    rw [received_silent step_data_iac,
      received_silent (step_command_negotiation hnext hneg)]
    rfl
  | case5 next hnext hneg option rest ih =>
    have hstep := step_command_negotiation hnext hneg
    have htail := regular_tail hregular
    rw [step_data_iac] at htail
    have hoption := regular_tail htail
    rw [hstep] at hoption
    rw [run_fst_cons, step_data_iac, run_fst_cons, hstep, run_fst_cons]
      at hstate
    rw [ih (regular_tail hoption) hstate, received_silent step_data_iac,
      received_silent hstep, received_cons]
    rfl
  | case6 rest _ _ ih =>
    obtain ⟨hreceived, hafter, hend⟩ := skips_subnegotiation rest []
      (regular_tail (regular_tail hregular))
    rw [ih hafter (hend hstate), received_silent step_data_iac,
      received_silent step_command_sb, hreceived]
  | case7 next rest hnext hneg hsb ih =>
    have hstep := step_command_other hnext hneg hsb
    have htail := regular_tail hregular
    rw [step_data_iac] at htail
    have hafter := regular_tail htail
    rw [hstep] at hafter
    rw [run_fst_cons, step_data_iac, run_fst_cons, hstep] at hstate
    rw [ih hafter hstate, received_silent step_data_iac, received_silent hstep]
  | case8 byte next rest hbyte ih =>
    have htail := regular_tail hregular
    rw [step_data_of_ne hbyte] at htail
    rw [run_fst_cons, step_data_of_ne hbyte] at hstate
    rw [ih htail hstate, received_cons .data byte, step_data_of_ne hbyte]
    rfl

theorem received_append {front : Bytes} (hfront : (run .data front).1 = .data)
    (back : Bytes) :
    received .data (front ++ back) =
      ((received .data front).1 ++ (received .data back).1,
        (received .data front).2 ++ (received .data back).2) := by
  simp only [received, run_append, hfront, visible_append, negotiations_append]

theorem stripReads_cons (read : Bytes) (reads : List Bytes) :
    stripReads (read :: reads) =
      ((stripTelnetCommands read).1 ++ (stripReads reads).1,
        (stripTelnetCommands read).2 ++ (stripReads reads).2) := rfl

theorem stripReads_of_whole {reads : List Bytes} (h : Whole reads) :
    stripReads reads = received .data reads.flatten := by
  induction reads with
  | nil => rfl
  | cons read rest ih =>
    cases rest with
    | nil =>
      rw [stripReads_cons, strip_eq_received read h.1 h.2]
      simp [stripReads]
    | cons next rest =>
      obtain ⟨hregular, hstate, hrest⟩ := h
      rw [stripReads_cons, ih hrest, strip_eq_received read hregular
        (by simp [hstate]), ← received_append hstate, ← flatten_cons]

theorem flatten_singletons (stream : Bytes) :
    (stream.map fun byte => [byte]).flatten = stream := by
  induction stream with
  | nil => rfl
  | cons byte rest ih => exact congrArg (byte :: ·) ih

/-- Read byte by byte, everything is visible. -/
theorem stripReads_singletons (stream : Bytes) :
    stripReads (stream.map fun byte => [byte]) = (stream, []) := by
  induction stream with
  | nil => rfl
  | cons byte rest ih =>
    have hone : stripTelnetCommands [byte] = ([byte], []) := by
      rw [stripTelnetCommands]
    rw [map_cons, stripReads_cons, ih, hone]
    rfl

theorem strip_of_ne {next : UInt8} (h : byte ≠ iac) :
    stripTelnetCommands (byte :: next :: rest) =
      (byte :: (stripTelnetCommands (next :: rest)).1,
        (stripTelnetCommands (next :: rest)).2) := by
  rw [stripTelnetCommands.eq_def]
  simp only [if_neg h]

theorem strip_plain {bytes : Bytes} (h : iac ∉ bytes) :
    stripTelnetCommands bytes = (bytes, []) := by
  induction bytes with
  | nil => rw [stripTelnetCommands]
  | cons byte rest ih =>
    simp only [mem_cons, not_or] at h
    cases rest with
    | nil => rw [stripTelnetCommands]
    | cons next rest => rw [strip_of_ne (Ne.symm h.1), ih h.2]

theorem stripReads_plain {reads : List Bytes} (h : iac ∉ reads.flatten) :
    stripReads reads = (reads.flatten, []) := by
  induction reads with
  | nil => rfl
  | cons read rest ih =>
    rw [flatten_cons, mem_append, not_or] at h
    rw [stripReads_cons, strip_plain h.1, ih h.2]
    rfl

theorem received_plain {stream : Bytes} (h : iac ∉ stream) :
    received .data stream = (stream, []) := by
  rw [received, run_plain h, visible_map_data, negotiations_map_data]

/-- A stream in which something is marked has a part that is not visible. -/
theorem not_mem_of_all_visible {stream : Bytes}
    (h : (received .data stream).1 = stream) : iac ∉ stream := by
  have hprice := run_price .data stream
  have hvisible := width_visible_le (run .data stream).2
  have hwidth : width (visible (run .data stream).2) = width stream :=
    congrArg width h
  have hcount : stream.count iac = 0 := by
    simp only [width, State.paid] at *
    omega
  exact count_eq_zero.mp hcount

/-- Reads that end between commands are decoded as the receiver decodes the
stream; every stream with an IAC has reads that are not. -/
theorem stripped_reads_eq_received (stream : Bytes) :
    (∀ reads : List Bytes, reads.flatten = stream → Whole reads →
      stripReads reads = received .data stream) ∧
      ((∀ reads : List Bytes, reads.flatten = stream →
        stripReads reads = received .data stream) ↔ iac ∉ stream) := by
  refine ⟨?_, ?_, ?_⟩
  · rintro reads rfl hwhole
    exact stripReads_of_whole hwhole
  · intro hall
    have hsingle := hall (stream.map fun byte => [byte])
      (flatten_singletons stream)
    rw [stripReads_singletons] at hsingle
    exact not_mem_of_all_visible (congrArg Prod.fst hsingle).symm
  · rintro hplain reads rfl
    rw [stripReads_plain hplain, received_plain hplain]

/-- An option request cut behind its command: the request is lost and the
option is printed. -/
theorem cut_option_differs :
    stripReads [[104, 105, iac, doo], [31, 33]] ≠
      received .data [104, 105, iac, doo, 31, 33] := by
  decide +kernel

/-- In one read, a doubled IAC before SE ends a subnegotiation. -/
example : stripTelnetCommands [iac, sb, 24, iac, iac, se, 65, iac, se, 66] =
    ([65, 66], []) := by decide +kernel

example : received .data [iac, sb, 24, iac, iac, se, 65, iac, se, 66] =
    ([66], []) := by decide

end NiceTerm.Telnet
