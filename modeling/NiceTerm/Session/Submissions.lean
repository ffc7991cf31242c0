/-
Commands that a user submits to a session.  A session with shell integration
keeps them until the shell reports them, and hands them to the history and to
the recording then; others hand them over at once.
-/
import NiceTerm.Lib.RustSplit
import NiceTerm.Lib.Transition

namespace NiceTerm.Session

open RustStr (Str)

def isBlank (c : Char) : Bool := c == ' ' || c == Char.ofNat 9

def trimStartBlank (text : Str) : Str := text.dropWhile isBlank

/-- What follows the first character of a kind, and what stands before it. -/
def cutAt (marker : Char → Bool) (text : Str) : Option (Str × Str) :=
  match text.dropWhile fun c => !marker c with
  | [] => none
  | _ :: rest => some (text.takeWhile (fun c => !marker c), rest)

/-- `(env)` in front of a prompt; every round takes a bracket away. -/
def stripEnvRounds : Nat → Str → Str
  | 0, input => input
  | rounds + 1, input =>
    match input with
    | '(' :: rest =>
      match cutAt (· == ')') rest with
      | some (_, after) => stripEnvRounds rounds (trimStartBlank after)
      | none => input
    | _ => input

variable (input : Str)

def stripLeadingEnvPrefixes : Str :=
  stripEnvRounds input.length input

def stripBracketPrompt : Str → Option Str
  | '[' :: rest =>
    match cutAt (· == ']') rest with
    | some (_, after) =>
      match trimStartBlank after with
      | '#' :: command | '$' :: command => some (trimStartBlank command)
      | _ => none
    | none => none
  | _ => none

def stripPosixPrompt : Option Str := do
  let (prompt, command) ← cutAt (fun c => c == '#' || c == '$') input
  let (user, rest) ← cutAt (· == '@') prompt
  let (host, _) ← cutAt (· == ':') rest
  if user.isEmpty || host.isEmpty || user.any RustStr.isWhitespace ||
      host.any RustStr.isWhitespace then none
  else some (trimStartBlank command)

def stripPowershellPrompt : Str → Option Str
  | 'P' :: 'S' :: blank :: rest =>
    if isBlank blank then
      match cutAt (· == '>') rest with
      | some (prompt, command) =>
        if (RustStr.trim prompt).isEmpty then none
        else some (trimStartBlank command)
      | none => none
    else none
  | _ => none

def isAsciiAlphabetic (c : Char) : Bool :=
  ('a' ≤ c && c ≤ 'z') || ('A' ≤ c && c ≤ 'Z')

def stripWindowsPrompt : Str → Option Str
  | drive :: ':' :: next :: rest =>
    if isAsciiAlphabetic drive then
      match cutAt (· == '>') (drive :: ':' :: next :: rest) with
      | some (prompt, command) =>
        if prompt.any fun c => c == Char.ofNat 13 || c == Char.ofNat 10 then
          none
        else some (trimStartBlank command)
      | none => none
    else none
  | _ => none

def stripKnownPromptPrefix : Option Str :=
  (stripBracketPrompt input).or ((stripPosixPrompt input).or
    ((stripPowershellPrompt input).or (stripWindowsPrompt input)))

/-- The command without a prompt, unless nothing is left. -/
def sanitizeHistoryCommand : Option Str :=
  let trimmed := RustStr.trim input
  if trimmed.isEmpty then none
  else
    let command := RustStr.trim ((stripKnownPromptPrefix
      (stripLeadingEnvPrefixes trimmed)).getD trimmed)
    if command.isEmpty then none else some command

def maxPendingConfirmations : Nat := 256

structure CommandSubmissionState where
  pendingCandidates : List Str := []
  lastShellEvent : Option Str := none
  awaitsShellEvent : Bool := false
  confirmationOverflowDegraded : Bool := false
deriving DecidableEq, Repr

/-- How far `remove_session` has come: its last two steps take the lock of the
submissions one after the other. -/
inductive Removal
  | none
  | flush
  | drop
  | done
deriving DecidableEq, Repr

/-- `handed` is what the history and the recording have been given, and
`submitted` what has been registered. -/
structure SessionManager where
  sessions : Str → Bool
  commandSubmissions : Str → Option CommandSubmissionState
  removal : Str → Removal
  handed : List (Str × Str)
  submitted : List (Str × Str)

inductive SubmissionEvent
  | addSession (id : Str) (awaitsShellEvent : Bool)
  | register (id command : Str)
  | confirm (id command : Str)
  | flush (id : Str)
  | removeSession (id : Str)
  | removeFlush (id : Str)
  | removeDrop (id : Str)
deriving DecidableEq, Repr

namespace SessionManager

def empty : SessionManager :=
  ⟨fun _ => false, fun _ => none, fun _ => .none, [], []⟩

variable (manager : SessionManager) (id : Str)

def setState (state : Option CommandSubmissionState) : SessionManager :=
  { manager with
    commandSubmissions := Function.update manager.commandSubmissions id state }

/-- `record_command_transcript` and `add_history_entry` for each command. -/
def hand (commands : List Str) : SessionManager :=
  { manager with
    handed := manager.handed ++ commands.map fun command => (id, command) }

/-- The identifier of a session is new. -/
def addSession (awaits : Bool) : Option SessionManager :=
  if manager.sessions id || manager.removal id != .none then none
  else
    some { (manager.setState id (some { awaitsShellEvent := awaits })) with
      sessions := Function.update manager.sessions id true }

variable (command : Str)

def registerCommand :
    SessionManager :=
  match manager.commandSubmissions id with
  | none => manager.hand id [command]
  | some state =>
    if state.awaitsShellEvent then
      let pending := state.pendingCandidates ++ [command]
      if maxPendingConfirmations < pending.length then
        (manager.setState id (some { state with
            pendingCandidates := []
            awaitsShellEvent := false
            confirmationOverflowDegraded := true
            lastShellEvent := none })).hand id pending
      else
        manager.setState id (some { state with pendingCandidates := pending })
    else manager.hand id [command]

def registerCommandSubmission :
    SessionManager :=
  match sanitizeHistoryCommand command with
  | none => manager
  | some command =>
    registerCommand
      { manager with submitted := manager.submitted ++ [(id, command)] }
      id command

def confirmCommand :
    SessionManager :=
  let state := (manager.commandSubmissions id).getD {}
  if state.confirmationOverflowDegraded then manager.setState id (some state)
  else if command ∈ state.pendingCandidates then
    (manager.setState id (some { state with
        pendingCandidates := state.pendingCandidates.erase command
        lastShellEvent := some command })).hand id [command]
  else if state.lastShellEvent = some command then
    manager.setState id (some state)
  else
    (manager.setState id (some
      { state with lastShellEvent := some command })).hand id [command]

def confirmCommandSubmission :
    SessionManager :=
  match sanitizeHistoryCommand command with
  | none => manager
  | some command => manager.confirmCommand id command

def flushPendingSubmission :
    SessionManager :=
  match manager.commandSubmissions id with
  | none => manager
  | some state =>
    (manager.setState id (some { state with pendingCandidates := [] })).hand
      id state.pendingCandidates

def setRemoval (removal : Removal) : SessionManager :=
  { manager with removal := Function.update manager.removal id removal }

def step (manager : SessionManager) : SubmissionEvent → Option SessionManager
  | .addSession id awaits => manager.addSession id awaits
  | .register id command => some (manager.registerCommandSubmission id command)
  | .confirm id command => some (manager.confirmCommandSubmission id command)
  | .flush id => some (manager.flushPendingSubmission id)
  | .removeSession id =>
    some (if manager.sessions id then
      { (manager.setRemoval id .flush) with
        sessions := Function.update manager.sessions id false }
    else manager)
  | .removeFlush id =>
    if manager.removal id = .flush then
      some ((manager.flushPendingSubmission id).setRemoval id .drop)
    else none
  | .removeDrop id =>
    if manager.removal id = .drop then
      some ((manager.setState id none).setRemoval id .done)
    else none

/-- Any interleaving of the calls, for any number of sessions. -/
def system : Transition.System SessionManager SubmissionEvent where
  init := fun manager => manager = empty
  step := step

end SessionManager

end NiceTerm.Session
