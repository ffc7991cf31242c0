/-
The automatic login of a Telnet session.  The reader of the server's text
decides what to send and puts it in a queue; the loop of the session takes it
from there in a turn of its own, between the writes of the user.
-/
import NiceTerm.Telnet.Prompts
import NiceTerm.Telnet.Writing

namespace NiceTerm.Telnet

open Nvt RustStr
open Recording (Unicode)
open RustStr (Str)

structure TelnetAutoLoginConfig where
  enabled : Bool := true
  sendWakeEnter : Bool := true
  timeoutMs : Nat := 60000
  usernamePromptRegex : Option Str := none
  passwordPromptRegex : Option Str := none
  successPromptRegex : Option Str := none
  failurePromptRegex : Option Str := none
  maxRetries : Nat := 0
deriving DecidableEq, Repr

structure TelnetAutoLoginCredentials where
  username : Str
  password : Option Str
deriving DecidableEq, Repr

/-- What a line is sent for.  The source keeps only its bytes. -/
inductive Line
  | wake
  | username
  | password
deriving DecidableEq, Repr

inductive TelnetAutoLoginAction
  | send (line : Line) (data : Bytes)
  | complete
  | disable
deriving DecidableEq, Repr

/-- The tables of the standard library, `strip_str` of `strip_ansi_escapes`, and
`Regex::new` with `is_match`. -/
structure Libraries where
  unicode : Unicode
  stripStr : Str → Str
  regex : Str → Option (Str → Bool)

namespace Libraries

variable (libraries : Libraries)

def compileOptionalRegex (pattern : Option Str) : Option (Str → Bool) :=
  pattern.bind fun pattern =>
    if trim pattern = [] then none
    else libraries.regex (trim pattern)

/-- The pattern of the user, or else the default one. -/
def isMatch (pattern : Option Str) (default : Str) (text : Str) : Bool :=
  match libraries.compileOptionalRegex pattern with
  | some regex => regex text
  | none => (libraries.regex default).any fun regex => regex text

end Libraries

def defaultUsernameRegex : Str :=
  ("(?i)^\\s*(?:[^\\r\\n:：>]\x7b1,80\x7d\\s+)?(?:user\\s*name|username|login|" ++
    "logon|account|userid|user\\s*id|user|用户名|帐号|账号|登录|登入)" ++
    "\\s*[:：>]\\s*$").toList

def lastLoginRegex : Str := "(?i)\\b(?:last|previous)\\s+login\\b".toList

def defaultPasswordRegex : Str :=
  ("(?i)(?:^|[\\r\\n])\\s*(?:input\\s+)?(?:password|passwd|passcode|" ++
    "passphrase|pin|密码|口令)\\s*[:：>]?\\s*$").toList

def defaultWakeRegex : Str :=
  "(?i)(press\\s+(?:return|<enter>|\\[enter\\]|enter|any\\s+key))".toList

def defaultSuccessRegex : Str := "[$#>]\\s*$".toList

def defaultFailureRegex : Str :=
  ("(?i)(login\\s+incorrect|authentication\\s+failed|access\\s+denied|" ++
    "密码错误|认证失败)").toList

def autoLoginTailChars : Nat := 2048

def autoLoginPromptWindowChars : Nat := 320

def lineBytes (value : Str) (enterMode : TelnetEnterMode) : Bytes :=
  normalizeEnterBytes (utf8 value ++ [13]) enterMode

@[irreducible]
def lastChars (value : Str) (maxChars : Nat) : Str :=
  value.drop (value.length - maxChars)

def lastNonEmptyLine (value : Str) : Str :=
  trim (((lines value).reverse.find? fun line =>
    !(trim line).isEmpty).getD [])

def crToLf (text : Str) : Str :=
  text.map fun c => if c = '\r' then '\n' else c

/-- Times are in nanoseconds. -/
structure TelnetAutoLogin where
  config : TelnetAutoLoginConfig
  credentials : TelnetAutoLoginCredentials
  enterMode : TelnetEnterMode
  startedAt : Nat
  tail : Str := []
  sentWake : Bool := false
  sentUsername : Bool := false
  sentPassword : Bool := false
  disabled : Bool := false
  completed : Bool := false
  retries : Nat := 0
deriving DecidableEq, Repr

/-- What the decisions are based on. -/
structure View where
  window : Str
  lastLine : Str
  prompts : Except Stop (List Str)

namespace TelnetAutoLogin

variable (libraries : Libraries) (self : TelnetAutoLogin)

def timedOut (now : Nat) : Bool :=
  self.config.timeoutMs * 1000000 < now - self.startedAt

def pushTail (text : Str) : TelnetAutoLogin :=
  { self with tail := lastChars (self.tail ++ text) autoLoginTailChars }

/-- The view on the tail and on the text that has just come. -/
def view (text : Str) : View :=
  let clean := libraries.stripStr self.tail
  let cleanInput := crToLf (libraries.stripStr text)
  let normalized := crToLf clean
  let window := lastChars normalized autoLoginPromptWindowChars
  { window
    lastLine := lastNonEmptyLine normalized
    prompts := promptCandidates libraries.unicode window cleanInput }

def matchesWakePrompt (text : Str) : Bool :=
  libraries.isMatch none defaultWakeRegex text

variable (prompts : List Str)

def matchesUsernamePrompt (lastLine : Str) : Bool :=
  !libraries.isMatch none lastLoginRegex lastLine && prompts.any
      (libraries.isMatch self.config.usernamePromptRegex defaultUsernameRegex)

def matchesPasswordPrompt : Bool :=
  prompts.any
    (libraries.isMatch self.config.passwordPromptRegex defaultPasswordRegex)

def matchesSuccess (lastLine : Str) : Bool :=
  libraries.isMatch self.config.successPromptRegex defaultSuccessRegex lastLine

def matchesFailure (text lastLine : Str) : Bool :=
  libraries.isMatch self.config.failurePromptRegex defaultFailureRegex text ||
    libraries.isMatch self.config.failurePromptRegex defaultFailureRegex
      lastLine

def sendsWake (window : Str) : Bool :=
  self.config.sendWakeEnter && !self.sentWake &&
    matchesWakePrompt libraries window

def sendsUsername (lastLine : Str) : Bool :=
  !self.sentUsername && !(trim self.credentials.username).isEmpty &&
    self.matchesUsernamePrompt libraries prompts lastLine

def sendsPassword : Bool :=
  !self.sentPassword &&
    self.credentials.password.any (fun value => !value.isEmpty) &&
    self.matchesPasswordPrompt libraries prompts

def sendIf (sends : Bool) (line : Line) (value : Str) :
    List TelnetAutoLoginAction :=
  if sends then [.send line (lineBytes value self.enterMode)] else []

/-- The answers to the prompts in the view. -/
def answer (window lastLine : Str) (prompts : List Str) :
    TelnetAutoLogin × List TelnetAutoLoginAction :=
  let wake := self.sendsWake libraries window
  let username := self.sendsUsername libraries prompts lastLine
  let password := self.sendsPassword libraries prompts
  let sentUsername := self.sentUsername || username
  let sentPassword := self.sentPassword || password
  let completes := (sentUsername || sentPassword) &&
    self.matchesSuccess libraries lastLine
  ({ self with
      sentWake := self.sentWake || wake
      sentUsername
      sentPassword
      completed := self.completed || completes },
    self.sendIf wake .wake [] ++
      self.sendIf username .username self.credentials.username ++
      self.sendIf password .password (self.credentials.password.getD []) ++
      if completes then [.complete] else [])

/-- A panic in the view leaves the tail behind that was read into. -/
def handleText (text : Str) (now : Nat) :
    TelnetAutoLogin × Except Stop (List TelnetAutoLoginAction) :=
  if self.disabled || self.completed then (self, .ok [])
  else if self.timedOut now then ({ self with disabled := true }, .ok [.disable])
  else
    let self := self.pushTail text
    let view := self.view libraries text
    match view.prompts with
    | .error stop => (self, .error stop)
    | .ok prompts =>
      if self.matchesFailure libraries view.window view.lastLine then
        if self.retries < self.config.maxRetries then
          ({ self with
              retries := self.retries + 1
              sentUsername := false
              sentPassword := false
              tail := [] }, .ok [])
        else ({ self with disabled := true }, .ok [.disable])
      else
        let answered := self.answer libraries view.window view.lastLine prompts
        (answered.1, .ok answered.2)

def handleUserInput (automated : Bool) :
    TelnetAutoLogin × Option TelnetAutoLoginAction :=
  if automated || self.disabled || self.completed then (self, none)
  else ({ self with disabled := true }, some .disable)

end TelnetAutoLogin

/-- The loop of the session and its two sources.  `manual` records that the user
has written something. -/
structure LoginSession where
  auto : TelnetAutoLogin
  queue : List TelnetAutoLoginAction := []
  pendingStartup : Option (Bytes × Nat) := none
  startupDeadline : Option Nat := none
  now : Nat
  reading : Bool := true
  connected : Bool := true
  manual : Bool := false
deriving DecidableEq, Repr

/-- Some text of the server reaches the reader, or one branch of the loop is
taken. -/
inductive LoginEvent
  | elapse (nanoseconds : Nat)
  | text (text : Str)
  | action
  | startup
  | write (automated : Bool)
  | close
deriving DecidableEq, Repr

namespace LoginSession

variable (libraries : Libraries) (s : LoginSession)

def armTelnetStartupTimer : LoginSession :=
  match s.startupDeadline, s.pendingStartup with
  | none, some (_, delayMs) =>
    { s with startupDeadline := some (s.now + delayMs * 1000000) }
  | _, _ => s

def dropStartup : LoginSession :=
  { s with pendingStartup := none, startupDeadline := none }

/-- A panic ends the task of the reader. -/
def readText (text : Str) : LoginSession :=
  let (auto, outcome) := s.auto.handleText libraries text s.now
  match outcome with
  | .ok actions => { s with auto, queue := s.queue ++ actions }
  | .error _ => { s with auto, reading := false }

def takeAction : LoginSession :=
  match s.queue with
  | [] => s
  | .send _ _ :: queue => { s with queue }
  | .complete :: queue => { s with queue }.armTelnetStartupTimer
  | .disable :: queue => { s with queue }.dropStartup

def takeWrite (automated : Bool) : LoginSession :=
  if automated then s
  else
    let (auto, action) := s.auto.handleUserInput false
    let s := { s with auto, manual := true }
    if action = some .disable then s.dropStartup else s

def takeStartup : LoginSession :=
  if s.startupDeadline.any (· ≤ s.now) then
    { s with pendingStartup := none, startupDeadline := none }
  else s

def step (s : LoginSession) (event : LoginEvent) : LoginSession :=
  if !s.connected then s
  else
    match event with
    | .elapse nanoseconds => { s with now := s.now + nanoseconds }
    | .text text => if s.reading then s.readText libraries text else s
    | .action => s.takeAction
    | .startup => s.takeStartup
    | .write automated => s.takeWrite automated
    | .close => { s with connected := false }

/-- The line that the first action in the queue sends. -/
def sentByAction : Option Line :=
  match s.queue with
  | .send line _ :: _ => some line
  | _ => none

/-- The line of the automatic login that a step writes to the socket. -/
def written : LoginEvent → Option Line
  | .action => if s.connected then s.sentByAction else none
  | _ => none

def exec (s : LoginSession) : List LoginEvent → LoginSession
  | [] => s
  | event :: events => exec (s.step libraries event) events

/-- The lines written in a run, each with the state in which it is written. -/
def writes (s : LoginSession) : List LoginEvent → List (LoginSession × Line)
  | [] => []
  | event :: events =>
    ((s.written event).toList.map fun line => (s, line)) ++
      writes (s.step libraries event) events

end LoginSession

end NiceTerm.Telnet
