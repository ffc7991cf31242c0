/-
What a permission mode allows an agent to do, given what a capability accesses
and how risky the call is: a shell command, or a change of remote files.
-/
import NiceTerm.Lib.RustSplit

namespace NiceTerm.Capabilities

open RustStr
open RustStr (Str)

inductive CapabilityAccess
  | read
  | sensitiveRead
  | write
  | destructiveWrite
deriving DecidableEq, Repr

inductive AiPermissionMode
  | observer
  | confirm
  | auto
  | fullAccess
deriving DecidableEq, Repr

inductive RiskLevel
  | low
  | medium
  | high
  | critical
deriving DecidableEq, Repr

/-- `level >= RiskLevel::High`. -/
def RiskLevel.atLeastHigh : RiskLevel → Bool
  | .low | .medium => false
  | .high | .critical => true

structure RiskAssessment where
  level : RiskLevel
  reason : Str
  autoExecutable : Bool
deriving DecidableEq, Repr

def risk (level : RiskLevel) (reason : String) (autoExecutable : Bool) :
    RiskAssessment :=
  ⟨level, reason.toList, autoExecutable⟩

inductive PolicyDecision
  | allow
  | requireApproval
  | deny
deriving DecidableEq, Repr

def decidePolicy (mode : AiPermissionMode) (access : CapabilityAccess)
    (assessment : Option RiskAssessment) : PolicyDecision :=
  if mode = .fullAccess then .allow
  else if (access = .write ∨ access = .destructiveWrite) ∧ mode = .observer then
    .deny
  else if access = .destructiveWrite then .requireApproval
  else if assessment.any fun risk => risk.level.atLeastHigh then
    .requireApproval
  else if mode = .auto ∧ assessment.any fun risk => !risk.autoExecutable then
    .requireApproval
  else
    match mode, access with
    | .fullAccess, _ => .allow
    | _, .read => .allow
    | .auto, .sensitiveRead | .auto, .write => .allow
    | _, .sensitiveRead | _, .write => .requireApproval
    | _, .destructiveWrite => .requireApproval

/-! The command is split into tokens and these into stages; every stage is
looked up in lists of known commands. -/

/-- `replace("\r\n", "\n")` and then `replace('\r', "\n")`. -/
def unixNewlines : Str → Str
  | [] => []
  | '\r' :: '\n' :: rest => '\n' :: unixNewlines rest
  | '\r' :: rest => '\n' :: unixNewlines rest
  | c :: rest => c :: unixNewlines rest

def asciiLowercase (text : Str) : Str := text.map Char.toLower

def containsStr (needle : String) (text : Str) : Bool :=
  (rfind needle.toList text).isSome

def startsWith (start : String) (text : Str) : Bool :=
  start.toList.isPrefixOf text

/-- `matches!` on a string. -/
def oneOf (words : List String) (text : Str) : Bool :=
  words.any fun word => word.toList == text

structure Tokenizer where
  tokens : List Str := []
  current : Str := []
  quote : Option Char := none
  escaped : Bool := false
deriving DecidableEq, Repr

namespace Tokenizer

variable (state : Tokenizer)

def pushToken : Tokenizer :=
  if state.current.isEmpty then state
  else { state with tokens := state.tokens ++ [state.current], current := [] }

def pushOperator (operator : Str) : Tokenizer :=
  let pushed := state.pushToken
  { pushed with tokens := pushed.tokens ++ [operator] }

def pushChar (c : Char) : Tokenizer :=
  { state with current := state.current ++ [c], escaped := false }

/-- A quotation mark opens or closes a quotation, or stands in one of the other
kind. -/
def pushQuote (c : Char) : Tokenizer :=
  if state.quote = some c then { state with quote := none }
  else if state.quote = none then { state with quote := some c }
  else state.pushChar c

end Tokenizer

def isOperatorChar (c : Char) : Bool :=
  c == ';' || c == '|' || c == '&' || c == '>'

def isDoubled (c : Char) : Bool := c == '|' || c == '&' || c == '>'

def tokenizeLoop (state : Tokenizer) : Str → Tokenizer
  | [] => state
  | c :: rest =>
    if state.escaped then tokenizeLoop (state.pushChar c) rest
    else if c = '\\' ∧ state.quote ≠ some '\'' then
      tokenizeLoop { state with escaped := true } rest
    else if c = '\'' ∨ c = '"' then tokenizeLoop (state.pushQuote c) rest
    else if state.quote = none ∧ c = '\n' then
      tokenizeLoop (state.pushOperator [';']) rest
    else if state.quote = none ∧ RustStr.isWhitespace c then
      tokenizeLoop state.pushToken rest
    else if state.quote = none ∧ isOperatorChar c then
      match rest with
      | next :: after =>
        if next = c ∧ isDoubled c then
          tokenizeLoop (state.pushOperator [c, c]) after
        else tokenizeLoop (state.pushOperator [c]) (next :: after)
      | [] => state.pushOperator [c]
    else tokenizeLoop (state.pushChar c) rest

variable (command : Str)

def tokenizeShell : List Str :=
  (tokenizeLoop {} command).pushToken.tokens

/-- What ends a stage. -/
def isSeparator (token : Str) : Bool := oneOf [";", "&", "&&", "||", "|"] token

def isWriteRedirection (token : Str) : Bool := oneOf [">", ">>"] token

def stagesLoop (current : List Str) : List Str → List (List Str)
  | [] => if current.isEmpty then [] else [current]
  | token :: tokens =>
    if isSeparator token then
      if current.isEmpty then stagesLoop [] tokens
      else current :: stagesLoop [] tokens
    else if isWriteRedirection token then stagesLoop current tokens
    else stagesLoop (current ++ [token]) tokens

def commandStages (tokens : List Str) : List (List Str) := stagesLoop [] tokens

def basename : Str :=
  (command.reverse.takeWhile fun c => c != '/' && c != '\\').reverse

/-- An assignment in front of a command. -/
def isAssignment (token : Str) : Bool :=
  token.contains '=' && !startsWith "=" token

def executableAndArgs (stage : List Str) : Option (Str × List Str) :=
  match stage.dropWhile isAssignment with
  | [] => none
  | command :: args =>
    if basename command = "env".toList then
      match args.dropWhile fun token =>
          startsWith "-" token || isAssignment token with
      | [] => some ("env".toList, [])
      | nested :: args => some (basename nested, args)
    else some (basename command, args)

def isSensitiveTerminalPath (value : Str) : Bool :=
  (["/etc", "/boot", "/bin", "/sbin", "/usr", "/lib", "/lib64", "/var/lib",
      "/root"].any fun root =>
    value == root.toList || startsWith (root ++ "/") value) ||
  oneOf ["~/.ssh"] value || startsWith "~/.ssh/" value ||
  containsStr "/.ssh/" value

variable (args : List Str)

def isRootRmArgs : Bool :=
  (args.any fun arg =>
    startsWith "-" arg && arg.contains 'r' && arg.contains 'f') &&
  args.any (oneOf ["/", "/*", "--no-preserve-root"])

def isSqlWordChar (c : Char) : Bool := c.isAlphanum || c == '_'

def containsSqlWord (needle : String) : Bool :=
  args.any fun arg =>
    (arg.splitOnP fun c => !isSqlWordChar c).any (oneOf [needle])

variable (words : List String)

def firstIn (args : List Str) : Bool :=
  args.head?.any (oneOf words)

def anyIn (args : List Str) : Bool :=
  args.any (oneOf words)

inductive StageClass
  | readOnly
  | write
  | unknown
deriving DecidableEq, Repr

def readOnlyCommands : List String :=
  ["ls", "pwd", "whoami", "id", "uname", "cat", "less", "head", "tail", "grep",
    "rg", "find", "df", "du", "free", "top", "htop", "ps", "ss", "netstat",
    "journalctl", "printenv", "which", "whereis"]

def ordinaryWriteCommands : List String :=
  ["touch", "mkdir", "cp", "mv", "chmod", "chown", "setfacl", "export"]

def classifyCommand : StageClass :=
  if oneOf readOnlyCommands command then .readOnly
  else if oneOf ["env"] command && args.isEmpty then .readOnly
  else if oneOf ["ip"] command && (args.isEmpty || firstIn
      ["a", "addr", "address", "link", "route", "neigh", "rule"] args) then
    .readOnly
  else if oneOf ["systemctl"] command && firstIn ["status"] args then .readOnly
  else if oneOf ["docker"] command && firstIn ["ps", "logs", "inspect"] args then
    .readOnly
  else if oneOf ["kubectl"] command &&
      firstIn ["get", "describe", "logs", "explain"] args then .readOnly
  else if oneOf ["git"] command &&
      firstIn ["status", "log", "diff", "show"] args then .readOnly
  else if oneOf ordinaryWriteCommands command then .write
  else if oneOf ["git"] command && firstIn
      ["checkout", "switch", "pull", "merge", "add", "commit"] args then .write
  else if oneOf ["make"] command && anyIn ["install"] args then .write
  else .unknown

variable (stage : List Str)

def classifyStage : StageClass :=
  match executableAndArgs stage with
  | none => .unknown
  | some (command, args) => classifyCommand command args

def forkBomb : String := ":(){:|:&};:"

def isCriticalCommand : Bool :=
  (oneOf ["rm"] command && isRootRmArgs args) ||
  (oneOf ["dd"] command && args.any (startsWith "of=/dev/")) ||
  (oneOf ["mkfs", "wipefs", "shutdown", "poweroff", "reboot", "halt"] command ||
    startsWith "mkfs." command) ||
  (oneOf ["systemctl"] command && firstIn ["stop"] args &&
    anyIn ["ssh", "sshd", "ssh.service", "sshd.service"] (args.drop 1)) ||
  (oneOf ["service"] command && firstIn ["ssh", "sshd"] args &&
    firstIn ["stop"] (args.drop 1))

def isCriticalStage : Bool :=
  match executableAndArgs stage with
  | none => false
  | some (command, args) =>
    isCriticalCommand command args || containsStr forkBomb stage.flatten

def isHighRiskCommand : Bool :=
  oneOf ["sudo", "doas", "su"] command ||
  oneOf ["rm", "rmdir", "truncate", "iptables", "ip6tables", "nft", "ufw",
    "useradd", "userdel", "usermod", "passwd", "visudo"] command ||
  (oneOf ["find"] command && anyIn ["-delete", "-exec", "-execdir"] args) ||
  (oneOf ["ip"] command && anyIn
    ["add", "delete", "del", "replace", "change", "set", "flush"] args) ||
  (oneOf ["chmod", "chown"] command && args.any fun arg =>
    startsWith "-" arg && (arg.contains 'r' || arg.contains 'R')) ||
  (oneOf ["cp", "mv", "chmod", "chown"] command &&
    args.any isSensitiveTerminalPath) ||
  (oneOf ["sed"] command && args.any fun arg =>
    oneOf ["-i"] arg || startsWith "-i" arg) ||
  (oneOf ["perl"] command && args.any fun arg =>
    startsWith "-" arg && arg.contains 'p' && arg.contains 'i') ||
  (oneOf ["systemctl"] command &&
    firstIn ["restart", "stop", "disable", "mask"] args) ||
  oneOf ["service"] command ||
  (oneOf ["apt", "apt-get", "yum", "dnf", "pacman", "brew", "pip", "pip3"]
    command && anyIn ["install", "remove", "purge", "uninstall", "-s", "-r"]
    args) ||
  (oneOf ["npm"] command && anyIn ["-g", "--global"] args) ||
  (if oneOf ["docker"] command then
    firstIn ["rm", "rmi"] args ||
    ["system".toList, "prune".toList].isPrefixOf args ||
    ["compose".toList, "down".toList].isPrefixOf args
  else
    (oneOf ["kubectl"] command &&
      firstIn ["delete", "drain", "apply", "replace"] args) ||
    (oneOf ["terraform"] command && firstIn ["apply", "destroy"] args) ||
    (oneOf ["helm"] command && firstIn ["uninstall"] args) ||
    (oneOf ["git"] command &&
      ((firstIn ["reset"] args && anyIn ["--hard"] args) ||
        (firstIn ["clean"] args && args.any fun arg =>
          startsWith "-" arg && arg.contains 'f'))) ||
    (oneOf ["mysql", "psql"] command && containsSqlWord args "drop") ||
    (oneOf ["redis-cli"] command && anyIn ["flushall", "flushdb"] args))

def isHighRiskStage : Bool :=
  match executableAndArgs stage with
  | none => false
  | some (command, args) => isHighRiskCommand command args

/-- The stage that ends where these tokens, read backwards, begin. -/
def stageBefore (before : List Str) : List Str :=
  (before.takeWhile fun token => !isSeparator token).reverse

def stageAfter (after : List Str) : List Str :=
  after.takeWhile fun token => !isSeparator token

def executableIn : Bool :=
  (executableAndArgs stage).any fun value => oneOf words value.1

/-- A download is piped into a shell.  `before` is what has been passed, read
backwards. -/
def downloadPipeLoop (before : List Str) : List Str → Bool
  | [] => false
  | token :: tokens =>
    (oneOf ["|"] token && executableIn ["curl", "wget"] (stageBefore before) &&
      executableIn ["sh", "bash", "zsh", "fish"] (stageAfter tokens)) ||
    downloadPipeLoop (token :: before) tokens

def isDownloadPipeToShell (tokens : List Str) : Bool := downloadPipeLoop [] tokens

def hasSensitiveWriteRedirection : List Str → Bool
  | operator :: target :: rest =>
    (isWriteRedirection operator && isSensitiveTerminalPath target) ||
    hasSensitiveWriteRedirection (target :: rest)
  | _ => false

/-- The last part of the assessment: no stage is known to be dangerous. -/
def assessStages (sawWrite : Bool) : List (List Str) → RiskAssessment
  | [] =>
    if sawWrite then
      risk .medium "matches a known ordinary state-changing command pattern"
        true
    else risk .low "matches read-only diagnostic command patterns" true
  | stage :: stages =>
    match classifyStage stage with
    | .readOnly => assessStages sawWrite stages
    | .write => assessStages true stages
    | .unknown =>
      risk .medium
        "command is not explicitly classified as safe for automatic execution"
        false

def criticalRisk : RiskAssessment :=
  risk .critical "matches irreversible or system-disruptive command pattern" false

def highRisk : RiskAssessment :=
  risk .high "matches privileged or high-impact mutation pattern" false

def unclassifiedRisk : RiskAssessment :=
  risk .medium "command could not be classified" false

def assessTokens (tokens : List Str) : RiskAssessment :=
  let stages := commandStages tokens
  if stages.isEmpty then unclassifiedRisk
  else if stages.any isCriticalStage then criticalRisk
  else if isDownloadPipeToShell tokens || hasSensitiveWriteRedirection tokens ||
      stages.any isHighRiskStage then highRisk
  else assessStages (tokens.any isWriteRedirection) stages

def assessCommandRisk : RiskAssessment :=
  let normalized := unixNewlines (RustStr.trim command)
  if normalized.isEmpty then risk .medium "empty command" false
  else if containsStr forkBomb (splitWhitespace normalized).flatten then
    criticalRisk
  else
    let tokens := tokenizeShell (asciiLowercase normalized)
    if tokens.isEmpty then unclassifiedRisk else assessTokens tokens

example : assessCommandRisk "ls -la | grep src".toList =
    risk .low "matches read-only diagnostic command patterns" true := by
  decide +kernel

/-! Changes of a remote file system. -/

inductive SftpRiskOperation
  | read
  | write
  | mkdir
  | rename
  | delete
  | chmod
deriving DecidableEq, Repr

/-- One part of a path, with the parts before it read backwards and whether a
parent has been visited. -/
def normalizePart (state : List Str × Bool) (part : Str) : List Str × Bool :=
  if part = [] ∨ part = ['.'] then state
  else if part = ['.', '.'] then
    match state.1 with
    | [] => ([], true)
    | last :: parts => if last = ['~'] then (last :: parts, true) else (parts, true)
  else (part :: state.1, state.2)

def normalizeRemotePath (path : Str) : Str × Bool :=
  let path := (RustStr.trim path).map fun c => if c = '\\' then '/' else c
  let absolute := startsWith "/" path
  let home := oneOf ["~"] path || startsWith "~/" path
  let walked := (path.splitOn '/').foldl normalizePart ([], false)
  let joined := List.intercalate ['/'] walked.1.reverse
  let normalized :=
    if absolute && joined.isEmpty then ['/']
    else if absolute then '/' :: joined
    else if home && !startsWith "~" joined then '~' :: '/' :: joined
    else joined
  (if normalized = ['/'] then normalized
    else trimEndMatches '/' normalized,
    walked.2)

def isSensitivePath (path : Str) : Bool :=
  let components := path.splitOn '/'
  oneOf ["/"] path ||
  (["/etc", "/boot", "/bin", "/sbin", "/usr", "/lib", "/lib64", "/var/lib",
      "/root"].any fun root =>
    path == root.toList || startsWith (root ++ "/") path) ||
  components.any (oneOf [".ssh"]) || oneOf ["~/.ssh", ".ssh"] path ||
  startsWith "~/.ssh/" path || startsWith ".ssh/" path ||
  containsStr "/.ssh/" path ||
  oneOf ["authorized_keys", "sshd_config", "sudoers", "passwd", "shadow",
    "group", "crontab"] (components.getLastD []) ||
  components.any (oneOf ["sudoers.d", "systemd", "nginx", "cron", "cron.d",
    "cron.daily", "cron.hourly", "cron.monthly", "cron.weekly"]) ||
  (rsplitOnce '.' path).any fun parts =>
    oneOf ["service", "socket", "timer", "target"] parts.2

/-- Digits to the base eight, as `u32::from_str_radix` reads them: a sign in
front is let through, and the value has to fit. -/
def parseOctal (text : Str) : Option Nat :=
  let digits :=
    match text with
    | '+' :: rest => rest
    | _ => text
  if digits.isEmpty || digits.any fun c => !('0' ≤ c && c ≤ '7') then none
  else
    let value := digits.foldl (fun value c => value * 8 + (c.toNat - 48)) 0
    if value < 4294967296 then some value else none

def isDangerousMode (mode : Str) : Bool :=
  let trimmed := RustStr.trim mode
  let digits := if startsWith "0o" trimmed then trimmed.drop 2 else trimmed
  match parseOctal (trimStartMatches '0' digits) with
  | some value => value == 438 || value == 511
  | none => false

def assessSftpRisk (operation : SftpRiskOperation) (path : Str)
    (destinationPath : Option Str) (force : Bool) (mode : Option Str) :
    RiskAssessment :=
  if operation = .delete then
    risk .high "remote path deletion is destructive" false
  else if operation = .read then
    risk .medium "remote file access may expose sensitive data" true
  else
    let normalized := normalizeRemotePath path
    let destination :=
      match destinationPath with
      | some destination => normalizeRemotePath destination
      | none => ([], false)
    let sensitive := isSensitivePath normalized.1 ||
      (!destination.1.isEmpty && isSensitivePath destination.1)
    if force then
      risk .high "force write bypasses optimistic concurrency protection" false
    else if sensitive || normalized.2 || destination.2 then
      risk .high
        "mutation targets a sensitive or ambiguously resolved remote path" false
    else if operation = .chmod ∧ mode.any isDangerousMode then
      risk .medium "permission change grants broad remote access" true
    else risk .medium "ordinary remote filesystem mutation" true

end NiceTerm.Capabilities
