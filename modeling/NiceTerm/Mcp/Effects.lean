/-
The tools that an agent may call, and the arguments of a call.
-/
import Mathlib.Data.List.Dedup
import NiceTerm.Capabilities.CommandRisk

namespace NiceTerm.Mcp

open Capabilities List
open RustStr (Str)

inductive Tool
  | getEnvironment
  | connectionList
  | sessionOpen
  | sessionGet
  | terminalExecute
  | terminalRecentOutput
  | sftpHome
  | sftpList
  | sftpStat
  | sftpReadText
  | sftpWriteText
  | sftpMkdir
  | sftpRename
  | sftpDelete
  | sftpChmod
  | outputRead
deriving DecidableEq, Repr

/-- The fields that the host reads. -/
structure McpToolDefinition where
  tool : Tool
  name : String
  capability : String
  access : CapabilityAccess
  requiresSession : Bool
deriving DecidableEq, Repr

def mcpToolRegistry : List McpToolDefinition :=
  [⟨.getEnvironment, "get_environment", "session.environment", .read, false⟩,
    ⟨.connectionList, "connection_list", "connection.list", .read, false⟩,
    ⟨.sessionOpen, "session_open", "session.open", .write, false⟩,
    ⟨.sessionGet, "session_get", "session.get", .read, true⟩,
    ⟨.terminalExecute, "terminal_execute", "terminal.execute", .write, true⟩,
    ⟨.terminalRecentOutput, "terminal_recent_output", "terminal.recent_output",
      .sensitiveRead, true⟩,
    ⟨.sftpHome, "sftp_home", "sftp.home", .sensitiveRead, true⟩,
    ⟨.sftpList, "sftp_list", "sftp.list", .sensitiveRead, true⟩,
    ⟨.sftpStat, "sftp_stat", "sftp.stat", .sensitiveRead, true⟩,
    ⟨.sftpReadText, "sftp_read_text", "sftp.read", .sensitiveRead, true⟩,
    ⟨.sftpWriteText, "sftp_write_text", "sftp.write", .write, true⟩,
    ⟨.sftpMkdir, "sftp_mkdir", "sftp.mkdir", .write, true⟩,
    ⟨.sftpRename, "sftp_rename", "sftp.rename", .write, true⟩,
    ⟨.sftpDelete, "sftp_delete", "sftp.delete", .destructiveWrite, true⟩,
    ⟨.sftpChmod, "sftp_chmod", "sftp.chmod", .write, true⟩,
    ⟨.outputRead, "tool_output_read", "tool.output.read", .sensitiveRead,
      false⟩]

/-- What a tool does and what it accesses. -/
def Tool.capability : Tool → String × CapabilityAccess
  | .getEnvironment => ("session.environment", .read)
  | .connectionList => ("connection.list", .read)
  | .sessionOpen => ("session.open", .write)
  | .sessionGet => ("session.get", .read)
  | .terminalExecute => ("terminal.execute", .write)
  | .terminalRecentOutput => ("terminal.recent_output", .sensitiveRead)
  | .sftpHome => ("sftp.home", .sensitiveRead)
  | .sftpList => ("sftp.list", .sensitiveRead)
  | .sftpStat => ("sftp.stat", .sensitiveRead)
  | .sftpReadText => ("sftp.read", .sensitiveRead)
  | .sftpWriteText => ("sftp.write", .write)
  | .sftpMkdir => ("sftp.mkdir", .write)
  | .sftpRename => ("sftp.rename", .write)
  | .sftpDelete => ("sftp.delete", .destructiveWrite)
  | .sftpChmod => ("sftp.chmod", .write)
  | .outputRead => ("tool.output.read", .sensitiveRead)

/-- The registry says of each tool what it does, and of no two the same. -/
theorem registry_capability : ∀ definition ∈ mcpToolRegistry,
    definition.tool.capability = (definition.capability, definition.access) := by
  decide

def capabilityForTool (name : Str) : Option McpToolDefinition :=
  mcpToolRegistry.find? fun definition => definition.name.toList == name

/-- A JSON value, as far as an argument can be read from it. -/
inductive Value
  | null
  | bool (value : Bool)
  | number (value : Nat)
  | string (value : Str)
  | other
deriving DecidableEq, Repr

/-- The arguments of a call, usually an object. -/
inductive Arguments
  | object (members : List (Str × Value))
  | array (elements : List Value)
  | other
deriving DecidableEq, Repr

namespace Arguments

/-- `arguments.get(name).and_then(Value::as_str)`. -/
def getStr (arguments : Arguments) (name : String) : Option Str :=
  match arguments with
  | .object members =>
    match members.lookup name.toList with
    | some (.string value) => some value
    | _ => none
  | _ => none

/-- The fields of a structure with these names, in their order.  Unknown fields
are refused; an array gives the fields by their position. -/
def fields (arguments : Arguments) (names : List String) :
    Option (String → Option Value) :=
  match arguments with
  | .object members =>
    if members.all fun member => names.any fun name =>
        name.toList == member.1 then
      some fun name => members.lookup name.toList
    else none
  | .array elements =>
    if elements.length ≤ names.length then
      some fun name => elements[names.idxOf name]?
    else none
  | .other => none

end Arguments

def requiredString : Option Value → Option Str
  | some (.string value) => some value
  | _ => none

def optionalString : Option Value → Option (Option Str)
  | none | some .null => some none
  | some (.string value) => some (some value)
  | _ => none

def optionalNumber : Option Value → Option (Option Nat)
  | none | some .null => some none
  | some (.number value) => some (some value)
  | _ => none

def optionalBool : Option Value → Option (Option Bool)
  | none | some .null => some none
  | some (.bool value) => some (some value)
  | _ => none

structure TerminalExecuteArgs where
  sessionId : Option Str
  command : Str
  timeoutMs : Option Nat
deriving DecidableEq, Repr

variable (arguments : Arguments)

def TerminalExecuteArgs.parse :
    Option TerminalExecuteArgs := do
  let field ← arguments.fields ["sessionId", "command", "timeoutMs"]
  let sessionId ← optionalString (field "sessionId")
  let command ← requiredString (field "command")
  let timeoutMs ← optionalNumber (field "timeoutMs")
  return ⟨sessionId, command, timeoutMs⟩

def parseSessionOpen : Option Str := do
  let field ← arguments.fields ["connectionId"]
  requiredString (field "connectionId")

def parseSession : Option Str := do
  let field ← arguments.fields ["sessionId"]
  requiredString (field "sessionId")

structure PathArgs where
  sessionId : Str
  path : Str
deriving DecidableEq, Repr

def PathArgs.parse : Option PathArgs := do
  let field ← arguments.fields ["sessionId", "path"]
  let sessionId ← requiredString (field "sessionId")
  let path ← requiredString (field "path")
  return ⟨sessionId, path⟩

structure TerminalRecentOutputArgs where
  sessionId : Str
  lines : Option Nat
deriving DecidableEq, Repr

def TerminalRecentOutputArgs.parse :
    Option TerminalRecentOutputArgs := do
  let field ← arguments.fields ["sessionId", "lines"]
  let sessionId ← requiredString (field "sessionId")
  let lines ← optionalNumber (field "lines")
  return ⟨sessionId, lines⟩

structure SftpReadTextArgs where
  sessionId : Str
  path : Str
  maxBytes : Option Nat
deriving DecidableEq, Repr

def SftpReadTextArgs.parse :
    Option SftpReadTextArgs := do
  let field ← arguments.fields ["sessionId", "path", "maxBytes"]
  let sessionId ← requiredString (field "sessionId")
  let path ← requiredString (field "path")
  let maxBytes ← optionalNumber (field "maxBytes")
  return ⟨sessionId, path, maxBytes⟩

structure SftpWriteTextArgs where
  sessionId : Str
  path : Str
  content : Str
  expectedMtime : Option Nat
  expectedSize : Option Nat
  expectedHash : Option Str
  force : Option Bool
deriving DecidableEq, Repr

def SftpWriteTextArgs.parse :
    Option SftpWriteTextArgs := do
  let field ← arguments.fields ["sessionId", "path", "content",
    "expectedMtime", "expectedSize", "expectedHash", "force"]
  let sessionId ← requiredString (field "sessionId")
  let path ← requiredString (field "path")
  let content ← requiredString (field "content")
  let expectedMtime ← optionalNumber (field "expectedMtime")
  let expectedSize ← optionalNumber (field "expectedSize")
  let expectedHash ← optionalString (field "expectedHash")
  let force ← optionalBool (field "force")
  return ⟨sessionId, path, content, expectedMtime, expectedSize, expectedHash,
    force⟩

structure SftpMkdirArgs where
  sessionId : Str
  path : Str
  mode : Option Str
deriving DecidableEq, Repr

def SftpMkdirArgs.parse : Option SftpMkdirArgs := do
  let field ← arguments.fields ["sessionId", "path", "mode"]
  let sessionId ← requiredString (field "sessionId")
  let path ← requiredString (field "path")
  let mode ← optionalString (field "mode")
  return ⟨sessionId, path, mode⟩

structure SftpRenameArgs where
  sessionId : Str
  oldPath : Str
  newPath : Str
deriving DecidableEq, Repr

def SftpRenameArgs.parse : Option SftpRenameArgs := do
  let field ← arguments.fields ["sessionId", "oldPath", "newPath"]
  let sessionId ← requiredString (field "sessionId")
  let oldPath ← requiredString (field "oldPath")
  let newPath ← requiredString (field "newPath")
  return ⟨sessionId, oldPath, newPath⟩

structure SftpChmodArgs where
  sessionId : Str
  path : Str
  mode : Str
deriving DecidableEq, Repr

def SftpChmodArgs.parse : Option SftpChmodArgs := do
  let field ← arguments.fields ["sessionId", "path", "mode"]
  let sessionId ← requiredString (field "sessionId")
  let path ← requiredString (field "path")
  let mode ← requiredString (field "mode")
  return ⟨sessionId, path, mode⟩

/-! The sessions that an agent may use, and what a call does to one of them. A
scope belongs to a credential; it is resolved against the sessions that are
there. -/

/-- What the scope and the host read of a session. -/
structure SessionInfo where
  id : Str
  connectionId : Option Str
  connected : Bool
  ownerWindowLabel : Option Str
deriving DecidableEq, Repr

inductive McpScope
  | explicit (sessionIds : List Str) (defaultSessionId : Option Str)
  | currentWindow (ownerWindowLabel : Str)
  | allSessions
deriving DecidableEq, Repr

/-- The default is one of the sessions. -/
structure McpScopeSnapshot where
  sessionIds : List Str
  defaultSessionId : Option Str
  default_mem : ∀ id ∈ defaultSessionId, id ∈ sessionIds

def onlyOne (ids : List Str) : Option Str :=
  match ids.dedup with
  | [id] => some id
  | _ => none

theorem onlyOne_mem {ids : List Str} : ∀ id ∈ onlyOne ids, id ∈ ids := by
  intro id hid
  rw [onlyOne] at hid
  split at hid
  · rename_i only honly
    obtain rfl : only = id := Option.some.inj hid
    exact mem_dedup.mp (by simp [honly])
  · exact absurd hid (by simp)

def dynamicSnapshot (sessions : List SessionInfo) : McpScopeSnapshot where
  sessionIds := sessions.map SessionInfo.id
  defaultSessionId := onlyOne (sessions.map SessionInfo.id)
  default_mem := onlyOne_mem

def McpScope.resolve (scope : McpScope) (sessions : List SessionInfo) :
    McpScopeSnapshot :=
  match scope with
  | .explicit sessionIds defaultSessionId =>
    let live := sessionIds.filter fun id =>
      (sessions.map SessionInfo.id).contains id
    { sessionIds := live
      defaultSessionId := defaultSessionId.filter fun id => live.contains id
      default_mem := fun id hid => by
        obtain ⟨-, hlive⟩ := Option.mem_filter_iff.mp hid
        exact contains_iff_mem.mp hlive }
  | .currentWindow ownerWindowLabel =>
    dynamicSnapshot (sessions.filter fun session =>
      session.ownerWindowLabel == some ownerWindowLabel)
  | .allSessions => dynamicSnapshot sessions

/-- The sessions that a credential has opened and that are still there belong to
its scope. -/
def McpScopeSnapshot.extend (snapshot : McpScopeSnapshot) (ids : List Str) :
    McpScopeSnapshot where
  sessionIds := snapshot.sessionIds ++ ids
  defaultSessionId := snapshot.defaultSessionId
  default_mem id hid :=
    mem_append_left ids (snapshot.default_mem id hid)

/-- Which sessions a scope is meant to let through. -/
def McpScope.Admits (scope : McpScope) (session : SessionInfo) : Prop :=
  match scope with
  | .explicit sessionIds _ => session.id ∈ sessionIds
  | .currentWindow ownerWindowLabel =>
    session.ownerWindowLabel = some ownerWindowLabel
  | .allSessions => True

theorem mem_resolve_iff (scope : McpScope) (sessions : List SessionInfo)
    (id : Str) :
    id ∈ (scope.resolve sessions).sessionIds ↔
      ∃ session ∈ sessions, session.id = id ∧ scope.Admits session := by
  cases scope with
  | explicit sessionIds defaultSessionId =>
    simp only [McpScope.resolve, McpScope.Admits, mem_filter,
      contains_iff_mem, mem_map]
    constructor
    · rintro ⟨hmem, session, hsession, rfl⟩
      exact ⟨session, hsession, rfl, hmem⟩
    · rintro ⟨session, hsession, rfl, hmem⟩
      exact ⟨hmem, session, hsession, rfl⟩
  | currentWindow ownerWindowLabel =>
    simp only [McpScope.resolve, McpScope.Admits, dynamicSnapshot,
      mem_map, mem_filter, beq_iff_eq]
    constructor
    · rintro ⟨session, ⟨hsession, howner⟩, rfl⟩
      exact ⟨session, hsession, rfl, howner⟩
    · rintro ⟨session, hsession, rfl, howner⟩
      exact ⟨session, ⟨hsession, howner⟩, rfl⟩
  | allSessions =>
    simp [McpScope.resolve, McpScope.Admits, dynamicSnapshot]

/-! What a call does to a session.  The host reads the arguments twice: to
decide, and again to carry the call out. -/

/-- An answer that refuses a call.  There is no text where the parser of the
arguments gives it. -/
structure RpcError where
  code : String
  message : Option String
deriving DecidableEq, Repr

def failure {α : Type} (code message : String) : Except RpcError α :=
  .error ⟨code, some message⟩

/-- Arguments that do not fit are answered in the words of their parser. -/
def parsed {α : Type} (code : String) : Option α → Except RpcError α
  | some value => .ok value
  | none => .error ⟨code, none⟩

/-- What is done in a session. -/
inductive Operation
  | get
  | execute (command : Str) (timeoutMs : Nat)
  | recentOutput (lines : Nat)
  | home
  | list (path : Str)
  | stat (path : Str)
  | readText (path : Str) (maxBytes : Nat)
  | writeText (path content : Str) (expectedMtime expectedSize : Option Nat)
      (expectedHash : Option Str) (force : Bool)
  | mkdir (path : Str) (mode : Option Str)
  | rename (oldPath newPath : Str)
  | delete (path : Str)
  | chmod (path mode : Str)
deriving DecidableEq, Repr

inductive Effect
  | openSession (connectionId : Str)
  | inSession (sessionId : Str) (operation : Operation)
deriving DecidableEq, Repr

def Operation.tool : Operation → Tool
  | .get => .sessionGet
  | .execute .. => .terminalExecute
  | .recentOutput _ => .terminalRecentOutput
  | .home => .sftpHome
  | .list _ => .sftpList
  | .stat _ => .sftpStat
  | .readText .. => .sftpReadText
  | .writeText .. => .sftpWriteText
  | .mkdir .. => .sftpMkdir
  | .rename .. => .sftpRename
  | .delete _ => .sftpDelete
  | .chmod .. => .sftpChmod

/-- How risky the operation is, where that depends on what it is given. -/
def Operation.assessment : Operation → Option RiskAssessment
  | .execute command _ => some (assessCommandRisk command)
  | .writeText path _ _ _ _ force =>
    some (assessSftpRisk .write path none force none)
  | .mkdir path mode => some (assessSftpRisk .mkdir path none false mode)
  | .rename oldPath newPath =>
    some (assessSftpRisk .rename oldPath (some newPath) false none)
  | .delete path => some (assessSftpRisk .delete path none false none)
  | .chmod path mode =>
    some (assessSftpRisk .chmod path none false (some mode))
  | .get | .recentOutput _ | .home | .list _ | .stat _ | .readText .. => none

def Effect.tool : Effect → Tool
  | .openSession _ => .sessionOpen
  | .inSession _ operation => operation.tool

def Effect.assessment : Effect → Option RiskAssessment
  | .openSession _ => none
  | .inSession _ operation => operation.assessment

/-- What an effect is done to, as the grants name it. -/
def Effect.target : Effect → Str
  | .openSession connectionId => "connection:".toList ++ connectionId
  | .inSession sessionId _ => sessionId

def notInScope : String :=
  "Session is not available in the current MCP scope."

variable (scope : McpScopeSnapshot)

def McpScopeSnapshot.require (sessionId : Str) : Except RpcError Unit :=
  if sessionId ∈ scope.sessionIds then .ok ()
  else failure "scope_denied" notInScope

def McpScopeSnapshot.resolveTerminalSession
    (requested : Option Str) : Except RpcError Str :=
  match requested.filter fun id => !(RustStr.trim id).isEmpty with
  | some id => do
    scope.require id
    return id
  | none =>
    match scope.defaultSessionId with
    | some id => .ok id
    | none =>
      failure "invalid_argument"
        "No default session is available; provide sessionId explicitly."

/-- The session that an object names. -/
def McpScopeSnapshot.requireNamed
    (arguments : Arguments) : Except RpcError (Option Str) :=
  match arguments.getStr "sessionId" with
  | some id => do
    scope.require id
    return some id
  | none => failure "invalid_argument" "sessionId is required."

def resolveSession (tool : Tool)
    (arguments : Arguments) : Except RpcError (Option Str) :=
  match tool with
  | .getEnvironment | .connectionList | .sessionOpen => .ok none
  | .terminalExecute => do
    let args ← parsed "execution_failed" (TerminalExecuteArgs.parse arguments)
    let id ← scope.resolveTerminalSession args.sessionId
    return some id
  | _ => scope.requireNamed arguments

/-- The risk of a call, from its arguments. -/
def assess (tool : Tool) (arguments : Arguments) :
    Except RpcError (Option RiskAssessment) :=
  match tool with
  | .terminalExecute => do
    let args ← parsed "invalid_argument" (TerminalExecuteArgs.parse arguments)
    return some (assessCommandRisk args.command)
  | .sftpWriteText => do
    let args ← parsed "invalid_argument" (SftpWriteTextArgs.parse arguments)
    return some (assessSftpRisk .write args.path none
      (args.force.getD false) none)
  | .sftpMkdir => do
    let args ← parsed "invalid_argument" (SftpMkdirArgs.parse arguments)
    return some (assessSftpRisk .mkdir args.path none false args.mode)
  | .sftpRename => do
    let args ← parsed "invalid_argument" (SftpRenameArgs.parse arguments)
    return some (assessSftpRisk .rename args.oldPath (some args.newPath) false
      none)
  | .sftpDelete => do
    let args ← parsed "invalid_argument" (PathArgs.parse arguments)
    return some (assessSftpRisk .delete args.path none false none)
  | .sftpChmod => do
    let args ← parsed "invalid_argument" (SftpChmodArgs.parse arguments)
    return some (assessSftpRisk .chmod args.path none false (some args.mode))
  | _ => .ok none

/-- Whether a terminal connection with this identifier is saved. -/
def connectionSummary (savedConnections : List Str) (connectionId : Str) :
    Except RpcError Unit :=
  if (RustStr.trim connectionId).isEmpty then
    failure "invalid_argument" "connectionId is required."
  else if savedConnections.contains connectionId then .ok ()
  else failure "invalid_argument"
    "The saved connection does not exist or is not a supported terminal connection."

def maxTextReadBytes : Nat := 65536
def maxTextWriteBytes : Nat := 1048576

/-- What a call does, if its arguments allow it. -/
def dispatch (savedConnections : List Str) (ownerWindowLabel : Option Str)
    (tool : Tool) (arguments : Arguments) (sessionId : Option Str) :
    Except RpcError (Option Effect) :=
  match tool with
  | .getEnvironment | .connectionList => .ok none
  | .sessionOpen => do
    let connectionId ← parsed "invalid_argument" (parseSessionOpen arguments)
    connectionSummary savedConnections connectionId
    if ownerWindowLabel.isNone then
      failure "invalid_argument" "The MCP owner window is unavailable."
    else return some (.openSession connectionId)
  | .sessionGet => do
    let id ← parsed "invalid_argument" (parseSession arguments)
    return some (.inSession id .get)
  | .terminalExecute => do
    let args ← parsed "invalid_argument" (TerminalExecuteArgs.parse arguments)
    let timeoutMs := args.timeoutMs.getD 30000
    if (RustStr.trim args.command).isEmpty then
      failure "invalid_argument" "command must not be empty."
    else if timeoutMs < 1000 ∨ 300000 < timeoutMs then
      failure "invalid_argument" "timeoutMs must be between 1 and 300000."
    else return sessionId.map fun id =>
      .inSession id (.execute args.command timeoutMs)
  | .terminalRecentOutput => do
    let args ← parsed "invalid_argument"
      (TerminalRecentOutputArgs.parse arguments)
    return sessionId.map fun id =>
      .inSession id (.recentOutput (max 1 (min 500 (args.lines.getD 100))))
  | .sftpHome => do
    let id ← parsed "invalid_argument" (parseSession arguments)
    return some (.inSession id .home)
  | .sftpList => do
    let args ← parsed "invalid_argument" (PathArgs.parse arguments)
    return some (.inSession args.sessionId (.list args.path))
  | .sftpStat => do
    let args ← parsed "invalid_argument" (PathArgs.parse arguments)
    return some (.inSession args.sessionId (.stat args.path))
  | .sftpReadText => do
    let args ← parsed "invalid_argument" (SftpReadTextArgs.parse arguments)
    let maxBytes := args.maxBytes.getD maxTextReadBytes
    if maxBytes = 0 ∨ maxTextReadBytes < maxBytes then
      failure "invalid_argument" "maxBytes must be between 1 and 65536."
    else return some (.inSession args.sessionId (.readText args.path maxBytes))
  | .sftpWriteText => do
    let args ← parsed "invalid_argument" (SftpWriteTextArgs.parse arguments)
    if maxTextWriteBytes < RustStr.len args.content then
      failure "invalid_argument" "content exceeds the 1 MiB limit."
    else return some (.inSession args.sessionId (.writeText args.path
      args.content args.expectedMtime args.expectedSize args.expectedHash
      (args.force.getD false)))
  | .sftpMkdir => do
    let args ← parsed "invalid_argument" (SftpMkdirArgs.parse arguments)
    return some (.inSession args.sessionId (.mkdir args.path args.mode))
  | .sftpRename => do
    let args ← parsed "invalid_argument" (SftpRenameArgs.parse arguments)
    return some (.inSession args.sessionId (.rename args.oldPath args.newPath))
  | .sftpDelete => do
    let args ← parsed "invalid_argument" (PathArgs.parse arguments)
    return some (.inSession args.sessionId (.delete args.path))
  | .sftpChmod => do
    let args ← parsed "invalid_argument" (SftpChmodArgs.parse arguments)
    return some (.inSession args.sessionId (.chmod args.path args.mode))
  | .outputRead => failure "invalid_argument" "Unknown NiceTerm MCP tool."

end NiceTerm.Mcp
