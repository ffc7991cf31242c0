/-
The host of the agents' connections.  A request is decided in several steps,
with other connections, the user and the settings taking steps in between.
-/
import NiceTerm.Lib.Transition
import NiceTerm.Mcp.Effects

namespace NiceTerm.Mcp

open Capabilities
open RustStr (Str)

inductive ApprovalDecision
  | deny
  | allowOnce
  | allowSession
deriving DecidableEq, Repr

structure Credential where
  token : Str
  scope : McpScope
  permissionMode : AiPermissionMode
  ownerWindowLabel : Option Str
deriving DecidableEq, Repr

/-- A request, and what has been found out about it. -/
structure Call where
  definition : McpToolDefinition
  arguments : Arguments
  sessionId : Option Str
  connectionTarget : Option Str
  assessment : Option RiskAssessment
deriving DecidableEq, Repr

/-- What a permission is given for: a session or a connection to be opened, and
a capability. -/
def Call.grantKey (call : Call) : Option (Str × String) :=
  match call.connectionTarget with
  | some connectionId =>
    some ("connection:".toList ++ connectionId, call.definition.capability)
  | none => call.sessionId.map fun id => (id, call.definition.capability)

def isGrantable (access : CapabilityAccess)
    (assessment : Option RiskAssessment) : Bool :=
  access != .destructiveWrite &&
    assessment.all fun risk => risk.autoExecutable && !risk.level.atLeastHigh

def Call.grantable (call : Call) : Bool :=
  isGrantable call.definition.access call.assessment

def Call.policy (call : Call) (mode : AiPermissionMode) : PolicyDecision :=
  decidePolicy mode call.definition.access call.assessment

/-- How far a connection is with its request. -/
inductive Phase
  | idle
  | listed (definition : McpToolDefinition) (arguments : Arguments)
      (sessions : List SessionInfo)
  | asking (call : Call) (approval : Nat)
  | answered (call : Call) (decision : ApprovalDecision)
  | ready (call : Call)
  | opening (connectionId : Str)
deriving DecidableEq, Repr

/-- `serial` numbers the requests. -/
structure ConnectionContext where
  generation : Str
  credential : Credential
  grants : List (Str × String)
  closed : Bool
  serial : Nat
  phase : Phase
deriving DecidableEq, Repr

/-- What has happened, for the record. -/
inductive Record
  | sessions (sessions : List SessionInfo)
  | issued (generation : Str) (credential : Credential)
  | revoked (generation : Str)
  | authenticated (connection generation token : Str)
  | listed (serial : Nat) (connection : Str)
  | decided (serial : Nat) (connection : Str) (call : Call)
      (sessions : List SessionInfo)
  | answered (serial : Nat) (connection : Str) (call : Call)
      (decision : ApprovalDecision)
  | refused (serial : Nat) (error : RpcError)
  | dispatched (serial : Nat) (connection : Str) (effect : Effect)
  | opened (generation sessionId : Str)
deriving DecidableEq, Repr

/-- `credentials` are all that have been issued, and `pending` the approvals that
wait for the user. -/
structure McpManager where
  sessions : List SessionInfo
  savedConnections : List Str
  credentials : Str → Option Credential
  revoked : Str → Bool
  openedSessionIds : Str → List Str
  connections : Str → Option ConnectionContext
  pending : Nat → Option Str
  next : Nat
  log : List Record

inductive HostEvent
  | sessionsChange (sessions : List SessionInfo)
  | connectionsChange (savedConnections : List Str)
  | issue (generation : Str) (credential : Credential)
  | revoke (generation : Str)
  | connect (connection generation token : Str)
  | close (connection : Str)
  | request (connection tool : Str) (arguments : Arguments)
  | decide (connection : Str)
  | respond (approval : Nat) (decision : ApprovalDecision)
  | approvalFails (connection : Str)
  | resume (connection : Str)
  | dispatch (connection : Str)
  | cancelDispatch (connection : Str)
  | sessionOpened (connection sessionId : Str)
  | openFails (connection : Str)
deriving DecidableEq, Repr

namespace McpManager

def empty : McpManager where
  sessions := []
  savedConnections := []
  credentials := fun _ => none
  revoked := fun _ => false
  openedSessionIds := fun _ => []
  connections := fun _ => none
  pending := fun _ => none
  next := 0
  log := []

variable (manager : McpManager)

def record (entry : Record) : McpManager :=
  { manager with log := entry :: manager.log }

variable (connection : Str) (context : ConnectionContext)

def setConnection : McpManager :=
  { manager with
    connections := Function.update manager.connections connection
      (some context) }

def setPhase (phase : Phase) : McpManager :=
  manager.setConnection connection { context with phase := phase }

/-- The request is answered with an error. -/
def refuse (error : RpcError) : McpManager :=
  (manager.setPhase connection context .idle).record
    (.refused context.serial error)

/-- A credential is never issued twice. -/
def issue (generation : Str) (credential : Credential) : Option McpManager :=
  if (manager.credentials generation).isSome then none
  else
    some ({ manager with
      credentials := Function.update manager.credentials generation
        (some credential) }.record (.issued generation credential))

/-- Connections that are open go on, where the source cancels them: more runs
are allowed than it has. -/
def revoke (generation : Str) : McpManager :=
  { manager with
    revoked := Function.update manager.revoked generation true }.record
      (.revoked generation)

def authenticate (generation token : Str) : Option Credential :=
  match manager.credentials generation with
  | some credential =>
    if !manager.revoked generation && credential.token == token then
      some credential
    else none
  | none => none

/-- A new connection, if its first request is a valid `auth`. -/
def connect (generation token : Str) : Option McpManager :=
  if (manager.connections connection).isSome then none
  else
    match manager.authenticate generation token with
    | none => some manager
    | some credential =>
      some ((manager.setConnection connection
        ⟨generation, credential, [], false, 0, .idle⟩).record
          (.authenticated connection generation token))

/-- A request begins with the list of the sessions.  Output that is read again
concerns no session. -/
def request (tool : Str) (arguments : Arguments) : McpManager :=
  let context := { context with serial := manager.next }
  let manager := { manager with next := manager.next + 1 }
  match capabilityForTool tool with
  | none =>
    manager.refuse connection context
      ⟨"invalid_argument", some "Unknown NiceTerm MCP tool."⟩
  | some definition =>
    if definition.tool = .outputRead then
      manager.setPhase connection context .idle
    else
      (manager.setPhase connection context
        (.listed definition arguments manager.sessions)).record
          (.listed context.serial connection)

def resolveCredentialScope (credential : Credential)
    (sessions : List SessionInfo) (openedSessionIds : List Str) :
    McpScopeSnapshot :=
  (credential.scope.resolve sessions).extend (openedSessionIds.filter fun id =>
      (sessions.map SessionInfo.id).contains id)

/-- The saved connection that is to be opened. -/
def resolveConnection (savedConnections : List Str) (tool : Tool)
    (arguments : Arguments) : Except RpcError (Option Str) :=
  if tool = .sessionOpen then do
    let connectionId ← parsed "invalid_argument" (parseSessionOpen arguments)
    connectionSummary savedConnections connectionId
    return some connectionId
  else .ok none

/-- What is found out about a request before the policy is asked. -/
def assessCall (savedConnections : List Str) (scope : McpScopeSnapshot)
    (definition : McpToolDefinition) (arguments : Arguments) :
    Except RpcError Call := do
  let connectionTarget ←
    resolveConnection savedConnections definition.tool arguments
  let sessionId ← resolveSession scope definition.tool arguments
  if definition.requiresSession && sessionId.isNone then
    failure "invalid_argument"
      "A target session is required for this capability."
  else do
    let assessment ← assess definition.tool arguments
    return ⟨definition, arguments, sessionId, connectionTarget, assessment⟩

/-- The window that is asked: that of the session, or else that of the
credential. -/
def approvalOwner (sessions : List SessionInfo) (credential : Credential)
    (sessionId : Option Str) : Except RpcError Str :=
  match sessionId with
  | none =>
    match credential.ownerWindowLabel with
    | some label => .ok label
    | none =>
      failure "approval_denied"
        "The MCP owner window is unavailable for approval."
  | some id =>
    match sessions.find? fun session => session.id == id with
    | none => .error ⟨"invalid_argument", none⟩
    | some session =>
      match session.ownerWindowLabel.or credential.ownerWindowLabel with
      | some label => .ok label
      | none =>
        failure "approval_denied"
          "The MCP owner window is unavailable for approval."

variable (call : Call)

def isGranted : Bool :=
  call.grantable && call.grantKey.any context.grants.contains

/-- The policy is asked, then the permissions given earlier, then the user. -/
def applyPolicy : McpManager :=
  let policy := call.policy context.credential.permissionMode
  if policy = .deny then
    manager.refuse connection context
      ⟨"permission_denied", some
        "The current MCP permission mode does not allow this operation."⟩
  else if policy = .requireApproval ∧ isGranted context call = false then
    match approvalOwner manager.sessions context.credential call.sessionId with
    | .error error => manager.refuse connection context error
    | .ok _ =>
      { manager.setPhase connection context (.asking call manager.next) with
        next := manager.next + 1
        pending := Function.update manager.pending manager.next
          (some connection) }
  else manager.setPhase connection context (.ready call)

def decide (definition : McpToolDefinition) (arguments : Arguments)
    (sessions : List SessionInfo) : McpManager :=
  let scope := resolveCredentialScope context.credential sessions
    (manager.openedSessionIds context.generation)
  match assessCall manager.savedConnections scope definition arguments with
  | .error error => manager.refuse connection context error
  | .ok call =>
    (manager.record (.decided context.serial connection call sessions)).applyPolicy
      connection context call

/-- An answer of the user goes to the request that waits for it. -/
def respond (approval : Nat) (decision : ApprovalDecision) : McpManager :=
  let taken :=
    { manager with pending := Function.update manager.pending approval none }
  match manager.pending approval with
  | none => manager
  | some connection =>
    match manager.connections connection with
    | none => taken
    | some context =>
      match context.phase with
      | .asking call waiting =>
        if waiting = approval then
          (taken.setPhase connection context (.answered call decision)).record
              (.answered context.serial connection call decision)
        else taken
      | _ => taken

def approvalFails (approval : Nat) : McpManager :=
  ({ manager with
    pending := Function.update manager.pending approval none }).refuse
      connection context ⟨"approval_denied", none⟩

def resume (decision : ApprovalDecision) : McpManager :=
  if decision = .deny then
    manager.refuse connection context
      ⟨"approval_denied", some "The operation was denied by the user."⟩
  else
    let grants :=
      if decision = .allowSession ∧ call.grantable = true then
        call.grantKey.toList ++ context.grants
      else context.grants
    manager.setPhase connection { context with grants := grants } (.ready call)

def carryOut : McpManager :=
  match dispatch manager.savedConnections context.credential.ownerWindowLabel
      call.definition.tool call.arguments call.sessionId with
  | .error error => manager.refuse connection context error
  | .ok none => manager.setPhase connection context .idle
  | .ok (some (.openSession connectionId)) =>
    (manager.setPhase connection context (.opening connectionId)).record
      (.dispatched context.serial connection (.openSession connectionId))
  | .ok (some (.inSession sessionId operation)) =>
    (manager.setPhase connection context .idle).record
      (.dispatched context.serial connection (.inSession sessionId operation))

/-- The frontend names the session it has opened. -/
def sessionOpened (connectionId sessionId : Str) : McpManager :=
  match manager.sessions.find? fun session => session.id == sessionId with
  | none =>
    manager.refuse connection context ⟨"invalid_argument", none⟩
  | some session =>
    if session.ownerWindowLabel = context.credential.ownerWindowLabel ∧
        session.connectionId = some connectionId ∧
        session.connected = true then
      let openedSessionIds := Function.update manager.openedSessionIds
        context.generation
        (sessionId :: manager.openedSessionIds context.generation)
      ({ manager with openedSessionIds := openedSessionIds }.setPhase
        connection context .idle).record
          (.opened context.generation sessionId)
    else
      manager.refuse connection context
        ⟨"invalid_argument", some
          "The opened session does not match the requested saved connection."⟩

/-- The steps of a connection, in the phase that it is in. -/
def stepConnection : HostEvent → Option McpManager
  | .close _ =>
    if context.phase = .idle then
      some (manager.setConnection connection { context with closed := true })
    else none
  | .request _ tool arguments =>
    if context.phase = .idle ∧ context.closed = false then
      some (manager.request connection context tool arguments)
    else none
  | .decide _ =>
    match context.phase with
    | .listed definition arguments sessions =>
      some (manager.decide connection context definition arguments sessions)
    | _ => none
  | .approvalFails _ =>
    match context.phase with
    | .asking _ approval =>
      some (manager.approvalFails connection context approval)
    | _ => none
  | .resume _ =>
    match context.phase with
    | .answered call decision =>
      some (manager.resume connection context call decision)
    | _ => none
  | .dispatch _ =>
    match context.phase with
    | .ready call => some (manager.carryOut connection context call)
    | _ => none
  | .cancelDispatch _ =>
    match context.phase with
    | .ready call =>
      if call.definition.tool = .sessionOpen then none
      else some (manager.refuse connection context
        ⟨"cancelled", some "The MCP request was cancelled."⟩)
    | _ => none
  | .sessionOpened _ sessionId =>
    match context.phase with
    | .opening connectionId =>
      some (manager.sessionOpened connection context connectionId sessionId)
    | _ => none
  | .openFails _ =>
    match context.phase with
    | .opening _ =>
      some (manager.refuse connection context ⟨"cancelled", none⟩)
    | _ => none
  | _ => none

def onConnection (event : HostEvent) : Option McpManager :=
  match manager.connections connection with
  | none => none
  | some context => manager.stepConnection connection context event

def step (manager : McpManager) : HostEvent → Option McpManager
  | .sessionsChange sessions =>
    some ({ manager with sessions := sessions }.record (.sessions sessions))
  | .connectionsChange savedConnections =>
    some { manager with savedConnections := savedConnections }
  | .issue generation credential => manager.issue generation credential
  | .revoke generation => some (manager.revoke generation)
  | .connect connection generation token =>
    manager.connect connection generation token
  | .respond approval decision => some (manager.respond approval decision)
  | .close connection => manager.onConnection connection (.close connection)
  | .request connection tool arguments =>
    manager.onConnection connection (.request connection tool arguments)
  | .decide connection => manager.onConnection connection (.decide connection)
  | .approvalFails connection =>
    manager.onConnection connection (.approvalFails connection)
  | .resume connection => manager.onConnection connection (.resume connection)
  | .dispatch connection =>
    manager.onConnection connection (.dispatch connection)
  | .cancelDispatch connection =>
    manager.onConnection connection (.cancelDispatch connection)
  | .sessionOpened connection sessionId =>
    manager.onConnection connection (.sessionOpened connection sessionId)
  | .openFails connection =>
    manager.onConnection connection (.openFails connection)

def system : Transition.System McpManager HostEvent where
  init := fun manager => manager = empty
  step := step

end McpManager

end NiceTerm.Mcp
