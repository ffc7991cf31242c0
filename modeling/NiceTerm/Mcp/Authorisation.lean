/-
Nothing is done to a session unless the connection is authenticated, the session
is in the scope of its credential, and the policy, the user or a permission
that the user has given on this connection allows it.
-/
import NiceTerm.Mcp.Dispatch
import NiceTerm.Mcp.Host

namespace NiceTerm.Mcp

open Capabilities List Option
open McpManager (assessCall resolveCredentialScope isGranted)
open RustStr (Str)

variable (log : List Record)

/-- The connection has shown the token of a credential that was issued and not
yet revoked. -/
def Authenticated (connection generation : Str)
    (credential : Credential) : Prop :=
  ∃ later earlier, log =
      later ++ .authenticated connection generation credential.token :: earlier ∧
    .issued generation credential ∈ earlier ∧ .revoked generation ∉ earlier

/-- Among the sessions that are there, the scope of the credential admits this
one, or the credential has opened it. -/
def InScope (generation : Str) (credential : Credential)
    (sessions : List SessionInfo) (id : Str) : Prop :=
  ∃ session ∈ sessions, session.id = id ∧
    (credential.scope.Admits session ∨ .opened generation id ∈ log)

/-- The sessions that are there. -/
def liveSessions : List Record → List SessionInfo
  | [] => []
  | .sessions sessions :: _ => sessions
  | _ :: earlier => liveSessions earlier

/-- These were the sessions when they were listed for the request. -/
def Listed (serial : Nat) (connection : Str)
    (sessions : List SessionInfo) : Prop :=
  ∃ later earlier, log = later ++ .listed serial connection :: earlier ∧
    sessions = liveSessions earlier

/-- The user has allowed this capability on this target for the whole session,
and the call that was asked about was one for which this counts. -/
def GrantedBefore (connection target : Str) (capability : String) : Prop :=
  ∃ serial call, .answered serial connection call .allowSession ∈ log ∧
    call.grantKey = some (target, capability) ∧
    isGrantable call.definition.access call.assessment = true

/-- The policy allows the effect, or the user has allowed this call, or an
earlier one in a way that covers this effect. -/
def Permitted (serial : Nat) (connection : Str)
    (mode : AiPermissionMode) (effect : Effect) : Prop :=
  let policy := decidePolicy mode effect.tool.capability.2 effect.assessment
  policy = .allow ∨ policy = .requireApproval ∧
    ((∃ call decision, decision ≠ .deny ∧
        .answered serial connection call decision ∈ log ∧
        Carries call.definition.tool call.arguments call.sessionId
          call.assessment effect) ∨
      isGrantable effect.tool.capability.2 effect.assessment = true ∧
        GrantedBefore log connection effect.target effect.tool.capability.1)

/-- What is known before an effect takes place. -/
def Authorised (serial : Nat) (connection : Str) (effect : Effect) : Prop :=
  ∃ generation credential call sessions, Authenticated log connection
    generation credential ∧ Listed log serial connection sessions ∧ .decided
    serial connection call sessions ∈ log ∧ Carries call.definition.tool
    call.arguments call.sessionId call.assessment
      effect ∧
    (∀ id operation, effect = .inSession id operation →
      InScope log generation credential sessions id) ∧
    Permitted log serial connection credential.permissionMode effect

section Growth

variable {log : List Record} {entry : Record}

theorem Authenticated.cons {connection generation : Str}
    {credential : Credential}
    (h : Authenticated log connection generation credential) :
    Authenticated (entry :: log) connection generation credential := by
  obtain ⟨later, earlier, rfl, hissued, hrevoked⟩ := h
  exact ⟨entry :: later, earlier, rfl, hissued, hrevoked⟩

theorem Listed.cons {serial : Nat} {connection : Str}
    {sessions : List SessionInfo} (h : Listed log serial connection sessions) :
    Listed (entry :: log) serial connection sessions := by
  obtain ⟨later, earlier, rfl, hsessions⟩ := h
  exact ⟨entry :: later, earlier, rfl, hsessions⟩

theorem InScope.cons {generation id : Str} {credential : Credential}
    {sessions : List SessionInfo}
    (h : InScope log generation credential sessions id) :
    InScope (entry :: log) generation credential sessions id := by
  obtain ⟨session, hsession, hid, hscope⟩ := h
  exact ⟨session, hsession, hid, hscope.imp_right (mem_cons_of_mem entry)⟩

theorem GrantedBefore.cons {connection target : Str} {capability : String}
    (h : GrantedBefore log connection target capability) :
    GrantedBefore (entry :: log) connection target capability := by
  obtain ⟨serial, call, hanswered, hkey⟩ := h
  exact ⟨serial, call, mem_cons_of_mem entry hanswered, hkey⟩

end Growth

/-- What is known about a call once it has been assessed. -/
structure Assessed (log : List Record) (connection : Str) (serial : Nat)
    (generation : Str) (credential : Credential) (call : Call) : Prop where
  registered : call.definition ∈ mcpToolRegistry
  decided : ∃ sessions, Listed log serial connection sessions ∧ .decided serial
    connection call sessions ∈ log ∧ ∀ id, call.sessionId = some id →
      InScope log generation credential sessions id
  session : ∃ scope : McpScopeSnapshot,
    resolveSession scope call.definition.tool call.arguments = .ok call.sessionId
  assessment : assess call.definition.tool call.arguments = .ok call.assessment
  connection : call.connectionTarget =
    if call.definition.tool = .sessionOpen then parseSessionOpen call.arguments
    else none

/-- The policy or somebody allows the call. -/
def Allowed (connection : Str)
    (context : ConnectionContext) (call : Call) : Prop :=
  let policy := call.policy context.credential.permissionMode
  policy = .allow ∨ policy = .requireApproval ∧
    ((∃ decision, decision ≠ .deny ∧
        .answered context.serial connection call decision ∈ log) ∨
      call.grantable = true ∧ ∃ target capability, call.grantKey = some
        (target, capability) ∧ GrantedBefore log connection target capability)

/-- What holds in each phase. -/
def PhaseHolds (connection : Str) (context : ConnectionContext) : Prop :=
  match context.phase with
  | .idle | .opening _ => True
  | .listed definition _ sessions =>
    definition ∈ mcpToolRegistry ∧
      Listed log context.serial connection sessions
  | .asking call _ =>
    Assessed log connection context.serial context.generation
        context.credential call ∧
      call.policy context.credential.permissionMode = .requireApproval
  | .answered call decision =>
    Assessed log connection context.serial context.generation
        context.credential call ∧
      call.policy context.credential.permissionMode = .requireApproval ∧
      .answered context.serial connection call decision ∈ log
  | .ready call =>
    Assessed log connection context.serial context.generation
        context.credential call ∧
      Allowed log connection context call

/-- What holds of a connection in all phases. -/
structure Standing (log : List Record) (connection : Str)
    (context : ConnectionContext) : Prop where
  authenticated :
    Authenticated log connection context.generation context.credential
  grants : ∀ target capability, (target, capability) ∈ context.grants →
    GrantedBefore log connection target capability

structure ConnectionHolds (log : List Record) (connection : Str)
    (context : ConnectionContext) : Prop
    extends Standing log connection context where
  phase : PhaseHolds log connection context

/-- All effects so far had been authorised when they took place. -/
def AllAuthorised : List Record → Prop
  | [] => True
  | .dispatched serial connection effect :: earlier =>
    Authorised earlier serial connection effect ∧ AllAuthorised earlier
  | _ :: earlier => AllAuthorised earlier

structure Holds (manager : McpManager) : Prop where
  sessions : liveSessions manager.log = manager.sessions
  connections : ∀ connection context,
    manager.connections connection = some context →
      ConnectionHolds manager.log connection context
  credentials : ∀ generation credential,
    manager.credentials generation = some credential →
      .issued generation credential ∈ manager.log
  revoked : ∀ generation, .revoked generation ∈ manager.log →
    manager.revoked generation = true
  opened : ∀ generation, ∀ id ∈ manager.openedSessionIds generation,
    .opened generation id ∈ manager.log
  authorised : AllAuthorised manager.log

section Monotone

variable {log : List Record} {entry : Record} {connection : Str}
  {context : ConnectionContext} {call : Call}

theorem Assessed.cons {serial : Nat} {generation : Str}
    {credential : Credential}
    (h : Assessed log connection serial generation credential call) :
    Assessed (entry :: log) connection serial generation credential call := by
  obtain ⟨sessions, hlisted, hdecided, hscope⟩ := h.decided
  exact { h with
    decided := ⟨sessions, hlisted.cons, mem_cons_of_mem entry hdecided,
      fun id hid => (hscope id hid).cons⟩ }

theorem Allowed.cons (h : Allowed log connection context call) :
    Allowed (entry :: log) connection context call := by
  rcases h with hallow | ⟨hpolicy, ⟨decision, hdecision, hanswered⟩ |
    ⟨hgrantable, target, capability, hkey, hgranted⟩⟩
  · exact .inl hallow
  · exact .inr ⟨hpolicy, .inl
      ⟨decision, hdecision, mem_cons_of_mem entry hanswered⟩⟩
  · exact .inr ⟨hpolicy, .inr
      ⟨hgrantable, target, capability, hkey, hgranted.cons⟩⟩

theorem PhaseHolds.cons (h : PhaseHolds log connection context) :
    PhaseHolds (entry :: log) connection context := by
  unfold PhaseHolds at h ⊢
  cases hphase : context.phase with
  | idle | opening connectionId => trivial
  | listed definition arguments sessions =>
    rw [hphase] at h
    exact ⟨h.1, h.2.cons⟩
  | asking call approval =>
    rw [hphase] at h
    exact ⟨h.1.cons, h.2⟩
  | answered call decision =>
    rw [hphase] at h
    exact ⟨h.1.cons, h.2.1, mem_cons_of_mem entry h.2.2⟩
  | ready call =>
    rw [hphase] at h
    exact ⟨h.1.cons, h.2.cons⟩

theorem Standing.cons (h : Standing log connection context) :
    Standing (entry :: log) connection context :=
  ⟨h.authenticated.cons,
    fun target capability hmem => (h.grants target capability hmem).cons⟩

theorem ConnectionHolds.cons (h : ConnectionHolds log connection context) :
    ConnectionHolds (entry :: log) connection context :=
  ⟨h.toStanding.cons, h.phase.cons⟩

end Monotone

variable {manager : McpManager} {connection : Str} {context : ConnectionContext}

/-- The connections keep what they have when an entry is added. -/
theorem Holds.entry (h : Holds manager) {after : McpManager} {entry : Record}
    (hlog : after.log = entry :: manager.log)
    (hconnections : after.connections = manager.connections)
    (hsessions : liveSessions after.log = after.sessions)
    (hcredentials : ∀ generation credential,
      after.credentials generation = some credential →
        .issued generation credential ∈ after.log)
    (hrevoked : ∀ generation, .revoked generation ∈ after.log →
      after.revoked generation = true)
    (hopened : ∀ generation, ∀ id ∈ after.openedSessionIds generation,
      .opened generation id ∈ after.log)
    (hauthorised : AllAuthorised after.log) : Holds after := by
  refine ⟨hsessions, fun connection context hcontext => ?_, hcredentials,
    hrevoked, hopened, hauthorised⟩
  rw [hlog]
  rw [hconnections] at hcontext
  exact (h.connections connection context hcontext).cons

/-- An entry that says nothing about credentials, sessions and effects. -/
def Record.Plain : Record → Prop
  | .sessions _ | .revoked _ | .dispatched .. => False
  | _ => True

theorem Record.Plain.keeps {entry : Record} (hplain : entry.Plain)
    (log : List Record) :
    liveSessions (entry :: log) = liveSessions log ∧
      (∀ generation, .revoked generation ∈ entry :: log →
        .revoked generation ∈ log) ∧
      (AllAuthorised (entry :: log) ↔ AllAuthorised log) := by
  cases entry with
  | sessions sessions => exact absurd hplain id
  | revoked generation => exact absurd hplain id
  | dispatched serial connection effect => exact absurd hplain id
  | issued generation credential => exact ⟨rfl, by simp, Iff.rfl⟩
  | authenticated connection generation token => exact ⟨rfl, by simp, Iff.rfl⟩
  | listed serial connection => exact ⟨rfl, by simp, Iff.rfl⟩
  | decided serial connection call sessions => exact ⟨rfl, by simp, Iff.rfl⟩
  | answered serial connection call decision => exact ⟨rfl, by simp, Iff.rfl⟩
  | refused serial error => exact ⟨rfl, by simp, Iff.rfl⟩
  | opened generation sessionId => exact ⟨rfl, by simp, Iff.rfl⟩

section

variable (h : Holds manager)
include h

theorem Holds.record {entry : Record}
    (hplain : entry.Plain) : Holds (manager.record entry) := by
  obtain ⟨hsessions, hrevoked, hauthorised⟩ := hplain.keeps manager.log
  refine h.entry rfl rfl (hsessions.trans h.sessions) ?_ ?_ ?_
    (hauthorised.mpr h.authorised)
  · intro generation credential hsome
    exact mem_cons_of_mem entry (h.credentials generation credential hsome)
  · exact fun generation hmem => h.revoked generation (hrevoked generation hmem)
  · exact fun generation id hid =>
      mem_cons_of_mem entry (h.opened generation id hid)

theorem Holds.setConnection
    (hcontext : ConnectionHolds manager.log connection context) :
    Holds (manager.setConnection connection context) := by
  refine { h with connections := fun other found hfound => ?_ }
  by_cases hsame : other = connection
  · subst hsame
    have hself : Function.update manager.connections other (some context) other =
        some context := Function.update_self ..
    exact some.inj (hself.symm.trans hfound) ▸ hcontext
  · refine h.connections other found ?_
    exact (Function.update_of_ne hsame ..).symm.trans hfound

/-- A connection goes on with something that holds in its new phase. -/
theorem Holds.setPhase
    (hstanding : Standing manager.log connection context) (phase : Phase)
    (hphase : PhaseHolds manager.log connection { context with phase := phase }) :
    Holds (manager.setPhase connection context phase) :=
  h.setConnection ⟨⟨hstanding.authenticated, hstanding.grants⟩, hphase⟩

theorem Holds.refuse (hstanding : Standing manager.log connection context)
    (error : RpcError) : Holds (manager.refuse connection context error) :=
  (h.setPhase hstanding .idle trivial).record trivial

/-- The approvals that wait, and the numbers that are given, do not matter. -/
theorem Holds.withPending (pending : Nat → Option Str)
    (next : Nat) : Holds { manager with pending := pending, next := next } :=
  ⟨h.sessions, h.connections, h.credentials, h.revoked, h.opened, h.authorised⟩

theorem sessionsChange_holds (sessions : List SessionInfo) :
    Holds ({ manager with sessions := sessions }.record (.sessions sessions)) := by
  refine h.entry rfl rfl rfl ?_ ?_ ?_ h.authorised
  · intro generation credential hsome
    exact mem_cons_of_mem _ (h.credentials generation credential hsome)
  · intro generation hmem
    exact h.revoked generation (by simpa [McpManager.record] using hmem)
  · exact fun generation id hid =>
      mem_cons_of_mem _ (h.opened generation id hid)

theorem revoke_holds (generation : Str) :
    Holds (manager.revoke generation) := by
  refine h.entry rfl rfl h.sessions ?_ ?_ ?_ h.authorised
  · intro other credential hsome
    exact mem_cons_of_mem _ (h.credentials other credential hsome)
  · intro other hmem
    by_cases hsame : other = generation
    · rw [hsame]
      exact Function.update_self ..
    · refine (Function.update_of_ne hsame ..).trans (h.revoked other ?_)
      rcases mem_cons.mp hmem with heq | hmem
      · exact absurd (Record.revoked.inj heq) hsame
      · exact hmem
  · exact fun other id hid => mem_cons_of_mem _ (h.opened other id hid)

end

variable {credential : Credential} {after : McpManager}

theorem issue_holds (h : Holds manager) {generation : Str}
    (hstep : manager.issue generation credential = some after) : Holds after := by
  rw [McpManager.issue] at hstep
  split at hstep
  · exact absurd hstep.symm (some_ne_none after)
  · obtain rfl := some.inj hstep
    refine h.entry rfl rfl h.sessions ?_ ?_ ?_ h.authorised
    · intro other found hsome
      by_cases hsame : other = generation
      · subst hsame
        have hself : Function.update manager.credentials other (some credential)
            other = some credential := Function.update_self ..
        obtain rfl := some.inj (hself.symm.trans hsome)
        exact mem_cons_self
      · refine mem_cons_of_mem _ (h.credentials other found ?_)
        exact (Function.update_of_ne hsame ..).symm.trans hsome
    · intro other hmem
      exact h.revoked other (by simpa [McpManager.record] using hmem)
    · exact fun other id hid => mem_cons_of_mem _ (h.opened other id hid)

theorem connect_holds (h : Holds manager) {generation token : Str}
    (hstep : manager.connect connection generation token = some after) :
    Holds after := by
  rw [McpManager.connect] at hstep
  split at hstep
  · exact absurd hstep.symm (some_ne_none after)
  · split at hstep
    · exact some.inj hstep ▸ h
    · rename_i credential hauthenticate
      obtain rfl := some.inj hstep
      rw [McpManager.authenticate] at hauthenticate
      split at hauthenticate
      · rename_i found hfound
        split at hauthenticate
        · rename_i hvalid
          obtain rfl := some.inj hauthenticate
          simp only [Bool.and_eq_true, Bool.not_eq_true', beq_iff_eq] at hvalid
          obtain ⟨hlive, htoken⟩ := hvalid
          have hnot : .revoked generation ∉ manager.log := fun hmem =>
            absurd ((h.revoked generation hmem).symm.trans hlive) (by decide)
          have hrecorded : Holds (manager.record
              (.authenticated connection generation token)) := h.record trivial
          refine hrecorded.setConnection
            ⟨⟨⟨[], manager.log, ?_, ?_, hnot⟩, ?_⟩, trivial⟩
          · rw [htoken]
            rfl
          · exact h.credentials generation found hfound
          · simp
        · exact absurd hauthenticate.symm (some_ne_none credential)
      · exact absurd hauthenticate.symm (some_ne_none credential)

variable {definition : McpToolDefinition}

theorem capabilityForTool_mem {tool : Str}
    (h : capabilityForTool tool = some definition) :
    definition ∈ mcpToolRegistry := mem_of_find?_eq_some h

theorem request_holds (h : Holds manager)
    (hstanding : Standing manager.log connection context) (tool : Str)
    (arguments : Arguments) :
    Holds (manager.request connection context tool arguments) := by
  have hnumbered := h.withPending manager.pending (manager.next + 1)
  have hnow : Standing manager.log connection
      { context with serial := manager.next } :=
    ⟨hstanding.authenticated, hstanding.grants⟩
  rw [McpManager.request]
  cases hdefinition : capabilityForTool tool with
  | none => exact hnumbered.refuse hnow _
  | some definition =>
    dsimp only
    split
    · exact hnumbered.setPhase hnow .idle trivial
    · have hlisted : Holds ({ manager with next := manager.next + 1 }.record
          (.listed manager.next connection)) := hnumbered.record trivial
      refine hlisted.setPhase hnow.cons _
        ⟨capabilityForTool_mem hdefinition, [], manager.log, rfl, ?_⟩
      exact h.sessions.symm

variable {call : Call}

theorem assessCall_assessed {savedConnections : List Str}
    {scope : McpScopeSnapshot} {arguments : Arguments}
    (h : assessCall savedConnections scope definition arguments = .ok call) :
    call.definition = definition ∧ call.arguments = arguments ∧
      resolveSession scope definition.tool arguments = .ok call.sessionId ∧
      assess definition.tool arguments = .ok call.assessment ∧
      call.connectionTarget = if definition.tool = .sessionOpen then
        parseSessionOpen arguments else none := by
  obtain ⟨connectionTarget, htarget, h⟩ := Fallible.bind_eq_ok.mp h
  obtain ⟨sessionId, hsession, h⟩ := Fallible.bind_eq_ok.mp h
  split at h
  · exact absurd h failure_ne_ok
  · obtain ⟨assessment, hassess, h⟩ := Fallible.bind_eq_ok.mp h
    cases h
    refine ⟨rfl, rfl, hsession, hassess, ?_⟩
    rw [McpManager.resolveConnection] at htarget
    split at htarget
    · rename_i hopen
      obtain ⟨connectionId, hparse, htarget⟩ := Fallible.bind_eq_ok.mp htarget
      obtain ⟨-, -, htarget⟩ := Fallible.bind_eq_ok.mp htarget
      cases htarget
      rw [if_pos hopen]
      exact (parsed_eq_ok.mp hparse).symm
    · rename_i hother
      cases htarget
      exact (if_neg hother).symm

/-- The scope that a call is decided in consists of sessions that the scope of
the credential admits and of sessions that it has opened. -/
theorem resolveCredentialScope_inScope {log : List Record} {generation id : Str}
    {sessions : List SessionInfo}
    {openedSessionIds : List Str}
    (hopened : ∀ id ∈ openedSessionIds, .opened generation id ∈ log)
    (hid : id ∈ (resolveCredentialScope credential sessions
      openedSessionIds).sessionIds) :
    InScope log generation credential sessions id := by
  rcases mem_append.mp hid with hscope | hmem
  · obtain ⟨session, hsession, hsame, hadmits⟩ :=
      (mem_resolve_iff _ _ _).mp hscope
    exact ⟨session, hsession, hsame, .inl hadmits⟩
  · obtain ⟨hmem, hlive⟩ := mem_filter.mp hmem
    obtain ⟨session, hsession, hsame⟩ :=
      mem_map.mp (contains_iff_mem.mp hlive)
    exact ⟨session, hsession, hsame, .inr (hopened id hmem)⟩

/-- A permission that counts has been given by the user. -/
theorem isGranted_granted {log : List Record}
    (hstanding : Standing log connection context)
    (h : isGranted context call = true) :
    call.grantable = true ∧ ∃ target capability,
      call.grantKey = some (target, capability) ∧
      GrantedBefore log connection target capability := by
  obtain ⟨hgrantable, hkey⟩ := Bool.and_eq_true_iff.mp h
  obtain ⟨⟨target, capability⟩, hsome, hmem⟩ := (Option.any_eq_true _ _).mp hkey
  exact ⟨hgrantable, target, capability, hsome,
    hstanding.grants target capability (contains_iff_mem.mp hmem)⟩

theorem applyPolicy_holds (h : Holds manager)
    (hstanding : Standing manager.log connection context)
    (hassessed : Assessed manager.log connection context.serial
      context.generation context.credential call) :
    Holds (manager.applyPolicy connection context call) := by
  rw [McpManager.applyPolicy]
  dsimp only
  split
  · exact h.refuse hstanding _
  · rename_i hdeny
    split
    · rename_i hask
      split
      · exact h.refuse hstanding _
      · exact (h.setPhase hstanding (.asking call manager.next)
          ⟨hassessed, hask.1⟩).withPending _ _
    · rename_i hask
      refine h.setPhase hstanding (.ready call) ⟨hassessed, ?_⟩
      cases hpolicy : call.policy context.credential.permissionMode with
      | allow => exact .inl hpolicy
      | deny => exact absurd hpolicy hdeny
      | requireApproval =>
        have hgranted : isGranted context call = true := by
          rw [← Bool.not_eq_false]
          exact fun hnot => hask ⟨hpolicy, hnot⟩
        exact .inr ⟨hpolicy, .inr (isGranted_granted hstanding hgranted)⟩

theorem decide_holds (h : Holds manager)
    (hstanding : Standing manager.log connection context)
    {arguments : Arguments}
    {sessions : List SessionInfo} (hregistered : definition ∈ mcpToolRegistry)
    (hlisted : Listed manager.log context.serial connection sessions) :
    Holds (manager.decide connection context definition arguments sessions) := by
  rw [McpManager.decide]
  split
  · exact h.refuse hstanding _
  · rename_i call hcall
    obtain ⟨rfl, rfl, hsession, hassess, htarget⟩ := assessCall_assessed hcall
    have hrecorded : Holds (manager.record
        (.decided context.serial connection call sessions)) := h.record trivial
    refine applyPolicy_holds hrecorded hstanding.cons
      ⟨hregistered, ⟨sessions, hlisted.cons, mem_cons_self, ?_⟩,
        ⟨_, hsession⟩, hassess, htarget⟩
    intro id hid
    rw [hid] at hsession
    exact (resolveCredentialScope_inScope (h.opened context.generation)
      (resolveSession_mem hsession)).cons

theorem respond_holds (h : Holds manager) (approval : Nat)
    (decision : ApprovalDecision) : Holds (manager.respond approval decision) := by
  have htaken := h.withPending
    (Function.update manager.pending approval none) manager.next
  rw [McpManager.respond]
  split
  · exact h
  · rename_i connection _
    split
    · exact htaken
    · rename_i context hcontext
      have hholds := h.connections connection context hcontext
      split
      · rename_i call waiting hphase
        split
        · have hasking := hholds.phase
          rw [PhaseHolds, hphase] at hasking
          have hrecorded := htaken.record
            (show (Record.answered context.serial connection call
              decision).Plain from trivial)
          exact hrecorded.setPhase hholds.toStanding.cons
            (.answered call decision)
            ⟨hasking.1.cons, hasking.2, mem_cons_self⟩
        · exact htaken
      · exact htaken

theorem resume_holds (h : Holds manager)
    (hstanding : Standing manager.log connection context)
    {decision : ApprovalDecision}
    (hassessed : Assessed manager.log connection context.serial
      context.generation context.credential call)
    (hpolicy : call.policy context.credential.permissionMode = .requireApproval)
    (hanswered : .answered context.serial connection call decision ∈
      manager.log) :
    Holds (manager.resume connection context call decision) := by
  rw [McpManager.resume]
  split
  · exact h.refuse hstanding _
  · rename_i hdecision
    have hgrants (target : Str) (capability : String)
        (hmem : (target, capability) ∈
          if decision = .allowSession ∧ call.grantable = true then
            call.grantKey.toList ++ context.grants
          else context.grants) :
        GrantedBefore manager.log connection target capability := by
      split at hmem
      · rename_i hsession
        rcases mem_append.mp hmem with hkey | hmem
        · rw [hsession.1] at hanswered
          exact ⟨context.serial, call, hanswered, mem_toList.mp hkey,
            hsession.2⟩
        · exact hstanding.grants target capability hmem
      · exact hstanding.grants target capability hmem
    exact h.setConnection ⟨⟨hstanding.authenticated, hgrants⟩, hassessed,
      .inr ⟨hpolicy, .inl ⟨decision, hdecision, hanswered⟩⟩⟩

variable {effect : Effect}

/-- The permission that covers a call is one for what it does. -/
theorem Assessed.grantKey_eq {log : List Record} {serial : Nat}
    {generation : Str}
    (h : Assessed log connection serial generation credential call)
    (hcarries : Carries call.definition.tool call.arguments call.sessionId
      call.assessment effect) :
    call.grantKey = some (effect.target, effect.tool.capability.1) := by
  have hcapability := registry_capability call.definition h.registered
  have htarget := h.connection
  rw [← hcarries.tool] at htarget hcapability
  rw [hcapability, Call.grantKey, htarget]
  cases effect with
  | openSession connectionId =>
    have hopen : (Effect.openSession connectionId).tool = .sessionOpen := rfl
    rw [if_pos hopen, hcarries.connection connectionId rfl]
    rfl
  | inSession id operation =>
    have hnot : (Effect.inSession id operation).tool ≠ .sessionOpen := by
      cases operation <;> simp [Effect.tool, Operation.tool]
    rw [if_neg hnot, hcarries.session id operation rfl]
    rfl

theorem Allowed.permitted {log : List Record}
    (hallowed : Allowed log connection context call)
    (h : Assessed log connection context.serial context.generation
      context.credential call)
    (hcarries : Carries call.definition.tool call.arguments call.sessionId
      call.assessment effect) :
    Permitted log context.serial connection context.credential.permissionMode
      effect := by
  have hcapability := registry_capability call.definition h.registered
  have hkey := h.grantKey_eq hcarries
  rw [← hcarries.tool] at hcapability
  have hpolicy (mode : AiPermissionMode) : call.policy mode =
      decidePolicy mode effect.tool.capability.2 effect.assessment := by
    rw [hcapability, hcarries.assessment, Call.policy]
  have hgrantable : call.grantable =
      isGrantable effect.tool.capability.2 effect.assessment := by
    rw [hcapability, hcarries.assessment, Call.grantable]
  rw [Permitted, ← hpolicy, ← hgrantable]
  rcases hallowed with hallow | ⟨hask, ⟨decision, hdecision, hanswered⟩ |
    ⟨hgrant, target, capability, hsome, hgranted⟩⟩
  · exact .inl hallow
  · exact .inr ⟨hask, .inl ⟨call, decision, hdecision, hanswered, hcarries⟩⟩
  · obtain ⟨rfl, rfl⟩ := Prod.mk.inj (some.inj (hsome.symm.trans hkey))
    exact .inr ⟨hask, .inr ⟨hgrant, hgranted⟩⟩

theorem authorised_of_ready {log : List Record}
    (hstanding : Standing log connection context)
    (h : Assessed log connection context.serial context.generation
      context.credential call)
    (hallowed : Allowed log connection context call)
    (hcarries : Carries call.definition.tool call.arguments call.sessionId
      call.assessment effect) :
    Authorised log context.serial connection effect := by
  obtain ⟨sessions, hlisted, hdecided, hscope⟩ := h.decided
  refine ⟨context.generation, context.credential, call, sessions,
    hstanding.authenticated, hlisted, hdecided, hcarries, ?_,
    hallowed.permitted h hcarries⟩
  exact fun id operation heffect =>
    hscope id (hcarries.session id operation heffect)

theorem Holds.dispatched (h : Holds manager) {serial : Nat}
    (hauthorised : Authorised manager.log serial connection effect) :
    Holds (manager.record (.dispatched serial connection effect)) := by
  refine h.entry rfl rfl h.sessions ?_ ?_ ?_ ⟨hauthorised, h.authorised⟩
  · intro generation credential hsome
    exact mem_cons_of_mem _ (h.credentials generation credential hsome)
  · intro generation hmem
    exact h.revoked generation (by simpa [McpManager.record] using hmem)
  · exact fun generation id hid =>
      mem_cons_of_mem _ (h.opened generation id hid)

theorem carryOut_holds (h : Holds manager)
    (hstanding : Standing manager.log connection context)
    (hassessed : Assessed manager.log connection context.serial
      context.generation context.credential call)
    (hallowed : Allowed manager.log connection context call) :
    Holds (manager.carryOut connection context call) := by
  obtain ⟨scope, hsession⟩ := hassessed.session
  have hcarries {effect : Effect} (hdispatch : dispatch manager.savedConnections
      context.credential.ownerWindowLabel call.definition.tool call.arguments
      call.sessionId = .ok (some effect)) :=
    authorised_of_ready hstanding hassessed hallowed
      (dispatch_carries hsession hassessed.assessment hdispatch)
  rw [McpManager.carryOut]
  split
  · exact h.refuse hstanding _
  · exact h.setPhase hstanding .idle trivial
  · rename_i connectionId hdispatch
    exact (h.dispatched (hcarries hdispatch)).setPhase hstanding.cons
      (.opening connectionId) trivial
  · rename_i id operation hdispatch
    exact (h.dispatched (hcarries hdispatch)).setPhase hstanding.cons .idle
      trivial

theorem sessionOpened_holds (h : Holds manager)
    (hstanding : Standing manager.log connection context)
    (connectionId sessionId : Str) :
    Holds (manager.sessionOpened connection context connectionId sessionId) := by
  rw [McpManager.sessionOpened]
  split
  · exact h.refuse hstanding _
  · split
    · have hidle := h.setPhase hstanding .idle trivial
      refine hidle.entry rfl rfl hidle.sessions ?_ ?_ ?_ hidle.authorised
      · intro generation credential hsome
        exact mem_cons_of_mem _ (h.credentials generation credential hsome)
      · intro generation hmem
        exact h.revoked generation
          (by simpa [McpManager.record, McpManager.setPhase,
            McpManager.setConnection] using hmem)
      · intro generation id hid
        have hnow : id ∈ Function.update manager.openedSessionIds
            context.generation
            (sessionId :: manager.openedSessionIds context.generation)
            generation := hid
        rw [Function.update_apply] at hnow
        split at hnow
        · rename_i hsame
          rw [hsame]
          rcases mem_cons.mp hnow with rfl | hmem
          · exact mem_cons_self
          · exact mem_cons_of_mem _ (h.opened _ id hmem)
        · exact mem_cons_of_mem _ (h.opened generation id hnow)
    · exact h.refuse hstanding _

variable {event : HostEvent}

theorem stepConnection_holds (h : Holds manager)
    (hholds : ConnectionHolds manager.log connection context)
    (hstep : manager.stepConnection connection context event = some after) :
    Holds after := by
  have hphase := hholds.phase
  have hstanding := hholds.toStanding
  cases event with
  | close other =>
    rw [McpManager.stepConnection] at hstep
    split at hstep
    · obtain rfl := some.inj hstep
      exact h.setConnection ⟨⟨hstanding.authenticated, hstanding.grants⟩, hphase⟩
    · exact absurd hstep.symm (some_ne_none after)
  | request other tool arguments =>
    rw [McpManager.stepConnection] at hstep
    split at hstep
    · obtain rfl := some.inj hstep
      exact request_holds h hstanding tool arguments
    · exact absurd hstep.symm (some_ne_none after)
  | decide other =>
    rw [McpManager.stepConnection] at hstep
    split at hstep
    · rename_i definition arguments sessions hlisted
      rw [PhaseHolds, hlisted] at hphase
      obtain rfl := some.inj hstep
      exact decide_holds h hstanding hphase.1 hphase.2
    · exact absurd hstep.symm (some_ne_none after)
  | approvalFails other =>
    rw [McpManager.stepConnection] at hstep
    split at hstep
    · rename_i call approval _
      obtain rfl := some.inj hstep
      have hwithout := h.withPending
        (Function.update manager.pending approval none) manager.next
      exact hwithout.refuse hstanding _
    · exact absurd hstep.symm (some_ne_none after)
  | resume other =>
    rw [McpManager.stepConnection] at hstep
    split at hstep
    · rename_i call decision hanswered
      rw [PhaseHolds, hanswered] at hphase
      obtain rfl := some.inj hstep
      exact resume_holds h hstanding hphase.1 hphase.2.1 hphase.2.2
    · exact absurd hstep.symm (some_ne_none after)
  | dispatch other =>
    rw [McpManager.stepConnection] at hstep
    split at hstep
    · rename_i call hready
      rw [PhaseHolds, hready] at hphase
      obtain rfl := some.inj hstep
      exact carryOut_holds h hstanding hphase.1 hphase.2
    · exact absurd hstep.symm (some_ne_none after)
  | cancelDispatch other =>
    rw [McpManager.stepConnection] at hstep
    split at hstep
    · split at hstep
      · exact absurd hstep.symm (some_ne_none after)
      · obtain rfl := some.inj hstep
        exact h.refuse hstanding _
    · exact absurd hstep.symm (some_ne_none after)
  | sessionOpened other sessionId =>
    rw [McpManager.stepConnection] at hstep
    split at hstep
    · obtain rfl := some.inj hstep
      exact sessionOpened_holds h hstanding _ sessionId
    · exact absurd hstep.symm (some_ne_none after)
  | openFails other =>
    rw [McpManager.stepConnection] at hstep
    split at hstep
    · obtain rfl := some.inj hstep
      exact h.refuse hstanding _
    · exact absurd hstep.symm (some_ne_none after)
  | sessionsChange sessions => exact absurd hstep.symm (some_ne_none after)
  | connectionsChange saved => exact absurd hstep.symm (some_ne_none after)
  | issue generation credential =>
    exact absurd hstep.symm (some_ne_none after)
  | revoke generation => exact absurd hstep.symm (some_ne_none after)
  | connect other generation token =>
    exact absurd hstep.symm (some_ne_none after)
  | respond approval decision =>
    exact absurd hstep.symm (some_ne_none after)

theorem onConnection_holds (h : Holds manager)
    (hstep : manager.onConnection connection event = some after) :
    Holds after := by
  rw [McpManager.onConnection] at hstep
  split at hstep
  · exact absurd hstep.symm (some_ne_none after)
  · rename_i context hcontext
    exact stepConnection_holds h (h.connections connection context hcontext) hstep

theorem step_holds (h : Holds manager)
    (hstep : manager.step event = some after) : Holds after := by
  cases event with
  | sessionsChange sessions =>
    obtain rfl := some.inj hstep
    exact sessionsChange_holds h sessions
  | connectionsChange savedConnections =>
    obtain rfl := some.inj hstep
    exact ⟨h.sessions, h.connections, h.credentials, h.revoked, h.opened,
      h.authorised⟩
  | issue generation credential => exact issue_holds h hstep
  | revoke generation =>
    obtain rfl := some.inj hstep
    exact revoke_holds h generation
  | connect connection generation token => exact connect_holds h hstep
  | respond approval decision =>
    obtain rfl := some.inj hstep
    exact respond_holds h approval decision
  | close connection | request connection tool arguments | decide connection
  | approvalFails connection | resume connection | dispatch connection
  | cancelDispatch connection | sessionOpened connection sessionId
  | openFails connection =>
    rw [McpManager.step] at hstep
    exact onConnection_holds h hstep

theorem empty_holds : Holds McpManager.empty := by
  refine ⟨rfl, ?_, ?_, ?_, ?_, trivial⟩
  · intro connection context hcontext
    exact absurd hcontext.symm (some_ne_none context)
  · intro generation credential hsome
    exact absurd hsome.symm (some_ne_none credential)
  · exact fun generation hmem => absurd hmem not_mem_nil
  · exact fun generation id hid => absurd hid not_mem_nil

theorem reachable_holds (h : McpManager.system.Reachable manager) :
    Holds manager := by
  apply h.invariant
  · rintro initial rfl
    exact empty_holds
  · intro before event after hbefore hstep
    exact step_holds hbefore hstep

theorem AllAuthorised.of_append {later earlier : List Record}
    (h : AllAuthorised (later ++ earlier)) : AllAuthorised earlier := by
  induction later with
  | nil => exact h
  | cons entry later ih =>
    refine ih ?_
    cases entry with
    | dispatched serial connection effect => exact h.2
    | sessions sessions | issued generation credential | revoked generation
    | authenticated connection generation token | listed serial connection
    | decided serial connection call sessions
    | answered serial connection call decision | refused serial error
    | opened generation sessionId => exact h

/-- Whatever the agents, the user and the application do in any order: what had
happened before an effect authorised it. -/
theorem dispatched_authorised (manager : McpManager)
    (hreachable : McpManager.system.Reachable manager)
    (later earlier : List Record) (serial : Nat) (connection : Str)
    (effect : Effect)
    (hlog : manager.log =
      later ++ .dispatched serial connection effect :: earlier) :
    Authorised earlier serial connection effect := by
  have hall := (reachable_holds hreachable).authorised
  rw [hlog] at hall
  exact hall.of_append.1

/-- An agent asks for a command, and the user allows it. -/
def sampleRun : List HostEvent :=
  [.issue ['g'] ⟨['t'], .allSessions, .confirm, some ['w']⟩, .sessionsChange
    [⟨['s'], none, true, some ['w']⟩], .connect ['c'] ['g'] ['t'], .request
    ['c'] "terminal_execute".toList
      (.object [("command".toList, .string "ls".toList)]),
    .decide ['c'], .respond 1 .allowOnce, .resume ['c'], .dispatch ['c']]

theorem sample_authorised : ∃ manager earlier,
    McpManager.system.runFrom McpManager.empty sampleRun = some manager ∧
      manager.log = .dispatched 0 ['c']
        (.inSession ['s'] (.execute "ls".toList 30000)) :: earlier ∧
      Authorised earlier 0 ['c']
        (.inSession ['s'] (.execute "ls".toList 30000)) := by
  have hhead : (McpManager.system.runFrom McpManager.empty sampleRun).map
      (fun manager => manager.log.head?) = some (some (.dispatched 0 ['c']
        (.inSession ['s'] (.execute "ls".toList 30000)))) := by
    decide +kernel
  obtain ⟨manager, hrun, hhead⟩ := map_eq_some_iff.mp hhead
  obtain ⟨earlier, hlog⟩ := head?_eq_some_iff.mp hhead
  exact ⟨manager, earlier, hrun, hlog, dispatched_authorised manager
    ⟨McpManager.empty, sampleRun, rfl, hrun⟩ [] earlier 0 ['c'] _ hlog⟩

end NiceTerm.Mcp
