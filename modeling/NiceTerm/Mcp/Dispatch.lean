/-
A call is carried out as it was assessed: the effect has the target, the access
and the risk that the decision was about.
-/
import NiceTerm.Lib.Fallible
import NiceTerm.Mcp.Effects

namespace NiceTerm.Mcp

open Capabilities Fallible Option
open RustStr (Str)

variable {arguments : Arguments} {id : Str}

theorem parsed_eq_ok {α : Type} {code : String} {value : Option α} {a : α} :
    parsed code value = .ok a ↔ value = some a := by
  cases value <;> simp [parsed]

theorem failure_ne_ok {α : Type} {code message : String} {a : α} :
    ¬ failure code message = Except.ok a := by
  intro h
  cases h

/-- A field of an object is the one that is read without a structure. -/
theorem field_of_getStr {names : List String} {name : String}
    {field : String → Option Value} (h : arguments.fields names = some field)
    (hid : arguments.getStr name = some id) :
    requiredString (field name) = some id := by
  cases arguments with
  | object members =>
    rw [Arguments.fields] at h
    split at h
    · obtain rfl := some.inj h
      rw [Arguments.getStr] at hid
      split at hid
      · rename_i value hvalue
        change requiredString (members.lookup name.toList) = some id
        rw [hvalue]
        exact hid
      · exact absurd hid.symm (some_ne_none id)
    · exact absurd h.symm (some_ne_none field)
  | array elements => exact absurd hid.symm (some_ne_none id)
  | other => exact absurd hid.symm (some_ne_none id)

/-- A structure whose first field is the session has the one that is read
without a structure. -/
theorem session_of_bind {α : Type} {names : List String}
    {rest : (String → Option Value) → Str → Option α} {args : α}
    (hid : arguments.getStr "sessionId" = some id)
    (h : (arguments.fields names >>= fun field =>
      requiredString (field "sessionId") >>= rest field) = some args) :
    ∃ field, rest field id = some args := by
  obtain ⟨field, hfield, hrest⟩ := bind_eq_some_iff.mp h
  rw [field_of_getStr hfield hid] at hrest
  exact ⟨field, hrest⟩

theorem parseSession_session {session : Str}
    (hid : arguments.getStr "sessionId" = some id)
    (h : parseSession arguments = some session) : session = id := by
  obtain ⟨field, hfield, hsession⟩ := bind_eq_some_iff.mp h
  exact some.inj (hsession.symm.trans (field_of_getStr hfield hid))

theorem PathArgs.parse_session {args : PathArgs}
    (hid : arguments.getStr "sessionId" = some id)
    (h : PathArgs.parse arguments = some args) : args.sessionId = id := by
  obtain ⟨field, h⟩ := session_of_bind hid h
  obtain ⟨_, -, h⟩ := bind_eq_some_iff.mp h
  cases h
  rfl

theorem SftpReadTextArgs.parse_session {args : SftpReadTextArgs}
    (hid : arguments.getStr "sessionId" = some id)
    (h : SftpReadTextArgs.parse arguments = some args) : args.sessionId = id := by
  obtain ⟨field, h⟩ := session_of_bind hid h
  obtain ⟨_, -, h⟩ := bind_eq_some_iff.mp h
  obtain ⟨_, -, h⟩ := bind_eq_some_iff.mp h
  cases h
  rfl

theorem SftpWriteTextArgs.parse_session {args : SftpWriteTextArgs}
    (hid : arguments.getStr "sessionId" = some id)
    (h : SftpWriteTextArgs.parse arguments = some args) : args.sessionId = id := by
  obtain ⟨field, h⟩ := session_of_bind hid h
  obtain ⟨_, -, h⟩ := bind_eq_some_iff.mp h
  obtain ⟨_, -, h⟩ := bind_eq_some_iff.mp h
  obtain ⟨_, -, h⟩ := bind_eq_some_iff.mp h
  obtain ⟨_, -, h⟩ := bind_eq_some_iff.mp h
  obtain ⟨_, -, h⟩ := bind_eq_some_iff.mp h
  obtain ⟨_, -, h⟩ := bind_eq_some_iff.mp h
  cases h
  rfl

theorem SftpMkdirArgs.parse_session {args : SftpMkdirArgs}
    (hid : arguments.getStr "sessionId" = some id)
    (h : SftpMkdirArgs.parse arguments = some args) : args.sessionId = id := by
  obtain ⟨field, h⟩ := session_of_bind hid h
  obtain ⟨_, -, h⟩ := bind_eq_some_iff.mp h
  obtain ⟨_, -, h⟩ := bind_eq_some_iff.mp h
  cases h
  rfl

theorem SftpRenameArgs.parse_session {args : SftpRenameArgs}
    (hid : arguments.getStr "sessionId" = some id)
    (h : SftpRenameArgs.parse arguments = some args) : args.sessionId = id := by
  obtain ⟨field, h⟩ := session_of_bind hid h
  obtain ⟨_, -, h⟩ := bind_eq_some_iff.mp h
  obtain ⟨_, -, h⟩ := bind_eq_some_iff.mp h
  cases h
  rfl

theorem SftpChmodArgs.parse_session {args : SftpChmodArgs}
    (hid : arguments.getStr "sessionId" = some id)
    (h : SftpChmodArgs.parse arguments = some args) : args.sessionId = id := by
  obtain ⟨field, h⟩ := session_of_bind hid h
  obtain ⟨_, -, h⟩ := bind_eq_some_iff.mp h
  obtain ⟨_, -, h⟩ := bind_eq_some_iff.mp h
  cases h
  rfl

/-- What a decision has been about is what is done. -/
structure Carries (tool : Tool) (arguments : Arguments)
    (sessionId : Option Str) (assessment : Option RiskAssessment)
    (effect : Effect) : Prop where
  tool : effect.tool = tool
  assessment : effect.assessment = assessment
  session : ∀ id operation, effect = .inSession id operation →
    sessionId = some id
  connection : ∀ connectionId, effect = .openSession connectionId →
    parseSessionOpen arguments = some connectionId

theorem carries_inSession (operation : Operation)
    {assessment : Option RiskAssessment}
    (h : operation.assessment = assessment) :
    Carries operation.tool arguments (some id) assessment
      (.inSession id operation) := by
  refine ⟨rfl, h, ?_, fun connectionId hopen => Effect.noConfusion hopen⟩
  rintro other operation ⟨⟩
  rfl

variable {scope : McpScopeSnapshot}

theorem require_eq_ok :
    scope.require id = .ok () ↔ id ∈ scope.sessionIds := by
  rw [McpScopeSnapshot.require]
  split <;> simp_all [failure]

theorem requireNamed_ok {sessionId : Option Str}
    (h : scope.requireNamed arguments = .ok sessionId) :
    ∃ id, arguments.getStr "sessionId" = some id ∧ sessionId = some id ∧
      id ∈ scope.sessionIds := by
  rw [McpScopeSnapshot.requireNamed] at h
  split at h
  · rename_i id hid
    obtain ⟨⟨⟩, hrequire, hreturn⟩ := bind_eq_ok.mp h
    exact ⟨id, hid, (Except.ok.inj hreturn).symm, require_eq_ok.mp hrequire⟩
  · exact absurd h failure_ne_ok

theorem resolveTerminalSession_mem {requested : Option Str}
    (h : scope.resolveTerminalSession requested = .ok id) :
    id ∈ scope.sessionIds := by
  rw [McpScopeSnapshot.resolveTerminalSession] at h
  split at h
  · obtain ⟨⟨⟩, hrequire, hreturn⟩ := bind_eq_ok.mp h
    exact Except.ok.inj hreturn ▸ require_eq_ok.mp hrequire
  · split at h
    · rename_i default hdefault
      exact Except.ok.inj h ▸ scope.default_mem default hdefault
    · exact absurd h failure_ne_ok

/-- The target of a call is in the scope that it is decided in. -/
theorem resolveSession_mem {tool : Tool}
    (h : resolveSession scope tool arguments = .ok (some id)) :
    id ∈ scope.sessionIds := by
  have hnamed (h : scope.requireNamed arguments = .ok (some id)) :
      id ∈ scope.sessionIds := by
    obtain ⟨other, -, heq, hmem⟩ := requireNamed_ok h
    exact some.inj heq ▸ hmem
  cases tool with
  | getEnvironment | connectionList | sessionOpen => simp [resolveSession] at h
  | terminalExecute =>
    obtain ⟨args, -, h⟩ := bind_eq_ok.mp h
    obtain ⟨other, hother, hreturn⟩ := bind_eq_ok.mp h
    cases hreturn
    exact resolveTerminalSession_mem hother
  | sessionGet | terminalRecentOutput | sftpHome | sftpList | sftpStat
  | sftpReadText | sftpWriteText | sftpMkdir | sftpRename | sftpDelete
  | sftpChmod | outputRead => exact hnamed h

/-- The effect of a call is the one that was decided about. -/
theorem dispatch_carries {tool : Tool}
    {sessionId : Option Str} {assessment : Option RiskAssessment}
    {savedConnections : List Str} {ownerWindowLabel : Option Str}
    {effect : Effect}
    (hsession : resolveSession scope tool arguments = .ok sessionId)
    (hassess : assess tool arguments = .ok assessment)
    (hdispatch : dispatch savedConnections ownerWindowLabel tool arguments
      sessionId = .ok (some effect)) :
    Carries tool arguments sessionId assessment effect := by
  cases tool with
  | getEnvironment | connectionList =>
    exact absurd (Except.ok.inj hdispatch).symm (some_ne_none effect)
  | outputRead => exact absurd hdispatch failure_ne_ok
  | sessionOpen =>
    obtain ⟨connectionId, hparse, h⟩ := bind_eq_ok.mp hdispatch
    obtain ⟨⟨⟩, -, h⟩ := bind_eq_ok.mp h
    split at h
    · exact absurd h failure_ne_ok
    · cases h
      cases hassess
      refine ⟨rfl, rfl, fun id operation h => Effect.noConfusion h, ?_⟩
      rintro other ⟨⟩
      exact parsed_eq_ok.mp hparse
  | terminalExecute =>
    obtain ⟨requested, -, hsession⟩ := bind_eq_ok.mp hsession
    obtain ⟨id, -, hid⟩ := bind_eq_ok.mp hsession
    obtain ⟨args, hargs, h, hrisk⟩ := both_eq_ok hdispatch hassess
    cases hid
    cases hrisk
    split at h
    · exact absurd h failure_ne_ok
    · dsimp only at h
      split at h
      · exact absurd h failure_ne_ok
      · cases h
        exact carries_inSession (.execute _ _) rfl
  | terminalRecentOutput =>
    obtain ⟨id, hid, rfl, -⟩ := requireNamed_ok hsession
    obtain ⟨args, -, h⟩ := bind_eq_ok.mp hdispatch
    cases h
    cases hassess
    exact carries_inSession (.recentOutput _) rfl
  | sessionGet =>
    obtain ⟨id, hid, rfl, -⟩ := requireNamed_ok hsession
    obtain ⟨args, hargs, h⟩ := bind_eq_ok.mp hdispatch
    obtain rfl := parseSession_session hid (parsed_eq_ok.mp hargs)
    cases h
    cases hassess
    exact carries_inSession .get rfl
  | sftpHome =>
    obtain ⟨id, hid, rfl, -⟩ := requireNamed_ok hsession
    obtain ⟨args, hargs, h⟩ := bind_eq_ok.mp hdispatch
    obtain rfl := parseSession_session hid (parsed_eq_ok.mp hargs)
    cases h
    cases hassess
    exact carries_inSession .home rfl
  | sftpList =>
    obtain ⟨id, hid, rfl, -⟩ := requireNamed_ok hsession
    obtain ⟨args, hargs, h⟩ := bind_eq_ok.mp hdispatch
    obtain rfl := PathArgs.parse_session hid (parsed_eq_ok.mp hargs)
    cases h
    cases hassess
    exact carries_inSession (.list _) rfl
  | sftpStat =>
    obtain ⟨id, hid, rfl, -⟩ := requireNamed_ok hsession
    obtain ⟨args, hargs, h⟩ := bind_eq_ok.mp hdispatch
    obtain rfl := PathArgs.parse_session hid (parsed_eq_ok.mp hargs)
    cases h
    cases hassess
    exact carries_inSession (.stat _) rfl
  | sftpReadText =>
    obtain ⟨id, hid, rfl, -⟩ := requireNamed_ok hsession
    obtain ⟨args, hargs, h⟩ := bind_eq_ok.mp hdispatch
    obtain rfl := SftpReadTextArgs.parse_session hid (parsed_eq_ok.mp hargs)
    cases hassess
    dsimp only at h
    split at h
    · exact absurd h failure_ne_ok
    · cases h
      exact carries_inSession (.readText _ _) rfl
  | sftpWriteText =>
    obtain ⟨id, hid, rfl, -⟩ := requireNamed_ok hsession
    obtain ⟨args, hargs, h, hrisk⟩ := both_eq_ok hdispatch hassess
    obtain rfl := SftpWriteTextArgs.parse_session hid (parsed_eq_ok.mp hargs)
    split at h
    · exact absurd h failure_ne_ok
    · cases h
      cases hrisk
      exact carries_inSession (.writeText _ _ _ _ _ _) rfl
  | sftpMkdir =>
    obtain ⟨id, hid, rfl, -⟩ := requireNamed_ok hsession
    obtain ⟨args, hargs, h, hrisk⟩ := both_eq_ok hdispatch hassess
    obtain rfl := SftpMkdirArgs.parse_session hid (parsed_eq_ok.mp hargs)
    cases h
    cases hrisk
    exact carries_inSession (.mkdir _ _) rfl
  | sftpRename =>
    obtain ⟨id, hid, rfl, -⟩ := requireNamed_ok hsession
    obtain ⟨args, hargs, h, hrisk⟩ := both_eq_ok hdispatch hassess
    obtain rfl := SftpRenameArgs.parse_session hid (parsed_eq_ok.mp hargs)
    cases h
    cases hrisk
    exact carries_inSession (.rename _ _) rfl
  | sftpDelete =>
    obtain ⟨id, hid, rfl, -⟩ := requireNamed_ok hsession
    obtain ⟨args, hargs, h, hrisk⟩ := both_eq_ok hdispatch hassess
    obtain rfl := PathArgs.parse_session hid (parsed_eq_ok.mp hargs)
    cases h
    cases hrisk
    exact carries_inSession (.delete _) rfl
  | sftpChmod =>
    obtain ⟨id, hid, rfl, -⟩ := requireNamed_ok hsession
    obtain ⟨args, hargs, h, hrisk⟩ := both_eq_ok hdispatch hassess
    obtain rfl := SftpChmodArgs.parse_session hid (parsed_eq_ok.mp hargs)
    cases h
    cases hrisk
    exact carries_inSession (.chmod _ _) rfl

end NiceTerm.Mcp
