/-
What the user is shown of a call that needs an approval, and what is left of
the command in it.
-/
import NiceTerm.Ai.Redaction
import NiceTerm.Mcp.Dispatch
import NiceTerm.Mcp.Host

namespace NiceTerm.Mcp

open Ai (MentionsNone UpToSecrets redactSensitiveText redactionPatterns)
open Capabilities List Option
open RustStr (Str)

structure ApprovalRequestEvent where
  requestId : Str
  client : Str
  capability : String
  sessionId : Option Str
  sessionName : Option Str
  connectionId : Option Str
  connectionName : Option Str
  parameterSummary : Str
  risk : RiskLevel
deriving DecidableEq, Repr

def accessRisk : CapabilityAccess → RiskLevel
  | .read => .low
  | .sensitiveRead | .write => .medium
  | .destructiveWrite => .high

variable (json : Arguments → Str)

/-- `json` prints arguments, for the tools that have no summary of their own. -/
def summarize (tool : Tool) (arguments : Arguments) : Str :=
  let value :=
    match tool with
    | .sessionOpen =>
      "connectionId=".toList ++ (arguments.getStr "connectionId").getD []
    | .terminalExecute =>
      ((arguments.getStr "command").map redactSensitiveText).getD
        "terminal command".toList
    | .sftpWriteText => "path=".toList ++ (arguments.getStr "path").getD []
    | _ => redactSensitiveText (json arguments)
  value.take 512

/-- What the host knows of a request besides the call: its new identifier, the
client, and the names of the session and of the connection. -/
structure Asking where
  requestId : Str
  client : Str
  sessionName : Option Str
  connectionName : Option Str

def approvalEvent (asking : Asking) (call : Call) :
    ApprovalRequestEvent where
  requestId := asking.requestId
  client := asking.client
  capability := call.definition.capability
  sessionId := call.sessionId
  sessionName := asking.sessionName
  connectionId := call.connectionTarget
  connectionName := asking.connectionName
  parameterSummary := summarize json call.definition.tool call.arguments
  risk := (call.assessment.map RiskAssessment.level).getD
    (accessRisk call.definition.access)

/-- The two look the same to the user. -/
def ApprovalRequestEvent.SameShown (first second : ApprovalRequestEvent) :
    Prop :=
  { first with requestId := second.requestId } = second

instance (first second : ApprovalRequestEvent) :
    Decidable (first.SameShown second) :=
  inferInstanceAs (Decidable (_ = _))

theorem ApprovalRequestEvent.SameShown.summary
    {first second : ApprovalRequestEvent} (h : first.SameShown second) :
    first.parameterSummary = second.parameterSummary := by
  rw [← h]

/-- The policy asks for an approval that has not been given yet. -/
def NeedsApproval (context : ConnectionContext) (call : Call) : Prop :=
  call.policy context.credential.permissionMode = .requireApproval ∧
    McpManager.isGranted context call = false

/-- Once it is allowed, the call executes this command. -/
def Executes (call : Call) (command : Str) : Prop :=
  call.definition.tool = .terminalExecute ∧
    ∃ savedConnections ownerWindowLabel sessionId timeoutMs,
      dispatch savedConnections ownerWindowLabel .terminalExecute
        call.arguments call.sessionId =
          .ok (some (.inSession sessionId (.execute command timeoutMs)))

/-- The arguments are given by their names. -/
def Arguments.named : Arguments → Bool
  | .object _ => true
  | _ => false

theorem requiredString_eq_some {value : Option Value} {text : Str}
    (h : requiredString value = some text) : value = some (.string text) := by
  simp only [requiredString] at h
  split at h
  · rw [some.inj h]
  · exact absurd h.symm (some_ne_none text)

theorem command_of_parse {arguments : Arguments} {args : TerminalExecuteArgs}
    (hnamed : arguments.named = true)
    (h : TerminalExecuteArgs.parse arguments = some args) :
    arguments.getStr "command" = some args.command := by
  cases arguments with
  | array elements => exact absurd hnamed (by simp [Arguments.named])
  | other => exact absurd hnamed (by simp [Arguments.named])
  | object members =>
    obtain ⟨field, hfields, h⟩ := bind_eq_some_iff.mp h
    obtain ⟨sessionId, -, h⟩ := bind_eq_some_iff.mp h
    obtain ⟨command, hcommand, h⟩ := bind_eq_some_iff.mp h
    obtain ⟨timeoutMs, -, h⟩ := bind_eq_some_iff.mp h
    obtain rfl := some.inj h
    rw [Arguments.fields] at hfields
    split at hfields
    · obtain rfl := some.inj hfields
      have hvalue : members.lookup "command".toList = some (.string command) :=
        requiredString_eq_some hcommand
      rw [Arguments.getStr, hvalue]
    · exact absurd hfields.symm (some_ne_none field)

variable {command : Str}

theorem parse_of_executes {call : Call} (h : Executes call command) :
    ∃ args, TerminalExecuteArgs.parse call.arguments = some args ∧
      args.command = command := by
  obtain ⟨-, savedConnections, ownerWindowLabel, sessionId, timeoutMs, h⟩ := h
  obtain ⟨args, hargs, h⟩ := Fallible.bind_eq_ok.mp h
  refine ⟨args, parsed_eq_ok.mp hargs, ?_⟩
  dsimp only at h
  split at h
  · exact absurd h failure_ne_ok
  · split at h
    · exact absurd h failure_ne_ok
    · obtain ⟨id, -, heffect⟩ :=
        map_eq_some_iff.mp (Except.ok.inj h)
      cases heffect
      rfl

theorem summary_of_executes {call : Call}
    (hnamed : call.arguments.named = true) (h : Executes call command) :
    summarize json call.definition.tool call.arguments =
      (redactSensitiveText command).take 512 := by
  obtain ⟨args, hparse, rfl⟩ := parse_of_executes h
  rw [h.1, summarize, command_of_parse hnamed hparse]
  rfl

/-- Two commands for which the user is asked alike have the same first 512
characters where secrets are replaced, and if nothing has been cut off, nothing
but secrets tells them apart. -/
theorem approval_shows_commands (json : Arguments → Str)
    (asking₁ asking₂ : Asking) (call₁ call₂ : Call) (a b : Str)
    (hnamed₁ : call₁.arguments.named = true)
    (hnamed₂ : call₂.arguments.named = true)
    (ha : Executes call₁ a) (hb : Executes call₂ b)
    (hsame : (approvalEvent json asking₁ call₁).SameShown
      (approvalEvent json asking₂ call₂)) :
    (redactSensitiveText a).take 512 = (redactSensitiveText b).take 512 ∧
      ((approvalEvent json asking₁ call₁).parameterSummary.length < 512 →
        UpToSecrets a b) := by
  have hsummary : (approvalEvent json asking₁ call₁).parameterSummary =
      (approvalEvent json asking₂ call₂).parameterSummary := hsame.summary
  have hfirst : (approvalEvent json asking₁ call₁).parameterSummary =
      (redactSensitiveText a).take 512 :=
    summary_of_executes json hnamed₁ ha
  have hsecond : (approvalEvent json asking₂ call₂).parameterSummary =
      (redactSensitiveText b).take 512 :=
    summary_of_executes json hnamed₂ hb
  have htake : (redactSensitiveText a).take 512 =
      (redactSensitiveText b).take 512 := by
    rw [← hfirst, ← hsecond, hsummary]
  refine ⟨htake, fun hshort => ?_⟩
  have hshown : redactSensitiveText a = redactSensitiveText b := by
    rw [hfirst] at hshort
    have hshort' := hshort
    rw [htake] at hshort'
    rw [length_take] at hshort hshort'
    rwa [take_of_length_le (by omega), take_of_length_le (by omega)]
      at htake
  refine ⟨redactSensitiveText b, ?_, Ai.shown_redactSensitiveText b⟩
  exact hshown ▸ Ai.shown_redactSensitiveText a

/-- A call of `terminal_execute` in the session `s`. -/
def executing (command : Str) : Call where
  definition := ⟨.terminalExecute, "terminal_execute", "terminal.execute",
    .write, true⟩
  arguments := .object [("sessionId".toList, .string "s".toList),
    ("command".toList, .string command)]
  sessionId := some "s".toList
  connectionTarget := none
  assessment := some (assessCommandRisk command)

def sampleContext : ConnectionContext where
  generation := "g".toList
  credential := ⟨"t".toList, .allSessions, .confirm, some "main".toList⟩
  grants := []
  closed := false
  serial := 0
  phase := .idle

def sampleAsking (requestId : String) : Asking :=
  ⟨requestId.toList, "agent".toList, some "host".toList, none⟩

theorem command_executing (command : Str) :
    (executing command).arguments.getStr "command" = some command := rfl

theorem sessionId_executing (first second : Str) :
    (executing first).sessionId = (executing second).sessionId := rfl

theorem executes_executing (h : ¬ (RustStr.trim command).isEmpty = true) :
    Executes (executing command) command := by
  refine ⟨rfl, [], none, "s".toList, 30000, ?_⟩
  refine Fallible.bind_eq_ok.mpr ⟨⟨some "s".toList, command, none⟩, rfl, ?_⟩
  exact if_neg h

theorem needsApproval_executing (command : Str)
    (h : (assessCommandRisk command).level = .low) :
    NeedsApproval sampleContext (executing command) := by
  constructor
  · simp [Call.policy, decidePolicy, executing, sampleContext, h,
      RiskLevel.atLeastHigh]
  · simp [McpManager.isGranted, Call.grantKey, executing, sampleContext]

/-- Two commands that differ in a secret look the same. -/
theorem secret_not_shown :
    (redactSensitiveText "pwd=1".toList).take 512 =
        (redactSensitiveText "pwd=2".toList).take 512 ∧
      ((approvalEvent (fun _ => []) (sampleAsking "1")
          (executing "pwd=1".toList)).parameterSummary.length < 512 →
        UpToSecrets "pwd=1".toList "pwd=2".toList) :=
  approval_shows_commands (fun _ => []) (sampleAsking "1") (sampleAsking "2")
    (executing "pwd=1".toList) (executing "pwd=2".toList) "pwd=1".toList
    "pwd=2".toList rfl rfl (executes_executing (by decide +kernel))
    (executes_executing (by decide +kernel)) (by decide +kernel)

/-- A command behind so many spaces that nothing of it is shown. -/
def behindSpaces (command : Str) : Str := replicate 512 ' ' ++ command

theorem behindSpaces_inj {first second : Str}
    (h : behindSpaces first = behindSpaces second) : first = second :=
  append_cancel_left h

theorem mentionsNone_behindSpaces (h : MentionsNone redactionPatterns command) :
    MentionsNone redactionPatterns (behindSpaces command) := by
  have hspace : ∀ text : Str, ∀ rule ∈ redactionPatterns,
      Regex.run rule.pattern (' ' :: text) = [] := by
    intro text
    simp only [redactionPatterns, forall_mem_cons]
    exact ⟨rfl, rfl, rfl, rfl, rfl, rfl,
      fun _ hmem => absurd hmem not_mem_nil⟩
  have hspaces : ∀ n, MentionsNone redactionPatterns
      (replicate n ' ' ++ command) := by
    intro n
    induction n with
    | zero => exact h
    | succ n ih =>
      rw [replicate_succ, cons_append]
      exact Ai.mentionsNone_cons (hspace _) ih
  exact hspaces 512

theorem summary_behindSpaces (h : MentionsNone redactionPatterns command) :
    summarize (fun _ => []) .terminalExecute
        (executing (behindSpaces command)).arguments =
      replicate 512 ' ' := by
  rw [summarize, command_executing, map_some, getD_some,
    Ai.redactSensitiveText_eq (mentionsNone_behindSpaces h), behindSpaces]
  exact take_left' length_replicate

theorem sameShown_behindSpaces {first second : Str}
    (hfirst : MentionsNone redactionPatterns first)
    (hsecond : MentionsNone redactionPatterns second)
    (hrisk : (assessCommandRisk (behindSpaces first)).level =
      (assessCommandRisk (behindSpaces second)).level) :
    (approvalEvent (fun _ => []) (sampleAsking "1")
        (executing (behindSpaces first))).SameShown
      (approvalEvent (fun _ => []) (sampleAsking "2")
        (executing (behindSpaces second))) := by
  have hsummary : summarize (fun _ => []) .terminalExecute
      (executing (behindSpaces first)).arguments =
      summarize (fun _ => []) .terminalExecute
        (executing (behindSpaces second)).arguments := by
    rw [summary_behindSpaces hfirst, summary_behindSpaces hsecond]
  have hlevel : ((some (assessCommandRisk (behindSpaces first))).map
      RiskAssessment.level).getD (accessRisk .write) =
      ((some (assessCommandRisk (behindSpaces second))).map
        RiskAssessment.level).getD (accessRisk .write) := hrisk
  have hevent : ∀ (summary₁ summary₂ : Str) (risk₁ risk₂ : RiskLevel), summary₁
      = summary₂ → risk₁ = risk₂ → ApprovalRequestEvent.SameShown
        ⟨"1".toList, "agent".toList, "terminal.execute", some "s".toList,
          some "host".toList, none, none, summary₁, risk₁⟩
        ⟨"2".toList, "agent".toList, "terminal.execute", some "s".toList,
          some "host".toList, none, none, summary₂, risk₂⟩ := by
    rintro _ _ _ _ rfl rfl
    rfl
  exact hevent _ _ _ _ hsummary hlevel

theorem hidden_command :
    ¬ ∀ (json : Arguments → Str) (context : ConnectionContext)
      (asking₁ asking₂ : Asking) (call₁ call₂ : Call) (a b : Str),
      NeedsApproval context call₁ → NeedsApproval context call₂ →
      call₁.sessionId = call₂.sessionId → Executes call₁ a → Executes call₂ b →
      (approvalEvent json asking₁ call₁).SameShown
        (approvalEvent json asking₂ call₂) →
      UpToSecrets a b := by
  intro h
  have hid : MentionsNone redactionPatterns "id".toList := by
    simp only [MentionsNone, redactionPatterns]
    decide +kernel
  have hls : MentionsNone redactionPatterns "ls".toList := by
    simp only [MentionsNone, redactionPatterns]
    decide +kernel
  obtain ⟨shown, hfirst, hsecond⟩ := h (fun _ => []) sampleContext
    (sampleAsking "1") (sampleAsking "2")
    (executing (behindSpaces "id".toList))
    (executing (behindSpaces "ls".toList)) (behindSpaces "id".toList)
    (behindSpaces "ls".toList) (needsApproval_executing _ (by decide +kernel))
    (needsApproval_executing _ (by decide +kernel)) (sessionId_executing _ _)
    (executes_executing (by decide +kernel))
    (executes_executing (by decide +kernel))
    (sameShown_behindSpaces hid hls (by decide +kernel))
  have hsame : behindSpaces "id".toList = behindSpaces "ls".toList :=
    (hfirst.eq_of_mentionsNone (mentionsNone_behindSpaces hid)).symm.trans
      (hsecond.eq_of_mentionsNone (mentionsNone_behindSpaces hls))
  exact absurd (behindSpaces_inj hsame) (by decide)

end NiceTerm.Mcp
