/-
When a device that has pulled a snapshot builds that snapshot again.  What is
stamped, sorted or filled in on the way must already be as it will be, and what
the snapshot leaves out must be empty on the device.
-/
import Mathlib.Logic.Equiv.List
import NiceTerm.Snapshot.Pull
import NiceTerm.Snapshot.StableFile

namespace NiceTerm.Snapshot

open ConnectionType List
open RustStr (Str)
open JsonText (SelfDelimiting)
open Cloud (PortableSnapshot CloudSyncState RemoteSyncPointer
  pointerFromSnapshot decideRemoteCheck)
open Storage (Group SavedConnection ConnectionAuth Protocol Sessions Listed
  groupRank connectionRank listGroups_eq_iff loadConnections_eq_iff
  loadConnections_settled)

variable {P : Parts}

/-! What is written of a value: two fields of older versions are only read. -/

def PortableAppSettings.written (settings : PortableAppSettings P) :
    PortableAppSettings P :=
  { settings with
    security := { settings.security with legacyEnableScreenLock := none } }

def ConnectionType.written : ConnectionType P → ConnectionType P
  | .ssh endpoint _ forwarding rest => .ssh endpoint none forwarding rest
  | config => config

def SessionsConfig.written (sessions : SessionsConfig P) : SessionsConfig P :=
  { sessions with
    connections := sessions.connections.map fun connection =>
      withConfig connection ConnectionType.written }

def written (entity : Entity) (value : Value P entity) : Value P entity :=
  match entity, value with
  | .settings, settings => PortableAppSettings.written settings
  | .sessions, sessions => SessionsConfig.written sessions
  | _, value => value

/-- serde writes one text for the values that are written alike. -/
def Serde.WritesAlike (S : Serde (Value P)) : Prop :=
  ∀ entity first second, S.toText entity first = S.toText entity second ↔
    written entity first = written entity second

/-- The hash of a payload tells apart what is written of it. -/
theorem Serde.payloadHash_eq_iff {S : Serde (Value P)}
    (hdigest : Function.Injective S.digest) (hvalues : S.WritesValues)
    (halike : S.WritesAlike) {first second : Payload (Value P)} :
    S.calculatePayloadHash first = S.calculatePayloadHash second ↔
      ∀ entity, written entity (first entity) =
        written entity (second entity) := by
  constructor
  · intro hhash entity
    have htexts := (hashInput_inj (fun entity _ => hvalues entity _)
      (fun entity _ => hvalues entity _) (hdigest hhash)).2
    exact (halike entity _ _).mp (htexts entity entity.mem_all)
  · intro hsame
    have htexts : ∀ entity,
        S.toText entity (first entity) = S.toText entity (second entity) :=
      fun entity => (halike entity _ _).mpr (hsame entity)
    simp only [Serde.calculatePayloadHash, htexts]

/-! Settings. -/

/-- Settings that a device gives back as it has taken them. -/
structure PortableAppSettings.Kept (settings : PortableAppSettings P) :
    Prop where
  appearance : settings.appearance.strip = settings.appearance
  transfer : settings.transfer.strip = settings.transfer
  masterPassword : settings.security.masterPassword = none
  screenLock : ∀ enabled,
    settings.security.legacyEnableScreenLock = some enabled →
      settings.security.enableStartupLock = enabled ∧
        settings.security.enableIdleLock = enabled
  ai : P.normalizeAi settings.ai = settings.ai

/-- The locks of older versions, as they are written after their migration. -/
theorem migrateLegacyScreenLock_iff (security : SecuritySettings)
    (password : Option Str) :
    { { { security.migrateLegacyScreenLock with
        masterPassword := password } with
        masterPassword := none } with
        legacyEnableScreenLock := none } =
      { security with legacyEnableScreenLock := none } ↔
    security.masterPassword = none ∧
      ∀ enabled, security.legacyEnableScreenLock = some enabled →
        security.enableStartupLock = enabled ∧
          security.enableIdleLock = enabled := by
  obtain ⟨keyring, startup, idle, minutes, legacy, master, policy⟩ := security
  cases legacy with
  | none => simp [SecuritySettings.migrateLegacyScreenLock, eq_comm]
  | some enabled =>
    simp [SecuritySettings.migrateLegacyScreenLock, eq_comm, and_comm,
      and_assoc]

theorem settings_kept_iff (settings : PortableAppSettings P)
    (current : AppSettings P) :
    (PortableAppSettings.fromAppSettings
      (settings.applyTo current)).written = settings.written ↔
        settings.Kept := by
  change PortableAppSettings.mk settings.sections settings.appearance.strip _
    settings.transfer.strip (P.normalizeAi settings.ai) settings.ui =
      PortableAppSettings.mk settings.sections settings.appearance _
        settings.transfer settings.ai settings.ui ↔ _
  rw [PortableAppSettings.mk.injEq]
  have hlock := migrateLegacyScreenLock_iff settings.security
    current.security.masterPassword
  constructor
  · rintro ⟨-, happearance, hsecurity, htransfer, hai, -⟩
    obtain ⟨hpassword, hlocks⟩ := hlock.mp hsecurity
    exact ⟨happearance, htransfer, hpassword, hlocks, hai⟩
  · intro h
    exact ⟨rfl, h.appearance, hlock.mpr ⟨h.masterPassword, h.screenLock⟩,
      h.transfer, h.ai, rfl⟩

/-! Connections. -/

/-- A configuration without anything that a sync leaves out. -/
def ConnectionType.Portable : ConnectionType P → Prop
  | .ssh endpoint _ forwarding _ => endpoint = none ∧ forwarding = none
  | .serial portName _ => portName = []
  | _ => True

/-- An empty local terminal that is filled from the one of the device. -/
def ConnectionType.Filled : ConnectionType P → ConnectionType P → Prop
  | .localTerminal shellPath shellArgs workingDir _,
      .localTerminal deviceShellPath deviceShellArgs deviceWorkingDir _ =>
      isEmptyLocalTerminalConfig shellPath shellArgs workingDir = true ∧
        isEmptyLocalTerminalConfig deviceShellPath deviceShellArgs
          deviceWorkingDir = false
  | _, _ => False

variable (current : SessionsConfig P) (connection : Connection P)

/-- The connection is filled from the one with its id. -/
def Fills : Prop :=
  ∃ device, deviceConnection current connection = some device ∧
    connection.details.config.Filled device.details.config

theorem ConnectionType.strip_iff (config : ConnectionType P) :
    config.strip = config.written ↔ config.Portable := by
  cases config <;>
    simp [ConnectionType.strip, ConnectionType.written,
      ConnectionType.Portable, eq_comm]

theorem ConnectionType.written_strip (config : ConnectionType P) :
    config.strip.written = config.strip := by
  cases config <;> rfl

theorem filled_ne {shellPath shellArgs deviceShellPath deviceShellArgs : Str}
    {workingDir deviceWorkingDir : Option Str} {rest : P.config}
    (hempty : isEmptyLocalTerminalConfig shellPath shellArgs workingDir = true)
    (hfilled : isEmptyLocalTerminalConfig deviceShellPath deviceShellArgs
      deviceWorkingDir = false) :
    (ConnectionType.localTerminal deviceShellPath deviceShellArgs
      deviceWorkingDir rest : ConnectionType P) ≠
        .localTerminal shellPath shellArgs workingDir rest := by
  intro hsame
  rw [ConnectionType.localTerminal.injEq] at hsame
  obtain ⟨rfl, rfl, rfl, -⟩ := hsame
  rw [hempty] at hfilled
  exact Bool.noConfusion hfilled

theorem ConnectionType.strip_preserve_iff (config device : ConnectionType P) :
    (config.preserve device).strip = config.written ↔
      config.Portable ∧ ¬ config.Filled device := by
  cases device with
  | localTerminal deviceShellPath deviceShellArgs deviceWorkingDir _ =>
    cases config with
    | localTerminal shellPath shellArgs workingDir rest =>
      rw [preserve]
      by_cases hfills :
          (isEmptyLocalTerminalConfig shellPath shellArgs workingDir &&
            !isEmptyLocalTerminalConfig deviceShellPath deviceShellArgs
              deviceWorkingDir) = true
      · rw [if_pos hfills]
        rw [Bool.and_eq_true, Bool.not_eq_true'] at hfills
        constructor
        · exact fun hsame => absurd hsame (filled_ne hfills.1 hfills.2)
        · exact fun h => absurd hfills h.2
      · rw [if_neg hfills]
        rw [Bool.and_eq_true, Bool.not_eq_true'] at hfills
        exact ⟨fun _ => ⟨trivial, hfills⟩, fun _ => rfl⟩
    | _ =>
      simp [preserve, strip_iff, ConnectionType.Filled]
  | serial devicePortName _ =>
    cases config <;>
      simp [preserve, ConnectionType.strip, ConnectionType.written,
        ConnectionType.Portable, ConnectionType.Filled, eq_comm]
  | ssh endpoint legacy forwarding _ =>
    cases config <;>
      simp [preserve, ConnectionType.strip, ConnectionType.written,
        ConnectionType.Portable, ConnectionType.Filled, eq_comm]
  | _ =>
    simp [preserve, strip_iff]
    cases config <;> simp [ConnectionType.Filled]

theorem withConfig_eq_iff (f g : ConnectionType P → ConnectionType P) :
    withConfig connection f = withConfig connection g ↔
      f connection.details.config = g connection.details.config := by
  constructor
  · exact fun h => congrArg (fun connection => connection.details.config) h
  · intro h
    rw [withConfig, withConfig, h]

/-- What `preserveConnection` does to the configuration. -/
def preserveConfig :
    ConnectionType P → ConnectionType P :=
  match deviceConnection current connection with
  | none => id
  | some device => fun config => config.preserve device.details.config

theorem preserveConnection_eq :
    preserveConnection current connection =
      withConfig connection (preserveConfig current connection) := by
  rw [preserveConnection, preserveConfig]
  cases deviceConnection current connection with
  | none => rfl
  | some device => rfl

/-- A connection is built again as it was pulled. -/
theorem connection_kept_iff :
    withConfig (preserveConnection current connection) ConnectionType.strip =
        withConfig connection ConnectionType.written ↔
      connection.details.config.Portable ∧ ¬ Fills current connection := by
  have hconfig : withConfig (preserveConnection current connection)
      ConnectionType.strip = withConfig connection fun config =>
        (preserveConfig current connection config).strip := by
    rw [preserveConnection_eq]
    rfl
  rw [hconfig, withConfig_eq_iff, preserveConfig, Fills]
  cases deviceConnection current connection with
  | none => simp [strip_iff]
  | some device => simp [strip_preserve_iff]

theorem withConfig_settled {now : Nat} {connection : Connection P}
    (f : ConnectionType P → ConnectionType P) :
    (withConfig connection f).Settled now ↔ connection.Settled now :=
  ⟨fun h => ⟨h.created, h.updated, h.noPassword, h.password⟩,
    fun h => ⟨h.created, h.updated, h.noPassword, h.password⟩⟩

theorem withConfig_rank (f : ConnectionType P → ConnectionType P) :
    connectionRank ConnectionDetails.name (withConfig connection f) =
      connectionRank ConnectionDetails.name connection := rfl

/-- The connections that a device builds after it has taken the given ones. -/
def rebuilt (now : Nat) (groups : List Group)
    (connections : List (Connection P)) (current : SessionsConfig P) :
    List (Connection P) :=
  ((Sessions.replaceSessions now groups
    (connections.map (preserveConnection current))).loadConnections
      ConnectionDetails.name).map (withConfig · ConnectionType.strip)

theorem preserveConnection_settled {now : Nat} :
    (preserveConnection current connection).Settled now ↔
      connection.Settled now := by
  rw [preserveConnection_eq]
  exact withConfig_settled _

theorem preserveConnection_rank :
    connectionRank ConnectionDetails.name
        (preserveConnection current connection) =
      connectionRank ConnectionDetails.name connection := by
  rw [preserveConnection_eq]
  exact withConfig_rank connection _

section Rebuilt

variable {now : Nat} {groups : List Group} {connections : List (Connection P)}
  {current : SessionsConfig P}

/-- What is built is listed and settled, whatever was taken. -/
theorem rebuilt_settled (now : Nat) (groups : List Group)
    (connections : List (Connection P)) (current : SessionsConfig P) :
    Listed SavedConnection.id (connectionRank ConnectionDetails.name)
        (rebuilt now groups connections current) ∧
      ∀ connection ∈ rebuilt now groups connections current,
        connection.Settled now := by
  obtain ⟨hlisted, hsettled⟩ := loadConnections_settled
    ConnectionDetails.name now groups
      (connections.map (preserveConnection current))
  constructor
  · exact (Listed.map_iff (withConfig_rank · ConnectionType.strip)).mpr hlisted
  · intro connection hmem
    obtain ⟨loaded, hloaded, rfl⟩ := mem_map.mp hmem
    exact (withConfig_settled _).mpr (hsettled loaded hloaded)

/-- Listed and settled connections are only changed where a device fills
them and a sync leaves something out. -/
theorem rebuilt_eq
    (hlisted : Listed SavedConnection.id
      (connectionRank ConnectionDetails.name) connections)
    (hsettled : ∀ connection ∈ connections, connection.Settled now) :
    rebuilt now groups connections current = connections.map fun connection =>
        withConfig (preserveConnection current connection)
          ConnectionType.strip := by
  have hloaded : Sessions.loadConnections ConnectionDetails.name
      (Sessions.replaceSessions now groups
        (connections.map (preserveConnection current))) =
          connections.map (preserveConnection current) := by
    apply loadConnections_eq_iff.mpr
    refine ⟨(Listed.map_iff (preserveConnection_rank current)).mpr hlisted, ?_⟩
    intro connection hmem
    obtain ⟨taken, htaken, rfl⟩ := mem_map.mp hmem
    exact (preserveConnection_settled current taken).mpr (hsettled taken htaken)
  rw [rebuilt, hloaded, map_map]
  rfl

/-- The connections are built again as they were pulled. -/
theorem rebuilt_eq_iff :
    rebuilt now groups connections current =
        connections.map (withConfig · ConnectionType.written) ↔
      Listed SavedConnection.id (connectionRank ConnectionDetails.name)
          connections ∧
        ∀ connection ∈ connections, connection.Settled now ∧
          connection.details.config.Portable ∧ ¬ Fills current connection := by
  constructor
  · intro h
    obtain ⟨hlisted, hsettled⟩ :=
      rebuilt_settled now groups connections current
    rw [h, Listed.map_iff (withConfig_rank · ConnectionType.written)] at hlisted
    have hall : ∀ connection ∈ connections, connection.Settled now := by
      intro connection hmem
      apply (withConfig_settled ConnectionType.written).mp
      rw [h] at hsettled
      exact hsettled _ (mem_map_of_mem hmem)
    rw [rebuilt_eq hlisted hall, map_inj_left] at h
    refine ⟨hlisted, fun connection hmem => ⟨hall connection hmem, ?_⟩⟩
    exact (connection_kept_iff current connection).mp (h connection hmem)
  · rintro ⟨hlisted, hall⟩
    rw [rebuilt_eq hlisted fun connection hmem => (hall connection hmem).1]
    apply map_congr_left
    intro connection hmem
    exact (connection_kept_iff current connection).mpr (hall connection hmem).2

end Rebuilt

/-- The sessions are built again as they were pulled. -/
structure SessionsConfig.Kept (now : Nat)
    (sessions current : SessionsConfig P) : Prop where
  groupsListed : Listed Group.id groupRank sessions.groups
  groups : ∀ group ∈ sessions.groups, group.Settled now
  listed : Listed SavedConnection.id (connectionRank ConnectionDetails.name)
    sessions.connections
  connections : ∀ connection ∈ sessions.connections,
    connection.Settled now ∧ connection.details.config.Portable ∧
      ¬ Fills current connection

/-- What a device keeps after it has taken a snapshot of its own. -/
structure Converges (now : Nat) (payload : Payload (Value P))
    (device : LocalState P) : Prop where
  settings : PortableAppSettings.Kept (payload .settings)
  sessions : SessionsConfig.Kept now (payload .sessions) device.loadSessions
  history : payload .history = []
  masterKeyToken : payload .masterKeyToken = none →
    device.masterKeyToken = none
  knownHosts : payload .knownHosts = [] → device.knownHosts = []

section

variable (now : Nat) (payload : Payload (Value P)) (device : LocalState P)
    (sessions : SessionsConfig P) (hsessions : payload .sessions = sessions)
include now payload device sessions hsessions

/-- The sessions that a device builds after it has taken the given ones. -/
theorem built_sessions :
    (device.applied now payload).loadSessions.strip.written =
      { groups := (Sessions.replaceSessions now sessions.groups
          (sessions.connections.map
            (preserveConnection device.loadSessions))).listGroups
        connections := rebuilt now sessions.groups sessions.connections
          device.loadSessions
        customIcons := sessions.customIcons } := by
  subst hsessions
  have hwritten : ∀ connections : List (Connection P),
      (connections.map (withConfig · ConnectionType.strip)).map
          (withConfig · ConnectionType.written) =
        connections.map (withConfig · ConnectionType.strip) := by
    intro connections
    rw [map_map]
    apply map_congr_left
    intro connection _
    change withConfig connection (fun config => config.strip.written) = _
    rw [withConfig_eq_iff]
    exact written_strip connection.details.config
  rw [SessionsConfig.written, SessionsConfig.strip]
  simp only [hwritten]
  rfl

theorem sessions_kept_iff :
    (device.applied now payload).loadSessions.strip.written =
        sessions.written ↔
      sessions.Kept now device.loadSessions := by
  rw [built_sessions now payload device sessions hsessions,
    SessionsConfig.written, SessionsConfig.mk.injEq, listGroups_eq_iff,
    rebuilt_eq_iff]
  constructor
  · rintro ⟨⟨hgroupsListed, hgroups⟩, ⟨hlisted, hconnections⟩, -⟩
    exact ⟨hgroupsListed, hgroups, hlisted, hconnections⟩
  · intro h
    exact ⟨⟨h.groupsListed, h.groups⟩, ⟨h.listed, h.connections⟩, rfl⟩

end

theorem masterKeyToken_kept_iff (token current : Option Str) :
    token.or current = token ↔ (token = none → current = none) := by
  cases token <;> simp

theorem knownHosts_kept_iff (hosts current : Str) :
    (if hosts.isEmpty then current else hosts) = hosts ↔
      (hosts = [] → current = []) := by
  cases hosts <;> simp

theorem build_written_iff (now : Nat) (payload : Payload (Value P))
    (device : LocalState P) :
    (∀ entity, written entity ((device.applied now payload).build entity) =
        written entity (payload entity)) ↔
      Converges now payload device := by
  constructor
  · intro h
    exact ⟨(settings_kept_iff _ _).mp (h .settings),
      (sessions_kept_iff now payload device _ rfl).mp (h .sessions),
      (h .history).symm, (masterKeyToken_kept_iff _ _).mp (h .masterKeyToken),
      (knownHosts_kept_iff _ _).mp (h .knownHosts)⟩
  · intro h entity
    cases entity with
    | settings => exact (settings_kept_iff _ _).mpr h.settings
    | sessions =>
      exact (sessions_kept_iff now payload device _ rfl).mpr h.sessions
    | history => exact h.history.symm
    | masterKeyToken => exact (masterKeyToken_kept_iff _ _).mpr h.masterKeyToken
    | knownHosts => exact (knownHosts_kept_iff _ _).mpr h.knownHosts
    | _ => rfl

theorem applied_of_applyPortableSnapshot {S : Serde (Value P)} {now : Nat}
    {snapshot : PortableSnapshot (Payload (Value P))}
    {device after : LocalState P}
    (h : S.applyPortableSnapshot now snapshot device = .ok after) :
    S.calculatePayloadHash snapshot.payload = snapshot.payloadHash ∧
      after = device.applied now snapshot.payload := by
  rw [Serde.applyPortableSnapshot, Fallible.bind_eq_ok] at h
  obtain ⟨_, hvalid, h⟩ := h
  rw [Fallible.bind_eq_ok] at h
  obtain ⟨_, -, h⟩ := h
  refine ⟨?_, (Except.ok.inj h).symm⟩
  rw [Serde.validatePortableSnapshot] at hvalid
  split at hvalid
  next => exact absurd hvalid (by simp)
  next =>
    split at hvalid
    next => exact absurd hvalid (by simp)
    next hhash => exact not_not.mp hhash

/-- A device that has applied a snapshot builds one of the same hash, which the
next check finds up to date, exactly if the snapshot converges there. -/
theorem pull_converges_iff {S : Serde (Value P)}
    (hdigest : Function.Injective S.digest) (hvalues : S.WritesValues)
    (halike : S.WritesAlike) {now : Nat}
    {snapshot : PortableSnapshot (Payload (Value P))}
    {device after : LocalState P}
    (happlied : S.applyPortableSnapshot now snapshot device = .ok after) :
    (S.calculatePayloadHash after.build = snapshot.payloadHash ∧
      ∀ state allowAutoPull,
        decideRemoteCheck state (S.calculatePayloadHash after.build)
          (pointerFromSnapshot snapshot) allowAutoPull = .upToDate) ↔
      Converges now snapshot.payload device := by
  obtain ⟨hhash, rfl⟩ := applied_of_applyPortableSnapshot happlied
  have hsame : S.calculatePayloadHash
      (device.applied now snapshot.payload).build = snapshot.payloadHash ↔
        Converges now snapshot.payload device := by
    rw [← hhash, S.payloadHash_eq_iff hdigest hvalues halike,
      build_written_iff]
  constructor
  · exact fun h => hsame.mp h.1
  · intro h
    refine ⟨hsame.mpr h, fun state allowAutoPull => ?_⟩
    rw [decideRemoteCheck, if_pos]
    exact (hsame.mpr h).symm

/-- Where the hash is another one, the device takes what it has pulled for its
own change. -/
theorem decideRemoteCheck_localChanged {state : CloudSyncState}
    {localHash : Str} {remote : RemoteSyncPointer}
    (hhash : remote.payloadHash ≠ localHash)
    (hsynced : state.lastSyncedPayloadHash = some remote.payloadHash)
    (happlied : state.lastAppliedRemoteRevision = some remote.revisionId)
    (allowAutoPull : Bool) :
    decideRemoteCheck state localHash remote allowAutoPull =
      .localChanged := by
  have hchanged : (remote.payloadHash != localHash) = true :=
    bne_iff_ne.mpr hhash
  rw [decideRemoteCheck, if_neg hhash, hsynced, happlied]
  simp only [Option.elim_some, bne_self_eq_false, hchanged]

/-! A serialization that numbers the values, with nothing in the parts that are
passed on as a whole. -/

/-- Nothing but what the model looks at. -/
abbrev bareParts : Parts where
  sections := Unit
  ui := Unit
  device := Unit
  ai := Unit
  appearance := Unit
  transfer := Unit
  opacity := Unit
  endpoint := Unit
  forwarding := Unit
  config := Unit
  connection := Unit
  auth := Unit
  icon := Unit
  history := Unit
  plain := fun _ => Unit
  normalizeAi := id
  defaultOpacity := ()

instance charEncodable : Encodable Char :=
  Encodable.ofLeftInverse Char.toNat Char.ofNat Char.ofNat_toNat

instance groupEncodable : Encodable Group :=
  Encodable.ofLeftInverse
    (fun group => (group.id, group.name, group.parentId, group.sortOrder,
      group.createdAtMs, group.updatedAtMs))
    (fun fields => ⟨fields.1, fields.2.1, fields.2.2.1, fields.2.2.2.1,
      fields.2.2.2.2.1, fields.2.2.2.2.2⟩)
    fun _ => rfl

instance securityEncodable : Encodable SecuritySettings :=
  Encodable.ofLeftInverse
    (fun security => (security.useOsKeyring, security.enableStartupLock,
      security.enableIdleLock, security.idleLockMinutes,
      security.legacyEnableScreenLock, security.masterPassword,
      security.hostKeyPolicy))
    (fun fields => ⟨fields.1, fields.2.1, fields.2.2.1, fields.2.2.2.1,
      fields.2.2.2.2.1, fields.2.2.2.2.2.1, fields.2.2.2.2.2.2⟩)
    fun _ => rfl

instance settingsEncodable : Encodable (PortableAppSettings bareParts) :=
  Encodable.ofLeftInverse
    (fun settings => (settings.appearance.backgroundImagePath,
      settings.appearance.backgroundImageFit, settings.transfer.downloadPath,
      settings.transfer.defaultEditor, settings.transfer.recordingPath,
      settings.security))
    (fun fields => ⟨(), ⟨fields.1, fields.2.1, (), ()⟩, fields.2.2.2.2.2,
      ⟨fields.2.2.1, fields.2.2.2.1, fields.2.2.2.2.1, ()⟩, (), ()⟩)
    fun _ => rfl

/-- The configurations, by the number of their kind. -/
def configFields : ConnectionType bareParts →
    Nat × (Option Unit × Option Bool × Option Unit) × Str × Str × Option Str
  | .ssh endpoint legacy forwarding _ =>
    (0, (endpoint, legacy, forwarding), [], [], none)
  | .localTerminal shellPath shellArgs workingDir _ =>
    (1, (none, none, none), shellPath, shellArgs, workingDir)
  | .telnet _ => (2, (none, none, none), [], [], none)
  | .serial portName _ => (3, (none, none, none), portName, [], none)
  | .rdp _ => (4, (none, none, none), [], [], none)
  | .vnc _ => (5, (none, none, none), [], [], none)

def configOf :
    Nat × (Option Unit × Option Bool × Option Unit) × Str × Str × Option Str →
      ConnectionType bareParts
  | (0, (endpoint, legacy, forwarding), _) => .ssh endpoint legacy forwarding ()
  | (1, _, shellPath, shellArgs, workingDir) =>
    .localTerminal shellPath shellArgs workingDir ()
  | (2, _) => .telnet ()
  | (3, _, portName, _) => .serial portName ()
  | (4, _) => .rdp ()
  | _ => .vnc ()

instance configEncodable : Encodable (ConnectionType bareParts) :=
  Encodable.ofLeftInverse configFields configOf fun config => by
    cases config <;> rfl

def protocols : List Protocol :=
  [.ssh, .localTerminal, .telnet, .serial, .rdp, .vnc]

instance protocolEncodable : Encodable Protocol :=
  Encodable.ofLeftInverse (fun protocol => protocols.idxOf protocol)
    (fun n => protocols.getD n .ssh) fun protocol => by
      cases protocol <;> rfl

instance authEncodable : Encodable (ConnectionAuth Unit) :=
  Encodable.ofLeftInverse (fun auth => (auth.password, auth.hasPassword))
    (fun fields => ⟨(), fields.1, fields.2⟩) fun _ => rfl

instance connectionEncodable : Encodable (Connection bareParts) :=
  Encodable.ofLeftInverse
    (fun connection => (connection.id, connection.details.name,
      connection.details.config, connection.protocol, connection.groupId,
      connection.sortOrder, (connection.auth : Option (ConnectionAuth Unit)),
      connection.createdAtMs, connection.updatedAtMs,
      connection.lastUsedAtMs))
    (fun fields => ⟨fields.1, ⟨fields.2.1, fields.2.2.1, ()⟩,
      fields.2.2.2.1, fields.2.2.2.2.1, fields.2.2.2.2.2.1,
      fields.2.2.2.2.2.2.1, fields.2.2.2.2.2.2.2.1,
      fields.2.2.2.2.2.2.2.2.1, fields.2.2.2.2.2.2.2.2.2⟩)
    fun _ => rfl

instance sessionsEncodable : Encodable (SessionsConfig bareParts) :=
  Encodable.ofLeftInverse
    (fun sessions => (sessions.groups, sessions.connections,
      (sessions.customIcons : List Unit)))
    (fun fields => ⟨fields.1, fields.2.1, fields.2.2⟩)
    fun _ => rfl

/-- The number of a value. -/
def number (entity : Entity) (value : Value bareParts entity) : Nat :=
  match entity, value with
  | .settings, settings =>
    Encodable.encode (settings : PortableAppSettings bareParts)
  | .sessions, sessions =>
    Encodable.encode (sessions : SessionsConfig bareParts)
  | .history, history => Encodable.encode (history : List Unit)
  | .masterKeyToken, token => Encodable.encode (token : Option Str)
  | .knownHosts, hosts => Encodable.encode (hosts : Str)
  | _, _ => 0

theorem number_injective (entity : Entity) :
    Function.Injective (number entity) := by
  cases entity with
  | settings => exact Encodable.encode_injective
  | sessions => exact Encodable.encode_injective
  | history => exact Encodable.encode_injective
  | masterKeyToken => exact Encodable.encode_injective
  | knownHosts => exact Encodable.encode_injective
  | _ => exact fun _ _ _ => rfl

/-- As many digits as the number says. -/
def tally (n : Nat) : Str :=
  replicate n '1'

theorem tally_selfDelimiting (n : Nat) : SelfDelimiting (tally n) := by
  induction n with
  | zero => decide
  | succ n ih => exact ih

variable (payload : Payload (Value bareParts))

/-- Every value is written as a tally of its number, and the digest is the text
itself. -/
def tallySerde :
    Serde (Value bareParts) where
  toText := fun entity value => tally (number entity (written entity value))
  fromText := fun _ _ => none
  default := payload
  rawValue := some
  metaText := fun _ => "\x7b\x7d".toList
  metaFromText := fun _ => none
  digest := id

theorem tallySerde_writesValues :
    (tallySerde payload).WritesValues :=
  fun _ _ => tally_selfDelimiting _

theorem tallySerde_writesAlike :
    (tallySerde payload).WritesAlike := by
  intro entity first second
  constructor
  · intro h
    apply number_injective entity
    have hlength := congrArg List.length h
    simpa [tallySerde, tally] using hlength
  · intro h
    change tally (number entity (written entity first)) = _
    rw [h]
    rfl

/-- Default settings as a sync writes them. -/
def plainSettings : PortableAppSettings bareParts where
  sections := ()
  appearance := ⟨none, defaultBackgroundImageFit, (), ()⟩
  security := ⟨false, false, false, 5, none, none, "ask".toList⟩
  transfer := ⟨[], [], [], ()⟩
  ai := ()
  ui := ()

/-- A group that was saved at time 1. -/
def savedGroup : Group :=
  { id := "g".toList, name := "Servers".toList, createdAtMs := some 1,
    updatedAtMs := some 1 }

/-- A payload with nothing in it but this group. -/
def groupPayload : Payload (Value bareParts) :=
  snapshotFields (V := Value bareParts) plainSettings ⟨[savedGroup], [], []⟩
    () () () () () () () () () [] none [] ()

def bareSnapshot : PortableSnapshot (Payload (Value bareParts)) where
  schemaVersion := 3
  snapshotKind := .sync
  revisionId := "0b6f2a52-6a52-4c1e-9f0e-2f6f1f0c7d11".toList
  deviceId := "laptop".toList
  createdAtMs := 1
  payloadHash := (tallySerde payload).calculatePayloadHash payload
  appVersion := "1.0.0".toList
  payload := payload

def groupSnapshot : PortableSnapshot (Payload (Value bareParts)) :=
  bareSnapshot groupPayload

/-- A device that has no sessions yet. -/
def freshDevice : LocalState bareParts where
  settings := { plainSettings with device := () }
  sessions := {}
  customIcons := []
  keys := ()
  passwords := ()
  credentials := ()
  otp := ()
  proxies := ()
  proxyGroups := ()
  tunnels := ()
  tunnelGroups := ()
  quickCommands := ()
  masterKeyToken := none
  verifyMasterKeyToken := fun _ => .ok ()
  knownHosts := []
  notes := ()

theorem bareSnapshot_applied (now : Nat) :
    (tallySerde payload).applyPortableSnapshot now (bareSnapshot payload)
      freshDevice = .ok (freshDevice.applied now payload) := by
  have htoken : ∀ token,
      freshDevice.installSnapshotMasterKeyToken token = .ok () := by
    intro token
    cases token <;> rfl
  rw [Serde.applyPortableSnapshot, Serde.validatePortableSnapshot, if_neg,
    if_neg]
  · exact congrArg
      (· >>= fun _ => Except.ok (freshDevice.applied now payload)) (htoken _)
  · exact not_not_intro rfl
  · exact not_not_intro rfl

/-- A group and a login in it, saved at time 2. -/
def savedSessions : SessionsConfig bareParts where
  groups := [{ savedGroup with updatedAtMs := some 2 }]
  connections := [
    { id := "c".toList
      details := ⟨"db".toList, .ssh none none none (), ()⟩
      protocol := .ssh
      groupId := some "g".toList
      auth := some ⟨(), some "secret".toList, true⟩
      createdAtMs := some 1
      updatedAtMs := some 2 }]
  customIcons := []

/-- They, a master key and a known host. -/
def syncedPayload : Payload (Value bareParts) :=
  snapshotFields (V := Value bareParts) plainSettings savedSessions
    () () () () () () () () () [] (some "token".toList)
    "db ssh-rsa AAAA".toList ()

theorem syncedPayload_converges : Converges 2 syncedPayload freshDevice where
  settings := ⟨rfl, rfl, rfl, fun _ h => (Option.some_ne_none _ h.symm).elim,
    rfl⟩
  sessions :=
    { groupsListed := ⟨by decide, by decide⟩
      groups := by
        rintro group hmem
        obtain rfl := mem_singleton.mp hmem
        exact ⟨rfl, rfl⟩
      listed := ⟨by decide, by decide⟩
      connections := by
        intro connection hmem
        obtain rfl := mem_singleton.mp hmem
        refine ⟨⟨rfl, rfl, ?_, ?_⟩, ⟨rfl, rfl⟩, ?_⟩
        · intro auth hauth hnone
          cases hauth
          cases hnone
        · intro auth password hauth hpassword
          cases hauth
          cases hpassword
          decide
        · rintro ⟨device, -, hfilled⟩
          exact hfilled }
  history := rfl
  masterKeyToken := fun h => (Option.some_ne_none _ h).elim
  knownHosts := fun h => (cons_ne_nil _ _ h).elim

/-- The device is up to date after it has pulled them at that time. -/
theorem syncedSnapshot_pull :
    (tallySerde syncedPayload).calculatePayloadHash
        (freshDevice.applied 2 syncedPayload).build =
          (bareSnapshot syncedPayload).payloadHash ∧
      ∀ state allowAutoPull,
        decideRemoteCheck state
          ((tallySerde syncedPayload).calculatePayloadHash
            (freshDevice.applied 2 syncedPayload).build)
          (pointerFromSnapshot (bareSnapshot syncedPayload)) allowAutoPull =
            .upToDate :=
  (pull_converges_iff (fun _ _ h => h) (tallySerde_writesValues syncedPayload)
    (tallySerde_writesAlike syncedPayload)
    (bareSnapshot_applied syncedPayload 2)).mpr syncedPayload_converges

/-- What cloud sync stores after a pull of this snapshot. -/
def pulledState : CloudSyncState where
  deviceId := "phone".toList
  lastSyncedPayloadHash := some groupSnapshot.payloadHash
  lastAppliedRemoteRevision := some groupSnapshot.revisionId

/-- The group is stamped by the pull; the hash is another one, and the next
check finds a change that nobody has made. -/
theorem groupSnapshot_restamped :
    (tallySerde groupPayload).applyPortableSnapshot 2 groupSnapshot
        freshDevice = .ok (freshDevice.applied 2 groupPayload) ∧
      (tallySerde groupPayload).calculatePayloadHash
        (freshDevice.applied 2 groupPayload).build ≠
          groupSnapshot.payloadHash ∧
      decideRemoteCheck pulledState
        ((tallySerde groupPayload).calculatePayloadHash
          (freshDevice.applied 2 groupPayload).build)
        (pointerFromSnapshot groupSnapshot) true = .localChanged := by
  have hchanged : (tallySerde groupPayload).calculatePayloadHash
      (freshDevice.applied 2 groupPayload).build ≠
        groupSnapshot.payloadHash := by
    intro hsame
    have hwritten := (Serde.payloadHash_eq_iff (fun _ _ h => h)
      (tallySerde_writesValues groupPayload)
      (tallySerde_writesAlike groupPayload)).mp hsame
    have hconverges :=
      (build_written_iff 2 groupPayload freshDevice).mp hwritten
    have hstamp := (hconverges.sessions.groups savedGroup mem_cons_self).2
    exact absurd hstamp (by decide)
  exact ⟨bareSnapshot_applied groupPayload 2, hchanged,
    decideRemoteCheck_localChanged hchanged.symm rfl rfl true⟩

end NiceTerm.Snapshot
