/-
What a pulled snapshot does to a device, and the snapshot the device builds
next.  A sync leaves the device-local fields where they are: they are stripped
from what is built and put back into what is applied.  The files of a device
are taken to be read as they were saved.
-/
import NiceTerm.Cloud.Manager
import NiceTerm.Snapshot.Hash
import NiceTerm.Storage.Lists

namespace NiceTerm.Snapshot

open RustStr (Str trim)
open Cloud (PortableSnapshot)
open Storage (Group SavedConnection)

/-- The parts of the data that are passed on as a whole, as far as they are
written, `normalize_ai_settings` and the default opacity of a background
image. -/
structure Parts where
  sections : Type
  ui : Type
  device : Type
  ai : Type
  appearance : Type
  transfer : Type
  opacity : Type
  endpoint : Type
  forwarding : Type
  config : Type
  connection : Type
  auth : Type
  icon : Type
  history : Type
  plain : Entity → Type
  normalizeAi : ai → ai
  defaultOpacity : opacity

structure AppearanceSettings (P : Parts) where
  backgroundImagePath : Option Str
  backgroundImageFit : Str
  backgroundImageOpacity : P.opacity
  rest : P.appearance

structure TransferSettings (P : Parts) where
  downloadPath : Str
  defaultEditor : Str
  recordingPath : Str
  rest : P.transfer

structure SecuritySettings where
  useOsKeyring : Bool
  enableStartupLock : Bool
  enableIdleLock : Bool
  idleLockMinutes : Nat
  legacyEnableScreenLock : Option Bool
  masterPassword : Option Str
  hostKeyPolicy : Str
deriving Repr, DecidableEq

/-- `sections` are the settings that are copied whole: general, proxy, search,
translation, terminal, interaction and diagnostics. -/
structure PortableAppSettings (P : Parts) where
  sections : P.sections
  appearance : AppearanceSettings P
  security : SecuritySettings
  transfer : TransferSettings P
  ai : P.ai
  ui : P.ui

/-- `device` is what no snapshot has: the state of the windows, the settings of
cloud sync and of recordings, and the key bindings. -/
structure AppSettings (P : Parts) extends PortableAppSettings P where
  device : P.device

/-- `rest` are the fields of each kind that a sync copies. -/
inductive ConnectionType (P : Parts) where
  | ssh (authAgentEndpoint : Option P.endpoint)
      (legacyAgentForwarding : Option Bool)
      (agentForwardingConfig : Option P.forwarding) (rest : P.config)
  | localTerminal (shellPath shellArgs : Str) (workingDir : Option Str)
      (rest : P.config)
  | telnet (rest : P.config)
  | serial (portName : Str) (rest : P.config)
  | rdp (rest : P.config)
  | vnc (rest : P.config)

structure ConnectionDetails (P : Parts) where
  name : Str
  config : ConnectionType P
  rest : P.connection

abbrev Connection (P : Parts) := SavedConnection P.auth (ConnectionDetails P)

structure SessionsConfig (P : Parts) where
  groups : List Group
  connections : List (Connection P)
  customIcons : List P.icon

/-- The types of the entities. -/
@[reducible] def Value (P : Parts) : Entity → Type
  | .settings => PortableAppSettings P
  | .sessions => SessionsConfig P
  | .history => List P.history
  | .masterKeyToken => Option Str
  | .knownHosts => Str
  | entity => P.plain entity

variable {P : Parts}

def defaultBackgroundImageFit : Str := "cover".toList

/-- `strip_device_local_settings`, at the appearance and at the transfers. -/
def AppearanceSettings.strip (appearance : AppearanceSettings P) :
    AppearanceSettings P :=
  { appearance with
    backgroundImagePath := none
    backgroundImageFit := defaultBackgroundImageFit
    backgroundImageOpacity := P.defaultOpacity }

def TransferSettings.strip (transfer : TransferSettings P) :
    TransferSettings P :=
  { transfer with downloadPath := [], defaultEditor := [], recordingPath := [] }

/-- `preserve_device_local_settings`, at the appearance and at the
transfers. -/
def AppearanceSettings.preserve (appearance device : AppearanceSettings P) :
    AppearanceSettings P :=
  { device with rest := appearance.rest }

def TransferSettings.preserve (transfer device : TransferSettings P) :
    TransferSettings P :=
  { device with rest := transfer.rest }

def SecuritySettings.migrateLegacyScreenLock (security : SecuritySettings) :
    SecuritySettings :=
  match security.legacyEnableScreenLock with
  | none => security
  | some enabled =>
    { security with
      legacyEnableScreenLock := none
      enableStartupLock := enabled
      enableIdleLock := enabled }

/-- `PortableAppSettings::from_app_settings`, for a sync. -/
def PortableAppSettings.fromAppSettings (settings : AppSettings P) :
    PortableAppSettings P :=
  { settings.toPortableAppSettings with
    security := { settings.security with masterPassword := none }
    appearance := settings.appearance.strip
    transfer := settings.transfer.strip }

/-- `PortableAppSettings::apply_to`, for a sync. -/
def PortableAppSettings.applyTo (settings : PortableAppSettings P)
    (current : AppSettings P) : AppSettings P :=
  { settings with
    security :=
      { settings.security.migrateLegacyScreenLock with
        masterPassword := current.security.masterPassword }
    appearance := settings.appearance.preserve current.appearance
    transfer := settings.transfer.preserve current.transfer
    ai := P.normalizeAi settings.ai
    device := current.device }

def isEmptyLocalTerminalConfig (shellPath shellArgs : Str)
    (workingDir : Option Str) : Bool :=
  (trim shellPath).isEmpty && (trim shellArgs).isEmpty &&
    workingDir.all fun workingDir => (trim workingDir).isEmpty

namespace ConnectionType

/-- `strip_device_local_sessions`, at one connection. -/
def strip : ConnectionType P → ConnectionType P
  | .ssh _ _ _ rest => .ssh none none none rest
  | .serial _ rest => .serial [] rest
  | config => config

/-- `preserve_device_local_sessions`, at one connection that the device has. -/
def preserve (config : ConnectionType P) :
    ConnectionType P → ConnectionType P
  | .localTerminal deviceShellPath deviceShellArgs deviceWorkingDir _ =>
    match config with
    | .localTerminal shellPath shellArgs workingDir rest =>
      if isEmptyLocalTerminalConfig shellPath shellArgs workingDir &&
          !isEmptyLocalTerminalConfig deviceShellPath deviceShellArgs
            deviceWorkingDir then
        .localTerminal deviceShellPath deviceShellArgs deviceWorkingDir rest
      else config
    | _ => config
  | .serial devicePortName _ =>
    match config with
    | .serial _ rest => .serial devicePortName rest
    | _ => config
  | .ssh endpoint legacy forwarding _ =>
    match config with
    | .ssh _ _ _ rest => .ssh endpoint legacy forwarding rest
    | _ => config
  | _ => config

end ConnectionType

def withConfig (connection : Connection P)
    (f : ConnectionType P → ConnectionType P) : Connection P :=
  { connection with
    details.config := f connection.details.config }

/-- `strip_device_local_sessions` -/
def SessionsConfig.strip (sessions : SessionsConfig P) : SessionsConfig P :=
  { sessions with
    connections := sessions.connections.map fun connection =>
      withConfig connection ConnectionType.strip }

/-- The connection of the device that fills the device-local fields. -/
def deviceConnection (current : SessionsConfig P) (connection : Connection P) :
    Option (Connection P) :=
  current.connections.find? fun candidate => candidate.id == connection.id

def preserveConnection (current : SessionsConfig P)
    (connection : Connection P) : Connection P :=
  match deviceConnection current connection with
  | none => connection
  | some device => withConfig connection fun config =>
    config.preserve device.details.config

/-- `preserve_device_local_sessions` -/
def SessionsConfig.preserve (incoming current : SessionsConfig P) :
    SessionsConfig P :=
  { incoming with
    connections := incoming.connections.map (preserveConnection current) }

/-- The files of a device that a snapshot is built from. -/
structure LocalState (P : Parts) where
  settings : AppSettings P
  sessions : Storage.Sessions P.auth (ConnectionDetails P)
  customIcons : List P.icon
  keys : P.plain .keys
  passwords : P.plain .passwords
  credentials : P.plain .credentials
  otp : P.plain .otp
  proxies : P.plain .proxies
  proxyGroups : P.plain .proxyGroups
  tunnels : P.plain .tunnels
  tunnelGroups : P.plain .tunnelGroups
  quickCommands : P.plain .quickCommands
  masterKeyToken : Option Str
  /-- `verify_master_key_token`, behind a token that was saved -/
  verifyMasterKeyToken : Str → Except AppError Unit
  knownHosts : Str
  notes : P.plain .notes

variable (device : LocalState P)

def LocalState.loadSessions : SessionsConfig P :=
  { groups := device.sessions.listGroups
    connections := device.sessions.loadConnections ConnectionDetails.name
    customIcons := device.customIcons }

/-- The payload of `build_portable_snapshot`, for a sync. -/
def LocalState.build : Payload (Value P) :=
  snapshotFields (V := Value P)
    (.fromAppSettings device.settings) device.loadSessions.strip device.keys
    device.passwords device.credentials device.otp device.proxies
    device.proxyGroups device.tunnels device.tunnelGroups device.quickCommands
    [] device.masterKeyToken device.knownHosts device.notes

/-- The files behind the checks of `apply_portable_snapshot`, for a sync. -/
def LocalState.applied (now : Nat)
    (payload : Payload (Value P)) : LocalState P :=
  let sessions :=
    SessionsConfig.preserve (payload .sessions) device.loadSessions
  { settings :=
      PortableAppSettings.applyTo (payload .settings) device.settings
    sessions := .replaceSessions now sessions.groups sessions.connections
    customIcons := sessions.customIcons
    keys := payload .keys
    passwords := payload .passwords
    credentials := payload .credentials
    otp := payload .otp
    proxies := payload .proxies
    proxyGroups := payload .proxyGroups
    tunnels := payload .tunnels
    tunnelGroups := payload .tunnelGroups
    quickCommands := payload .quickCommands
    masterKeyToken := (payload .masterKeyToken).or device.masterKeyToken
    verifyMasterKeyToken := device.verifyMasterKeyToken
    knownHosts :=
      if (payload .knownHosts).isEmpty then device.knownHosts
      else payload .knownHosts
    notes := payload .notes }

def LocalState.installSnapshotMasterKeyToken
    (token : Option Str) : Except AppError Unit :=
  match token with
  | none => .ok ()
  | some masterKey => device.verifyMasterKeyToken masterKey

/-- `apply_portable_snapshot`, for a sync. -/
def Serde.applyPortableSnapshot (S : Serde (Value P)) (now : Nat)
    (snapshot : PortableSnapshot (Payload (Value P)))
    (device : LocalState P) : Except AppError (LocalState P) := do
  S.validatePortableSnapshot snapshot
  device.installSnapshotMasterKeyToken (snapshot.payload .masterKeyToken)
  return device.applied now snapshot.payload

end NiceTerm.Snapshot
