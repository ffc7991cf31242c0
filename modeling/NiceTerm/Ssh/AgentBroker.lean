/-
The frames of the agent protocol, and the broker between the remote side of a
forwarded agent channel and the agents and stored keys of this side.  What the
agents answer, when the stored keys change and how long anything takes is given
from outside, frame by frame.
-/
import NiceTerm.Lib.RustSplit
import NiceTerm.Lib.Transition

namespace NiceTerm.Ssh.Agent

open RustStr
open RustStr (Str)

abbrev Bytes := List UInt8

def maxAgentFrameLen : Nat := 262144
def maxAgentIdentities : Nat := 1024
def maxAgentCommentLen : Nat := 4096

def failure : UInt8 := 5
def identitiesAnswer : UInt8 := 12
def signRequest : UInt8 := 13
def signResponse : UInt8 := 14
def requestIdentities : UInt8 := 11
def extension : UInt8 := 27
def extensionFailure : UInt8 := 28

def sessionBindExtension : Bytes :=
  utf8 "session-bind@openssh.com".toList

def queryExtension : Bytes := utf8 "query".toList

/-- `Cursor::read_u8` and the others give what is read and what is left. -/
def readU8 : Bytes → Option (UInt8 × Bytes)
  | [] => none
  | value :: rest => some (value, rest)

def readU32 : Bytes → Option (Nat × Bytes)
  | a :: b :: c :: d :: rest =>
    some (a.toNat * 16777216 + b.toNat * 65536 + c.toNat * 256 + d.toNat, rest)
  | _ => none

def readStringLimited (max : Nat) (bytes : Bytes) : Option (Bytes × Bytes) :=
  match readU32 bytes with
  | none => none
  | some (length, rest) =>
    if max < length || rest.length < length then none
    else some (rest.take length, rest.drop length)

def readString (bytes : Bytes) : Option (Bytes × Bytes) :=
  readStringLimited maxAgentFrameLen bytes

def readBool (bytes : Bytes) : Option (Bool × Bytes) :=
  match readU8 bytes with
  | some (0, rest) => some (false, rest)
  | some (1, rest) => some (true, rest)
  | _ => none

structure SignRequest where
  blob : Bytes
  data : Bytes
  flags : Nat
deriving DecidableEq, Repr

def parseSignRequest (request : Bytes) : Option SignRequest := do
  let (blob, rest) ← readString (request.drop 1)
  let (data, rest) ← readString rest
  let (flags, rest) ← readU32 rest
  if rest.isEmpty then some ⟨blob, data, flags⟩ else none

/-- The name of an extension.  The two that may be passed on must be whole. -/
def parseExtensionRequest (request : Bytes) : Option Bytes := do
  let (name, rest) ← readStringLimited 256 (request.drop 1)
  if name = queryExtension then
    if rest.isEmpty then some name else none
  else if name = sessionBindExtension then
    let (_, rest) ← readString rest
    let (_, rest) ← readString rest
    let (_, rest) ← readString rest
    let (_, rest) ← readBool rest
    if rest.isEmpty then some name else none
  else some name

structure ExternalIdentity where
  blob : Bytes
  comment : Str
deriving DecidableEq, Repr

def readIdentities : Nat → Bytes → Option (List ExternalIdentity)
  | 0, bytes => if bytes.isEmpty then some [] else none
  | count + 1, bytes => do
    let (blob, rest) ← readString bytes
    let (comment, rest) ← readStringLimited maxAgentCommentLen rest
    let comment ← fromUtf8 comment
    let identities ← readIdentities count rest
    some (⟨blob, comment⟩ :: identities)

def parseIdentitiesResponse (response : Bytes) :
    Option (List ExternalIdentity) := do
  let (type, rest) ← readU8 response
  let (count, rest) ← if type = identitiesAnswer then readU32 rest else none
  if maxAgentIdentities < count then none else readIdentities count rest

def encodeU32 (value : Nat) : Bytes :=
  [UInt8.ofNat (value / 16777216), UInt8.ofNat (value / 65536),
    UInt8.ofNat (value / 256), UInt8.ofNat value]

def encodeString (value : Bytes) : Bytes := encodeU32 value.length ++ value

def frame (payload : Bytes) : Bytes := encodeU32 payload.length ++ payload

/-- `read_frame`: an error, the end of the stream, or a payload with the rest
of the stream. -/
def readFrame (stream : Bytes) : Option (Option (Bytes × Bytes)) :=
  match readU32 stream with
  | none => some none
  | some (length, rest) =>
    if length = 0 || maxAgentFrameLen < length then none
    else if rest.length < length then none
    else some (some (rest.take length, rest.drop length))

def failureFrame : Bytes := frame [failure]

def extensionFailureFrame : Bytes := frame [extensionFailure]

/-- The payload grows by one identity at a time, up to the size of a frame. -/
def encodeIdentities (payload : Bytes) :
    List (Bytes × Str) → Option Bytes
  | [] => some payload
  | (blob, comment) :: rest =>
    let payload := payload ++ encodeString blob ++ encodeString (utf8 comment)
    if maxAgentFrameLen < payload.length then none
    else encodeIdentities payload rest

def identitiesFrame (identities : List (Bytes × Str)) : Option Bytes :=
  if maxAgentIdentities < identities.length then none
  else
    (encodeIdentities (identitiesAnswer :: encodeU32 identities.length)
      identities).map frame

/-! The broker. -/

inductive SshAgentEndpoint
  | auto
  | environment (name : Str)
  | unixSocket (path : Str)
  | pageant
  | windowsOpenSsh
deriving DecidableEq, Repr

inductive SshAgentForwardingPolicy
  | allowlist (fingerprints : List Str)
  | all
deriving DecidableEq, Repr

structure SshAgentForwardingConfig where
  externalAgent : Bool
  externalAgentEndpoints : List SshAgentEndpoint
  storedKeys : Bool
  policy : SshAgentForwardingPolicy
deriving DecidableEq, Repr

def normalizeEnvironmentVariable (value : Str) : Option Str :=
  let name := trim (trimStartMatches '$' (trim value))
  if name.isEmpty || name.contains '=' || name.contains '\x00' then none
  else some name

/-- `ssh_agent_endpoint_key`; `unix` is `cfg!(unix)`. -/
def endpointKey (unix : Bool) : SshAgentEndpoint → Str
  | .auto =>
    if unix then "environment:SSH_AUTH_SOCK".toList else "auto".toList
  | .environment name =>
    "environment:".toList ++
      (normalizeEnvironmentVariable name).getD (trim name)
  | .unixSocket path => "unix_socket:".toList ++ path
  | .pageant => "pageant".toList
  | .windowsOpenSsh => "windows_open_ssh".toList

/-- The endpoints whose key has not been seen, with their positions. -/
def distinctEndpoints (unix : Bool) (seen : List Str) (index : Nat) :
    List SshAgentEndpoint → List (SshAgentEndpoint × Nat)
  | [] => []
  | endpoint :: rest =>
    if endpointKey unix endpoint ∈ seen then
      distinctEndpoints unix seen (index + 1) rest
    else
      (endpoint, index) ::
        distinctEndpoints unix (endpointKey unix endpoint :: seen) (index + 1)
          rest

def configuredExternalEndpoints (unix : Bool)
    (config : SshAgentForwardingConfig) : List (SshAgentEndpoint × Nat) :=
  if config.externalAgent then
    distinctEndpoints unix [] 0 config.externalAgentEndpoints
  else []

inductive HashAlg
  | sha256
  | sha512
deriving DecidableEq, Repr

/-- What the cryptographic libraries are used for. -/
structure Crypto (Key : Type) where
  fingerprint : Bytes → Str
  isRsa : Key → Bool
  trySign : Key → Option HashAlg → Bytes → Option Bytes

structure StoredKeyIdentity (Key : Type) where
  blob : Bytes
  comment : Str
  key : Key

/-- The stored keys, by the epoch of the last change. -/
abbrev KeyStore (Key : Type) := Nat → List (StoredKeyIdentity Key)

variable {Key : Type}

/-- Keys and the epoch at which they were read, under one lock.  A key that
cannot be decrypted is left out. -/
structure StoredKeySnapshot (store : KeyStore Key) where
  epoch : Nat
  identities : List (StoredKeyIdentity Key)
  loaded : ∀ identity ∈ identities, identity ∈ store epoch

inductive IdentityProvider (Key : Type)
  | external (index : Nat)
  | stored (key : Key) (epoch : Nat)

structure AgentIdentityRecord (Key : Type) where
  blob : Bytes
  comment : Str
  fingerprint : Str
  provider : IdentityProvider Key

structure IdentityCollector (Key : Type) where
  items : List (AgentIdentityRecord Key)
  seen : List Bytes
  encodedLen : Nat
  truncated : Bool

def IdentityCollector.new : IdentityCollector Key := ⟨[], [], 5, false⟩

def IdentityCollector.push (collector : IdentityCollector Key)
    (record : AgentIdentityRecord Key) : IdentityCollector Key :=
  if collector.truncated || collector.seen.contains record.blob then collector
  else
    let encodedLen := collector.encodedLen + 4 + record.blob.length + 4 +
      len record.comment
    if 18446744073709551615 < encodedLen then
      { collector with truncated := true }
    else if maxAgentIdentities ≤ collector.items.length ||
        maxAgentFrameLen < encodedLen then
      { collector with truncated := true }
    else
      { collector with
        seen := record.blob :: collector.seen
        encodedLen := encodedLen
        items := collector.items ++ [record] }

/-- How an exchange with an agent ends: a frame is read, or the stream fails,
closes or is waited for too long. -/
inductive Outcome
  | answered (response : Bytes)
  | failed
deriving DecidableEq, Repr

/-- `outstanding` are the requests on the stream whose answers have not been
read: an agent answers them in order. -/
structure ExternalUpstream where
  healthy : Bool
  outstanding : List Bytes
deriving DecidableEq, Repr

/-- What the broker does beyond its own memory. -/
inductive Effect (Key : Type)
  | sent (agent : Nat) (request : Bytes)
  | answered (agent : Nat) (request answeredRequest response : Bytes)
  | failed (agent : Nat) (request : Bytes)
  | enumerated (provider : IdentityProvider Key) (blob : Bytes)
  | signed (key : Key) (blob : Bytes) (loadedAt current : Nat)
  | replied (request response : Bytes)

/-- What happens outside while one frame is handled. -/
structure Moment (store : KeyStore Key) where
  frameEpoch : Nat
  identities : Nat → Outcome
  expectedEpoch : Nat
  cached : Option (StoredKeySnapshot store)
  cachedEpoch : Nat
  loaded : Option (StoredKeySnapshot store)
  loadedEpoch : Nat
  checkedEpoch : Nat
  permit : Bool
  proxied : Outcome
  signEpoch : Nat

/-- One channel.  The effects come latest first. -/
structure Channel (Key : Type) where
  external : List ExternalUpstream
  identities : List (AgentIdentityRecord Key)
  identitiesLoaded : Bool
  log : List (Effect Key)

def exchange (agent : Nat) (request : Bytes) (upstream : ExternalUpstream)
    (outcome : Outcome) : ExternalUpstream × Option Bytes × List (Effect Key) :=
  let outstanding := upstream.outstanding ++ [request]
  match outcome with
  | .answered response =>
    ({ upstream with outstanding := outstanding.tail }, some response,
      [.answered agent request (outstanding.headD []) response,
        .sent agent request])
  | .failed =>
    ({ upstream with outstanding := outstanding }, none,
      [.failed agent request, .sent agent request])

def requestExternalIdentities (agent : Nat) (upstream : ExternalUpstream)
    (outcome : Outcome) :
    ExternalUpstream × Option (List ExternalIdentity) × List (Effect Key) :=
  match exchange agent [requestIdentities] upstream outcome with
  | (upstream, none, effects) => (upstream, none, effects)
  | (upstream, some response, effects) =>
    match parseIdentitiesResponse response with
    | none =>
      (upstream, none, .failed agent [requestIdentities] :: effects)
    | some identities => (upstream, some identities, effects)

/-- Every healthy agent is asked for its identities. -/
def enumerateExternal (outcomes : Nat → Outcome) :
    Nat → List ExternalUpstream →
      List ExternalUpstream × List (Nat × List ExternalIdentity) ×
        List (Effect Key)
  | _, [] => ([], [], [])
  | index, upstream :: rest =>
    let others := enumerateExternal outcomes (index + 1) rest
    if !upstream.healthy then
      (upstream :: others.1, others.2.1, others.2.2)
    else
      match requestExternalIdentities index upstream (outcomes index) with
      | (upstream, none, effects) =>
        ({ upstream with healthy := false } :: others.1, others.2.1,
          others.2.2 ++ effects)
      | (upstream, some identities, effects) =>
        (upstream :: others.1, (index, identities) :: others.2.1,
          others.2.2 ++ ((identities.map fun identity =>
            .enumerated (.external index) identity.blob) ++ effects))

def proxyFrame (channel : Channel Key) (index : Nat)
    (upstream : ExternalUpstream) (request : Bytes) (outcome : Outcome) :
    Channel Key × Option Bytes :=
  match exchange index request upstream outcome with
  | (upstream, none, effects) =>
    ({ channel with
        external :=
          channel.external.set index { upstream with healthy := false }
        log := effects ++ channel.log }, none)
  | (upstream, some response, effects) =>
    ({ channel with
        external := channel.external.set index upstream
        log := effects ++ channel.log }, some (frame response))

/-- `None` for a hash that the key does not sign with. -/
def hashAlgorithm (crypto : Crypto Key) (key : Key) (flags : Nat) :
    Option (Option HashAlg) :=
  if crypto.isRsa key then
    if flags = 0 then some none
    else if flags = 2 then some (some .sha256)
    else if flags = 4 then some (some .sha512)
    else none
  else if flags = 0 then some none
  else none

/-- `sign_with_stored_key_at_epoch`; the epoch is read under the lock that is
held during the signature. -/
def signWithStoredKeyAtEpoch (crypto : Crypto Key) (key : Key) (epoch : Nat)
    (request : SignRequest) (current : Nat) :
    Option Bytes × List (Effect Key) :=
  if current ≠ epoch then (some failureFrame, [])
  else
    match hashAlgorithm crypto key request.flags with
    | none => (some failureFrame, [])
    | some hash =>
      match crypto.trySign key hash request.data with
      | none => (none, [])
      | some signature =>
        (some (frame (signResponse :: encodeString signature)),
          [.signed key request.blob epoch current])

section

variable (unix : Bool) (config : SshAgentForwardingConfig)
  (crypto : Crypto Key) {store : KeyStore Key}

def allows (fingerprint : Str) : Bool :=
  match config.policy with
  | .all => true
  | .allowlist fingerprints => fingerprints.contains fingerprint

def hasInternalProvider (identities : List (AgentIdentityRecord Key)) : Bool :=
  identities.any fun identity =>
    match identity.provider with
    | .stored _ _ => true
    | .external _ => false

variable (channel : Channel Key)

def canProxyExternalExtension : Bool :=
  channel.external.length == 1 &&
    !(config.storedKeys || hasInternalProvider channel.identities) &&
    (configuredExternalEndpoints unix config).length == 1

variable (moment : Moment store)

/-- `None` when the keys change meanwhile, or cannot be read. -/
def currentStoredKeys :
    Option (StoredKeySnapshot store) :=
  if !config.storedKeys then
    some ⟨moment.expectedEpoch, [], fun _ h => absurd h List.not_mem_nil⟩
  else
    let fresh := moment.cached.filter fun snapshot =>
      snapshot.epoch == moment.expectedEpoch &&
        moment.expectedEpoch == moment.cachedEpoch
    match fresh with
    | some snapshot => some snapshot
    | none =>
      moment.loaded.filter fun snapshot =>
        snapshot.epoch == moment.loadedEpoch &&
          snapshot.epoch == moment.checkedEpoch

def pushAllowed (collector : IdentityCollector Key) (blob : Bytes)
    (comment : Str) (provider : IdentityProvider Key) : IdentityCollector Key :=
  if allows config (crypto.fingerprint blob) then
    collector.push ⟨blob, comment, crypto.fingerprint blob, provider⟩
  else collector

def collectExternal (collector : IdentityCollector Key) :
    List (Nat × List ExternalIdentity) → IdentityCollector Key
  | [] => collector
  | (index, identities) :: rest =>
    collectExternal (identities.foldl (fun collector identity =>
      pushAllowed config crypto collector identity.blob identity.comment
        (.external index)) collector) rest

def collectStored (collector : IdentityCollector Key)
    (snapshot : StoredKeySnapshot store) : IdentityCollector Key :=
  snapshot.identities.foldl (fun collector identity =>
    pushAllowed config crypto collector identity.blob identity.comment
      (.stored identity.key snapshot.epoch)) collector

def storedEffects (snapshot : StoredKeySnapshot store) : List (Effect Key) :=
  snapshot.identities.map fun identity =>
    .enumerated (.stored identity.key snapshot.epoch) identity.blob

def enumerateIdentities :
    Channel Key × Option (List (AgentIdentityRecord Key)) :=
  let asked := enumerateExternal moment.identities 0 channel.external
  let channel := { channel with
    external := asked.1
    log := asked.2.2 ++ channel.log }
  let collector := collectExternal config crypto .new asked.2.1
  if collector.truncated then (channel, some collector.items)
  else
    match currentStoredKeys config moment with
    | none => (channel, none)
    | some snapshot =>
      ({ channel with log := storedEffects snapshot ++ channel.log },
        some (collectStored config crypto collector snapshot).items)

/-- The identities are enumerated if they have not been. -/
def loadIdentities :
    Option (Channel Key) × Channel Key :=
  if channel.identitiesLoaded then (some channel, channel)
  else
    match enumerateIdentities config crypto channel moment with
    | (channel, none) => (none, channel)
    | (channel, some identities) =>
      let channel := { channel with
        identities := identities
        identitiesLoaded := true }
      (some channel, channel)

def handleSign
    (request : Bytes) (sign : SignRequest) : Channel Key × Option Bytes :=
  let fingerprint := crypto.fingerprint sign.blob
  match channel.identities.find? fun identity => identity.blob == sign.blob with
  | none => (channel, some failureFrame)
  | some identity =>
    if identity.fingerprint ≠ fingerprint || !allows config fingerprint then
      (channel, some failureFrame)
    else if !moment.permit then (channel, some failureFrame)
    else
      match identity.provider with
      | .external index =>
        match channel.external[index]? with
        | none => (channel, some failureFrame)
        | some upstream =>
          if !upstream.healthy then (channel, some failureFrame)
          else proxyFrame channel index upstream request moment.proxied
      | .stored key epoch =>
        let signed := signWithStoredKeyAtEpoch crypto key epoch sign
          moment.signEpoch
        ({ channel with log := signed.2 ++ channel.log }, signed.1)

def handleExtension (request name : Bytes) : Channel Key × Option Bytes :=
  if (name == sessionBindExtension || name == queryExtension) &&
      canProxyExternalExtension unix config channel then
    match channel.external[0]? with
    | none => (channel, some extensionFailureFrame)
    | some upstream =>
      if !upstream.healthy then (channel, some extensionFailureFrame)
      else proxyFrame channel 0 upstream request moment.proxied
  else (channel, some extensionFailureFrame)

/-- `handle_request_with_cache`; `none` is an error. -/
def handleRequest (request : Bytes) : Channel Key × Option Bytes :=
  match request with
  | [] => (channel, none)
  | messageType :: payload =>
    if messageType = requestIdentities then
      if payload ≠ [] then (channel, none)
      else
        match enumerateIdentities config crypto channel moment with
        | (channel, none) => (channel, none)
        | (channel, some identities) =>
          ({ channel with
              identities := identities
              identitiesLoaded := true },
            identitiesFrame (identities.map fun identity =>
              (identity.blob, identity.comment)))
    else if messageType = signRequest then
      match parseSignRequest request with
      | none => (channel, none)
      | some sign =>
        match loadIdentities config crypto channel moment with
        | (none, channel) => (channel, none)
        | (some channel, _) =>
          handleSign config crypto channel moment request sign
    else if messageType = extension then
      match parseExtensionRequest request with
      | none => (channel, none)
      | some name =>
        match loadIdentities config crypto channel moment with
        | (none, channel) => (channel, none)
        | (some channel, _) =>
          handleExtension unix config channel moment request name
    else (channel, some failureFrame)

/-- A frame of the remote side, and what happens while it is handled. -/
structure RemoteFrame (store : KeyStore Key) where
  request : Bytes
  moment : Moment store

/-- One round of the loop of `serve`; a channel whose keys have changed is
closed. -/
def serveFrame (initialEpoch : Nat) (channel : Channel Key)
    (received : RemoteFrame store) : Option (Channel Key) :=
  if config.storedKeys && received.moment.frameEpoch != initialEpoch then none
  else
    let handled := handleRequest unix config crypto channel received.moment
      received.request
    some { handled.1 with
      log := .replied received.request (handled.2.getD failureFrame) ::
        handled.1.log }

/-- The channel as `serve` begins it, with the agents that could be reached. -/
def Channel.opened (upstreams : Nat) : Channel Key where
  external := List.replicate upstreams ⟨true, []⟩
  identities := []
  identitiesLoaded := false
  log := []

def serve (initialEpoch : Nat) (store : KeyStore Key) :
    Transition.System (Channel Key) (RemoteFrame store) where
  init channel := ∃ upstreams, channel = .opened upstreams
  step := serveFrame unix config crypto initialEpoch

end

end NiceTerm.Ssh.Agent
