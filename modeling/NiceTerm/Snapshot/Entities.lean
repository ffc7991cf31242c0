/-
The entities of a portable snapshot and the tables they are stored in.  Every
entity is one row: its key, and the JSON text of its value.
-/
import NiceTerm.Cloud.Remote
import NiceTerm.Lib.JsonText

namespace NiceTerm.Snapshot

open RustStr JsonText
open Cloud (PortableSnapshot PortableSnapshotKind DecodedPortableSnapshot)

/-- The fields of `PortableSnapshot` behind its metadata, in their order. -/
inductive Entity where
  | settings
  | sessions
  | keys
  | passwords
  | credentials
  | otp
  | proxies
  | proxyGroups
  | tunnels
  | tunnelGroups
  | quickCommands
  | history
  | masterKeyToken
  | knownHosts
  | notes
deriving Repr, DecidableEq

def Entity.key : Entity → Str
  | .settings => "settings".toList
  | .sessions => "sessions".toList
  | .keys => "keys".toList
  | .passwords => "passwords".toList
  | .credentials => "credentials".toList
  | .otp => "otp".toList
  | .proxies => "proxies".toList
  | .proxyGroups => "proxy_groups".toList
  | .tunnels => "tunnels".toList
  | .tunnelGroups => "tunnel_groups".toList
  | .quickCommands => "quick_commands".toList
  | .history => "history".toList
  | .masterKeyToken => "master_key_token".toList
  | .knownHosts => "known_hosts".toList
  | .notes => "notes".toList

/-- The fields of `SnapshotHashInput` and of `SnapshotRawHashInputWithNotes`. -/
def Entity.all : List Entity :=
  [.settings, .sessions, .keys, .passwords, .credentials, .otp, .proxies,
    .proxyGroups, .tunnels, .tunnelGroups, .quickCommands, .history,
    .masterKeyToken, .knownHosts, .notes]

theorem Entity.mem_all (entity : Entity) : entity ∈ Entity.all := by
  cases entity <;> decide

variable {entity : Entity}

theorem Entity.key_inj {other : Entity} (h : entity.key = other.key) :
    entity = other := by
  have hall : ∀ x ∈ Entity.all, ∀ y ∈ Entity.all, x.key = y.key → x = y := by
    decide
  exact hall entity entity.mem_all other other.mem_all h

theorem Entity.key_plain (entity : Entity) : '"' ∉ entity.key := by
  cases entity <;> decide

/-- The values of a snapshot; `V` gives the type of each entity. -/
abbrev Payload (V : Entity → Type) : Type := ∀ entity, V entity

/-- A redb table of strings, as `read_string_table` collects it. -/
abbrev Table := List (Str × Str)

def Table.get (table : Table) (key : Str) : Option Str :=
  table.lookup key

def Table.containsKey (table : Table) (key : Str) : Bool :=
  (table.get key).isSome

/-- A table of one row per entity. -/
theorem Table.get_rows {order : List Entity} {text : Entity → Str}
    (h : entity ∈ order) :
    Table.get (order.map fun other => (other.key, text other)) entity.key =
      some (text entity) := by
  induction order with
  | nil => simp at h
  | cons first rest ih =>
    by_cases hfirst : entity = first
    · subst hfirst
      simp [Table.get]
    · have hkey : (entity.key == first.key) = false := by
        simpa using fun hkey => hfirst (Entity.key_inj hkey)
      have hrest : entity ∈ rest := by simpa [hfirst] using h
      simpa [Table.get, List.lookup_cons, hkey] using ih hrest

inductive AppError where
  | json
  | config (message : Str)
  | crypto (message : Str)
  | storage (message : Str)
deriving Repr, DecidableEq

structure PortableSnapshotMeta where
  schemaVersion : Nat
  snapshotKind : PortableSnapshotKind
  revisionId : Str
  deviceId : Str
  createdAtMs : Nat
  payloadHash : Str
  appVersion : Str
deriving Repr, DecidableEq

/-- serde at the types of the entities: the text `serde_json` writes for a
value, what it reads from a text, the `Default` of each type, and the text that
a `RawValue` keeps.  `digest` is the hex form of SHA-256. -/
structure Serde (V : Entity → Type) where
  toText : ∀ entity, V entity → Str
  fromText : ∀ entity, Str → Option (V entity)
  default : ∀ entity, V entity
  rawValue : Str → Option Str
  metaText : PortableSnapshotMeta → Str
  metaFromText : Str → Option PortableSnapshotMeta
  digest : Str → Str

variable {V : Entity → Type}

/-- `PortableSnapshotMeta::from` -/
def metaFrom (snapshot : PortableSnapshot (Payload V)) : PortableSnapshotMeta :=
  { schemaVersion := snapshot.schemaVersion
    snapshotKind := snapshot.snapshotKind
    revisionId := snapshot.revisionId
    deviceId := snapshot.deviceId
    createdAtMs := snapshot.createdAtMs
    payloadHash := snapshot.payloadHash
    appVersion := snapshot.appVersion }

/-- The snapshot that `decode_v3_snapshot` and `decode_v2_snapshot` put
together. -/
def PortableSnapshotMeta.withPayload (info : PortableSnapshotMeta)
    (schemaVersion : Nat) (payloadHash : Str) (payload : Payload V) :
    PortableSnapshot (Payload V) :=
  { schemaVersion := schemaVersion
    snapshotKind := info.snapshotKind
    revisionId := info.revisionId
    deviceId := info.deviceId
    createdAtMs := info.createdAtMs
    payloadHash := payloadHash
    appVersion := info.appVersion
    payload := payload }

def missingEntity (entity : Entity) : AppError :=
  .config ("portable snapshot missing entity '".toList ++ entity.key ++ ['\''])

variable (S : Serde V)

/-- `serde_json::from_str` at the type of an entity. -/
def Serde.parse (entity : Entity) (raw : Str) : Except AppError (V entity) :=
  match S.fromText entity raw with
  | some value => .ok value
  | none => .error .json

def Serde.readEntity (entities : Table) (entity : Entity) :
    Except AppError (V entity) :=
  match entities.get entity.key with
  | none => .error (missingEntity entity)
  | some raw => S.parse entity raw

def Serde.readRawEntity (entities : Table) (entity : Entity) :
    Except AppError Str :=
  match entities.get entity.key with
  | none => .error (missingEntity entity)
  | some raw =>
    match S.rawValue raw with
    | some text => .ok text
    | none => .error .json

def Serde.readEntityOrDefault (entities : Table) (entity : Entity) :
    Except AppError (V entity) :=
  match entities.get entity.key with
  | none => .ok (S.default entity)
  | some raw => S.parse entity raw

/-- Only the settings have to be there. -/
def Serde.readField (entities : Table) (entity : Entity) :
    Except AppError (V entity) :=
  if entity = .settings then S.readEntity entities entity
  else S.readEntityOrDefault entities entity

/-- The text that is kept for a key is the text that its value is read from. -/
def Serde.KeepsValue : Prop :=
  ∀ raw text, S.rawValue raw = some text → SelfDelimiting text ∧
      ∀ entity, S.fromText entity raw = S.fromText entity text

variable {entities : Table}

theorem Serde.readRawEntity_ok {text : Str} :
    S.readRawEntity entities entity = .ok text ↔
      ∃ raw, entities.get entity.key = some raw ∧ S.rawValue raw = some text := by
  rw [Serde.readRawEntity]
  split
  · next hget => simp [hget]
  · next raw hget =>
      split
      · next kept hkept => simp [hget, hkept]
      · next hkept => simp [hget, hkept]

theorem Serde.readField_of_get {raw : Str}
    (h : entities.get entity.key = some raw) :
    S.readField entities entity = S.parse entity raw := by
  simp [Serde.readField, Serde.readEntity, Serde.readEntityOrDefault, h]

theorem Serde.readField_absent
    (h : entities.get entity.key = none) (hsettings : entity ≠ .settings) :
    S.readField entities entity = .ok (S.default entity) := by
  simp [Serde.readField, Serde.readEntityOrDefault, h, hsettings]

/-- A field is read from the text that its hash is taken of. -/
theorem Serde.readField_of_raw (hkeeps : S.KeepsValue) {text : Str}
    (h : S.readRawEntity entities entity = .ok text) :
    S.readField entities entity = S.parse entity text := by
  obtain ⟨raw, hget, hraw⟩ := S.readRawEntity_ok.mp h
  rw [S.readField_of_get hget, Serde.parse, Serde.parse,
    (hkeeps raw text hraw).2]

end NiceTerm.Snapshot
