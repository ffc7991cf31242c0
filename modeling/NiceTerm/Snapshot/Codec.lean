/-
A snapshot as a file: a redb database of its metadata and its entities, packed
as a zip archive.  What encoding writes, and what decoding makes of any bytes.
Snapshots of schema version 2 keep whole documents instead; they are decoded
into the entities of today, and their hash is over the documents.
-/
import NiceTerm.Snapshot.Hash

namespace NiceTerm.Snapshot

open Fallible RustStr JsonText
open Cloud (PortableSnapshot PortableSnapshotKind DecodedPortableSnapshot)

/-- What serde reads from the documents of version 2: a table as a JSON object,
`AppSettings` brought to the settings of a snapshot, and the documents whose
lists sit in a field of their own. -/
structure LegacySerde (V : Entity → Type) where
  tableText : Table → Str
  appSettings : PortableSnapshotKind → Str → Option (V .settings)
  defaultAppSettings : PortableSnapshotKind → V .settings
  historyStore : Str → Option (V .history)
  proxiesConfig : Str → Option (V .proxies)
  tunnelsConfig : Str → Option (V .tunnels)
  masterKeyToken : Option Str → V .masterKeyToken
  knownHosts : Str → V .knownHosts

variable {V : Entity → Type} (S : Serde V) (L : LegacySerde V)

def orJsonError {α : Type} : Option α → Except AppError α
  | some value => .ok value
  | none => .error .json

/-- A document that may be absent. -/
def readDoc {α : Type} (docs : Table) (key : Str) (parse : Str → Option α)
    (absent : α) : Except AppError α :=
  match docs.get key with
  | some raw => orJsonError (parse raw)
  | none => .ok absent

def Serde.parseV2JsonDoc (docs : Table) (key : Str) (entity : Entity) :
    Except AppError (V entity) :=
  readDoc docs key (S.fromText entity) (S.default entity)

def calculateV2PayloadHash (jsonDocs textDocs : Table) : Str :=
  S.digest (objectText [("json_docs".toList, L.tableText jsonDocs),
      ("text_docs".toList, L.tableText textDocs)])

def decodeV2Settings (kind : PortableSnapshotKind) (jsonDocs : Table) :
    Except AppError (V .settings) :=
  match jsonDocs.get "portable-settings".toList with
  | some raw => S.parse .settings raw
  | none => readDoc jsonDocs "settings".toList (L.appSettings kind)
      (L.defaultAppSettings kind)

/-- The reads of `decode_v2_snapshot`, in their order. -/
def readV2Payload (kind : PortableSnapshotKind) (jsonDocs textDocs : Table) :
    Except AppError (Payload V) := do
  let settings ← decodeV2Settings S L kind jsonDocs
  let history ← readDoc jsonDocs "history".toList L.historyStore
    (S.default .history)
  let proxies ← readDoc jsonDocs "proxies".toList L.proxiesConfig
    (S.default .proxies)
  let tunnels ← readDoc jsonDocs "tunnels".toList L.tunnelsConfig
    (S.default .tunnels)
  let proxyGroups ← S.parseV2JsonDoc jsonDocs "proxy-groups".toList .proxyGroups
  let tunnelGroups ←
    S.parseV2JsonDoc jsonDocs "tunnel-groups".toList .tunnelGroups
  let sessions ← S.parseV2JsonDoc jsonDocs "sessions".toList .sessions
  let keys ← S.parseV2JsonDoc jsonDocs "keys".toList .keys
  let passwords ← S.parseV2JsonDoc jsonDocs "passwords".toList .passwords
  let credentials ← S.parseV2JsonDoc jsonDocs "credentials".toList .credentials
  let otp ← S.parseV2JsonDoc jsonDocs "otp".toList .otp
  let quickCommands ←
    S.parseV2JsonDoc jsonDocs "quick-command".toList .quickCommands
  return snapshotFields settings sessions keys passwords credentials otp
    proxies proxyGroups tunnels tunnelGroups quickCommands history
    (L.masterKeyToken (textDocs.get "master.key".toList))
    (L.knownHosts ((textDocs.get "known_hosts".toList).getD []))
    (S.default .notes)

def decodeV2Snapshot (info : PortableSnapshotMeta) (jsonDocs textDocs : Table) :
    Except AppError (DecodedPortableSnapshot (Payload V)) :=
  if calculateV2PayloadHash S L jsonDocs textDocs ≠ info.payloadHash then
    .error payloadHashMismatch
  else do
    let payload ← readV2Payload S L info.snapshotKind jsonDocs textDocs
    return ⟨info.withPayload portableSnapshotSchemaVersion
      (S.calculatePayloadHash payload) payload, info.payloadHash⟩

theorem decodeV2Snapshot_ok {info : PortableSnapshotMeta}
    {jsonDocs textDocs : Table}
    {decoded : DecodedPortableSnapshot (Payload V)}
    (h : decodeV2Snapshot S L info jsonDocs textDocs = .ok decoded) :
    info.payloadHash = calculateV2PayloadHash S L jsonDocs textDocs ∧
      ∃ payload, decoded = ⟨info.withPayload portableSnapshotSchemaVersion
        (S.calculatePayloadHash payload) payload, info.payloadHash⟩ := by
  rw [decodeV2Snapshot] at h
  by_cases hhash : calculateV2PayloadHash S L jsonDocs textDocs =
      info.payloadHash
  · rw [if_neg (not_not_intro hhash), bind_eq_ok] at h
    obtain ⟨payload, -, hdecoded⟩ := h
    exact ⟨hhash.symm, payload, (Except.ok.inj hdecoded).symm⟩
  · rw [if_pos hhash] at h
    cases h

/-- The documents of version 2 and the entities of today never hash alike. -/
theorem v2_hash_ne (hdigest : Function.Injective S.digest)
    (jsonDocs textDocs : Table) (payload : Payload V) :
    calculateV2PayloadHash S L jsonDocs textDocs ≠
      S.calculatePayloadHash payload := by
  intro h
  have hthird := congrArg (fun text : Str => text[2]?) (hdigest h)
  change some 'j' = some 's' at hthird
  exact absurd hthird (by decide)

/-! A snapshot as a file: the database of its metadata and its entities, and
what decoding makes of any bytes. -/

abbrev Bytes := List UInt8

/-- The tables of a snapshot database; none for a table that does not exist. -/
structure Redb where
  snapshotMeta : Option Table := none
  entityDocs : Option Table := none
  jsonDocs : Option Table := none
  textDocs : Option Table := none
deriving Repr, DecidableEq

/-- How a call into redb or zip goes wrong; panics are caught. -/
inductive Fault where
  | error (message : Str)
  | panic
deriving Repr, DecidableEq

/-- A file of an archive: the size its header gives, what the reads of it
return one after another, and how they end if not with its end. -/
structure ZipEntry where
  size : Nat
  reads : List Bytes
  fault : Option Fault
deriving Repr, DecidableEq

/-- The crates redb and zip. -/
structure Container where
  writeRedb : Redb → Bytes
  openRedb : Bytes → Except Fault Redb
  writeZip : List (Str × Bytes) → Bytes
  zipEntry : Bytes → Str → Except Fault ZipEntry

def storageError (message : Str) : AppError :=
  .storage ("Storage error: ".toList ++ message)

def zipError (message : Str) : AppError :=
  .storage ("portable snapshot zip error: ".toList ++ message)

def Fault.ofRedb : Fault → AppError
  | .error message => storageError message
  | .panic => .storage
      "Portable snapshot redb payload is corrupt or incomplete".toList

def Fault.ofZip : Fault → AppError
  | .error message => zipError message
  | .panic => .storage
      "Portable snapshot compressed payload is corrupt or incomplete".toList

def maxCompressedSnapshotPayloadBytes : Nat := 50 * 1024 * 1024

def payloadTooLarge : AppError :=
  zipError ("decompressed snapshot payload exceeds maximum allowed size of ".toList
    ++ Nat.toDigits 10 maxCompressedSnapshotPayloadBytes ++ " bytes".toList)

def snapshotZipManifestName : Str := "manifest.json".toList

def snapshotZipPayloadName : Str := "snapshot.redb".toList

def snapshotMetaKey : Str := "meta".toList

/-- The bytes of an ASCII text. -/
def asciiBytes (text : Str) : Bytes :=
  text.map fun c => UInt8.ofNat c.toNat

def snapshotZipManifest : Bytes :=
  asciiBytes
    "\x7b\"format\":\"niceterm-portable-snapshot-zip\",\"version\":1,\"payload\":\"snapshot.redb\"\x7d".toList

def isZipSnapshotPayload (bytes : Bytes) : Bool :=
  [0x50, 0x4b, 0x03, 0x04].isPrefixOf bytes

variable (C : Container)

/-- The rows `insert_entity` writes. -/
def Serde.entityRows (payload : Payload V) : Table :=
  Entity.all.map fun entity => (entity.key, S.toText entity (payload entity))

/-- The tables `encode_portable_snapshot_redb` writes. -/
def Serde.snapshotTables (snapshot : PortableSnapshot (Payload V)) : Redb :=
  { snapshotMeta := some [(snapshotMetaKey, S.metaText (metaFrom snapshot))]
    entityDocs := some (S.entityRows snapshot.payload) }

def Container.encodeCompressedSnapshotPayload (redbPayload : Bytes) : Bytes :=
  C.writeZip [(snapshotZipManifestName, snapshotZipManifest),
    (snapshotZipPayloadName, redbPayload)]

def encodePortableSnapshot (snapshot : PortableSnapshot (Payload V)) :
    Except AppError Bytes := do
  S.validatePortableSnapshot snapshot
  let redbPayload := C.writeRedb (S.snapshotTables snapshot)
  return C.encodeCompressedSnapshotPayload redbPayload

/-- The loop of `decode_compressed_snapshot_payload`; a read of no bytes is the
end of the file. -/
def readZipPayload (fault : Option Fault) (payload : Bytes) :
    List Bytes → Except AppError Bytes
  | [] =>
    match fault with
    | some fault => .error fault.ofZip
    | none => .ok payload
  | chunk :: rest =>
    if chunk.isEmpty then .ok payload
    else if (payload ++ chunk).length > maxCompressedSnapshotPayloadBytes then
      .error payloadTooLarge
    else readZipPayload fault (payload ++ chunk) rest

variable (bytes : Bytes)

def Container.decodeCompressedSnapshotPayload :
    Except AppError Bytes :=
  match C.zipEntry bytes snapshotZipPayloadName with
  | .error fault => .error fault.ofZip
  | .ok entry =>
    if entry.size > maxCompressedSnapshotPayloadBytes then
      .error payloadTooLarge
    else readZipPayload entry.fault [] entry.reads

/-- The metadata row of `read_portable_snapshot_redb`. -/
def Serde.readMeta (redb : Redb) : Except AppError PortableSnapshotMeta :=
  match redb.snapshotMeta with
  | none => .error (storageError "Table 'snapshot_meta' does not exist".toList)
  | some table =>
    match table.get snapshotMetaKey with
    | none => .error (.config "portable snapshot is missing metadata".toList)
    | some raw => orJsonError (S.metaFromText raw)

def readPortableSnapshotRedb :
    Except AppError (DecodedPortableSnapshot (Payload V)) :=
  match C.openRedb bytes with
  | .error fault => .error fault.ofRedb
  | .ok redb => do
    let info ← S.readMeta redb
    if info.schemaVersion = 2 then
      decodeV2Snapshot S L info (redb.jsonDocs.getD []) (redb.textDocs.getD [])
    else if info.schemaVersion = portableSnapshotSchemaVersion then
      S.decodeV3Snapshot info (redb.entityDocs.getD [])
    else
      .error (.config ("Unsupported portable snapshot version ".toList ++
        Nat.toDigits 10 info.schemaVersion))

def decodePortableSnapshotRedbWithSourceHash :
    Except AppError (DecodedPortableSnapshot (Payload V)) := do
  let decoded ← readPortableSnapshotRedb S L C bytes
  S.validatePortableSnapshot decoded.snapshot
  return decoded

/-- The database in a file; files of old versions are the bare database. -/
def Container.snapshotPayload : Except AppError Bytes :=
  if isZipSnapshotPayload bytes then C.decodeCompressedSnapshotPayload bytes
  else .ok bytes

def decodePortableSnapshotWithSourceHash :
    Except AppError (DecodedPortableSnapshot (Payload V)) := do
  let payload ← C.snapshotPayload bytes
  decodePortableSnapshotRedbWithSourceHash S L C payload

theorem Serde.validate_ok {snapshot : PortableSnapshot (Payload V)} :
    S.validatePortableSnapshot snapshot = .ok () ↔
      snapshot.schemaVersion = portableSnapshotSchemaVersion ∧
        snapshot.payloadHash = S.calculatePayloadHash snapshot.payload := by
  rw [Serde.validatePortableSnapshot]
  by_cases hversion : snapshot.schemaVersion = portableSnapshotSchemaVersion
  · by_cases hhash : S.calculatePayloadHash snapshot.payload =
        snapshot.payloadHash
    · simp [hversion, hhash]
    · simp [hversion, hhash, Ne.symm hhash]
  · simp [hversion]

theorem readPortableSnapshotRedb_v3 {bytes : Bytes} (redb : Redb)
    {info : PortableSnapshotMeta} (hopen : C.openRedb bytes = .ok redb)
    (hmeta : S.readMeta redb = .ok info)
    (hthree : info.schemaVersion = portableSnapshotSchemaVersion) :
    readPortableSnapshotRedb S L C bytes =
      S.decodeV3Snapshot info (redb.entityDocs.getD []) := by
  rw [readPortableSnapshotRedb, hopen]
  simp only [hmeta, ok_bind]
  rw [hthree, if_neg (by decide), if_pos rfl]

theorem decode_ok {bytes : Bytes}
    {decoded : DecodedPortableSnapshot (Payload V)}
    (h : decodePortableSnapshotWithSourceHash S L C bytes = .ok decoded) :
    ∃ payload redb info, C.snapshotPayload bytes = .ok payload ∧
      C.openRedb payload = .ok redb ∧ S.readMeta redb = .ok info ∧
      (info.schemaVersion = 2 ∧
          decodeV2Snapshot S L info (redb.jsonDocs.getD [])
            (redb.textDocs.getD []) = .ok decoded ∨
        info.schemaVersion = portableSnapshotSchemaVersion ∧
          S.decodeV3Snapshot info (redb.entityDocs.getD []) =
            .ok decoded) := by
  rw [decodePortableSnapshotWithSourceHash, bind_eq_ok] at h
  obtain ⟨payload, hpayload, h⟩ := h
  rw [decodePortableSnapshotRedbWithSourceHash, bind_eq_ok] at h
  obtain ⟨found, hread, h⟩ := h
  rw [bind_eq_ok] at h
  obtain ⟨-, -, h⟩ := h
  obtain rfl : found = decoded := Except.ok.inj h
  rw [readPortableSnapshotRedb] at hread
  cases hopen : C.openRedb payload with
  | error fault =>
    rw [hopen] at hread
    cases hread
  | ok redb =>
    rw [hopen] at hread
    obtain ⟨info, hmeta, hread⟩ := bind_eq_ok.mp hread
    refine ⟨payload, redb, info, hpayload, hopen, hmeta, ?_⟩
    by_cases htwo : info.schemaVersion = 2
    · rw [if_pos htwo] at hread
      exact .inl ⟨htwo, hread⟩
    · rw [if_neg htwo] at hread
      by_cases hthree : info.schemaVersion = portableSnapshotSchemaVersion
      · rw [if_pos hthree] at hread
        exact .inr ⟨hthree, hread⟩
      · rw [if_neg hthree] at hread
        cases hread

/-- The reads of a file that ends well put its bytes together. -/
theorem readZipPayload_flatten {payload : Bytes} {reads : List Bytes}
    (hreads : [] ∉ reads)
    (hsize : (payload ++ reads.flatten).length ≤
      maxCompressedSnapshotPayloadBytes) :
    readZipPayload none payload reads = .ok (payload ++ reads.flatten) := by
  induction reads generalizing payload with
  | nil => simp [readZipPayload]
  | cons chunk rest ih =>
    simp only [List.mem_cons, not_or] at hreads
    have hchunk : chunk.isEmpty = false := by
      simpa using Ne.symm hreads.1
    rw [List.flatten_cons, ← List.append_assoc] at hsize ⊢
    have hfits : ¬ (payload ++ chunk).length >
        maxCompressedSnapshotPayloadBytes := by
      rw [List.length_append] at hsize
      omega
    rw [readZipPayload, hchunk, if_neg hfits]
    exact ih hreads.2 hsize

/-- The archive gives back the payload that was put into it. -/
structure Container.StoresZip (redbPayload : Bytes) : Prop where
  header : isZipSnapshotPayload
    (C.encodeCompressedSnapshotPayload redbPayload) = true
  entry : ∃ entry, C.zipEntry (C.encodeCompressedSnapshotPayload redbPayload)
      snapshotZipPayloadName = .ok entry ∧
    entry.size = redbPayload.length ∧ entry.reads.flatten = redbPayload ∧
      [] ∉ entry.reads ∧ entry.fault = none

theorem Container.decodeCompressed_encoded {redbPayload : Bytes}
    (hstores : C.StoresZip redbPayload) :
    C.decodeCompressedSnapshotPayload
        (C.encodeCompressedSnapshotPayload redbPayload) =
      if redbPayload.length > maxCompressedSnapshotPayloadBytes then
        .error payloadTooLarge
      else .ok redbPayload := by
  obtain ⟨entry, hentry, hsize, hreads, hnonempty, hfault⟩ := hstores.entry
  rw [Container.decodeCompressedSnapshotPayload, hentry]
  simp only [hsize]
  by_cases hlarge : redbPayload.length > maxCompressedSnapshotPayloadBytes
  · rw [if_pos hlarge, if_pos hlarge]
  · rw [if_neg hlarge, if_neg hlarge, hfault, readZipPayload_flatten hnonempty
      (by rw [hreads]; simpa using hlarge), hreads]
    rfl

end NiceTerm.Snapshot
