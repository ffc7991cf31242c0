/-
Encoding a snapshot and decoding the file again.  The hash taken of the values
and the hash taken of the rows are over one text, so the hashes agree; the only
bound is the one on the unpacked database.
-/
import NiceTerm.Snapshot.Codec
import NiceTerm.Snapshot.Binding

namespace NiceTerm.Snapshot

open Fallible JsonText List RustStr
open Cloud (PortableSnapshot PortableSnapshotKind DecodedPortableSnapshot)

variable {V : Entity → Type} (S : Serde V) (L : LegacySerde V) (C : Container)

/-- serde reads the texts of this snapshot back; `back` is what it makes of
the entities, and it is written as they are. -/
structure Serde.Stores (snapshot : PortableSnapshot (Payload V))
    (back : Payload V) : Prop where
  info : S.metaFromText (S.metaText (metaFrom snapshot)) =
    some (metaFrom snapshot)
  raw : ∀ entity, S.rawValue (S.toText entity (snapshot.payload entity)) =
    some (S.toText entity (snapshot.payload entity))
  value : ∀ entity, S.fromText entity
    (S.toText entity (snapshot.payload entity)) = some (back entity)
  again : ∀ entity, S.toText entity (back entity) =
    S.toText entity (snapshot.payload entity)

theorem Serde.entityRows_get (payload : Payload V) (entity : Entity) :
    (S.entityRows payload).get entity.key =
      some (S.toText entity (payload entity)) :=
  Table.get_rows entity.mem_all

theorem Serde.entityRows_shape (payload : Payload V) :
    hashedShape (S.entityRows payload) = Entity.all := by
  rw [hashedShape_of_groups, if_pos]
  · rw [Table.containsKey, S.entityRows_get payload .notes]
    rfl
  · exact .inl (by
      rw [Table.containsKey, S.entityRows_get payload .proxyGroups]
      rfl)

theorem Serde.raw_hash_of_rows {payload : Payload V}
    (hraw : ∀ entity, S.rawValue (S.toText entity (payload entity)) =
      some (S.toText entity (payload entity))) :
    S.calculateV3RawPayloadHash (S.entityRows payload) =
      .ok (S.calculatePayloadHash payload) := by
  rw [S.calculateV3RawPayloadHash_total
    (fun entity => S.toText entity (payload entity)), S.entityRows_shape]
  · rfl
  · intro entity _
    exact S.readRawEntity_ok.mpr
      ⟨_, S.entityRows_get payload entity, hraw entity⟩

variable {back : Payload V} {snapshot : PortableSnapshot (Payload V)}

theorem Serde.calculatePayloadHash_again (hstores : S.Stores snapshot back) :
    S.calculatePayloadHash back = S.calculatePayloadHash snapshot.payload := by
  rw [Serde.calculatePayloadHash, Serde.calculatePayloadHash,
    hashInput_congr fun entity _ => hstores.again entity]

theorem decode_tables (hvalid : S.validatePortableSnapshot snapshot = .ok ())
    (hstores : S.Stores snapshot back) {bytes : Bytes}
    (hopen : C.openRedb bytes = .ok (S.snapshotTables snapshot)) :
    decodePortableSnapshotRedbWithSourceHash S L C bytes =
      .ok ⟨{ snapshot with payload := back }, snapshot.payloadHash⟩ := by
  obtain ⟨hversion, hhash⟩ := S.validate_ok.mp hvalid
  have hagain := S.calculatePayloadHash_again hstores
  have hmeta : S.readMeta (S.snapshotTables snapshot) =
      .ok (metaFrom snapshot) := by
    simp [Serde.readMeta, Serde.snapshotTables, Table.get, hstores.info,
      orJsonError]
  have hdecode : S.decodeV3Snapshot (metaFrom snapshot)
      (S.entityRows snapshot.payload) =
        .ok (S.decodedFrom (metaFrom snapshot) back) := by
    apply S.decodeV3Snapshot_ok.mpr
    refine ⟨?_, back, fun entity => ?_, rfl⟩
    · rw [S.raw_hash_of_rows hstores.raw]
      exact congrArg Except.ok hhash.symm
    · rw [S.readField_of_get (S.entityRows_get _ entity), Serde.parse,
        hstores.value entity]
  have hdecoded : S.decodedFrom (metaFrom snapshot) back =
      ⟨{ snapshot with payload := back }, snapshot.payloadHash⟩ := by
    rw [Serde.decodedFrom, hagain, ← hhash]
    rfl
  have hread : readPortableSnapshotRedb S L C bytes =
      .ok ⟨{ snapshot with payload := back }, snapshot.payloadHash⟩ := by
    rw [readPortableSnapshotRedb_v3 S L C _ hopen hmeta hversion, ← hdecoded,
      ← hdecode]
    rfl
  have hvalidBack : S.validatePortableSnapshot
      { snapshot with payload := back } = .ok () :=
    S.validate_ok.mpr ⟨hversion, hhash.trans hagain.symm⟩
  rw [decodePortableSnapshotRedbWithSourceHash, hread, ok_bind, hvalidBack,
    ok_bind]
  rfl

theorem decode_encoded
    (hvalid : S.validatePortableSnapshot snapshot = .ok ())
    (hstores : S.Stores snapshot back)
    (hredb : C.openRedb (C.writeRedb (S.snapshotTables snapshot)) =
      .ok (S.snapshotTables snapshot))
    (hzip : C.StoresZip (C.writeRedb (S.snapshotTables snapshot))) :
    decodePortableSnapshotWithSourceHash S L C
        (C.encodeCompressedSnapshotPayload
          (C.writeRedb (S.snapshotTables snapshot))) =
      if (C.writeRedb (S.snapshotTables snapshot)).length >
          maxCompressedSnapshotPayloadBytes then .error payloadTooLarge
      else .ok ⟨{ snapshot with payload := back }, snapshot.payloadHash⟩ := by
  rw [decodePortableSnapshotWithSourceHash, Container.snapshotPayload,
    if_pos hzip.header, C.decodeCompressed_encoded hzip]
  split
  · rfl
  · exact decode_tables S L C hvalid hstores hredb

/-- A valid snapshot is encoded, its rows have the hash of its values, and
decoding the file gives the snapshot back if the database in it is not over the
bound. -/
theorem decode_encode {snapshot : PortableSnapshot (Payload V)}
    (hvalid : S.validatePortableSnapshot snapshot = .ok ())
    (hstores : S.Stores snapshot snapshot.payload)
    (hredb : C.openRedb (C.writeRedb (S.snapshotTables snapshot)) =
      .ok (S.snapshotTables snapshot))
    (hzip : C.StoresZip (C.writeRedb (S.snapshotTables snapshot))) :
    S.calculateV3RawPayloadHash (S.entityRows snapshot.payload) =
        .ok (S.calculatePayloadHash snapshot.payload) ∧
      ∃ bytes, encodePortableSnapshot S C snapshot = .ok bytes ∧
        decodePortableSnapshotWithSourceHash S L C bytes =
          if (C.writeRedb (S.snapshotTables snapshot)).length >
              maxCompressedSnapshotPayloadBytes then .error payloadTooLarge
          else .ok ⟨snapshot, snapshot.payloadHash⟩ := by
  refine ⟨S.raw_hash_of_rows hstores.raw, C.encodeCompressedSnapshotPayload
      (C.writeRedb (S.snapshotTables snapshot)), ?_,
    decode_encoded S L C hvalid hstores hredb hzip⟩
  rw [encodePortableSnapshot, hvalid]
  rfl

/-- A database as long as the texts in it, which opens to the given tables; the
archive keeps it uncompressed. -/
def imageContainer (redb : Redb) : Container :=
  { writeRedb := fun tables =>
      replicate ((tables.entityDocs.getD []).flatMap Prod.snd).length 0
    openRedb := fun _ => .ok redb
    writeZip := fun files => [0x50, 0x4b, 0x03, 0x04] ++
      (files.lookup snapshotZipPayloadName).getD []
    zipEntry := fun bytes name =>
      if name = snapshotZipPayloadName then
        .ok ⟨bytes.length - 4,
          if (bytes.drop 4).isEmpty then [] else [bytes.drop 4], none⟩
      else .error (.error "specified file not found in archive".toList) }

theorem imageContainer_storesZip (redb : Redb) (redbPayload : Bytes) :
    (imageContainer redb).StoresZip redbPayload where
  header := rfl
  entry := by
    refine ⟨⟨redbPayload.length,
      if redbPayload.isEmpty then [] else [redbPayload], none⟩, rfl, rfl, ?_⟩
    cases redbPayload <;> simp

def textLegacySerde : LegacySerde fun _ => ValueText :=
  { tableText := fun docs => docs.flatMap Prod.snd
    appSettings := fun _ raw => ValueText.read raw
    defaultAppSettings := fun _ => emptyList
    historyStore := ValueText.read
    proxiesConfig := ValueText.read
    tunnelsConfig := ValueText.read
    masterKeyToken := fun _ => emptyList
    knownHosts := fun _ => emptyList }

/-- The snapshot of the given texts. -/
def textSnapshot (payload : Payload fun _ => ValueText) :
    PortableSnapshot (Payload fun _ => ValueText) :=
  { schemaVersion := 3
    snapshotKind := .sync
    revisionId := "0b6f2a52-6a52-4c1e-9f0e-2f6f1f0c7d11".toList
    deviceId := "laptop".toList
    createdAtMs := 1
    payloadHash := hashInput Entity.all fun entity => (payload entity).1
    appVersion := "1.0.0".toList
    payload := payload }

/-- A device that stores this snapshot and reads it back. -/
def serdeOf (payload : Payload fun _ => ValueText) : Serde fun _ => ValueText :=
  textSerde (metaFrom (textSnapshot payload))

def containerOf (payload : Payload fun _ => ValueText) : Container :=
  imageContainer ((serdeOf payload).snapshotTables (textSnapshot payload))

theorem serdeOf_valid (payload : Payload fun _ => ValueText) :
    (serdeOf payload).validatePortableSnapshot (textSnapshot payload) =
      .ok () :=
  (Serde.validate_ok _).mpr ⟨rfl, rfl⟩

theorem serdeOf_stores (payload : Payload fun _ => ValueText) :
    (serdeOf payload).Stores (textSnapshot payload) payload :=
  { info := rfl
    raw := fun entity => textSerde_rawValue _ (payload entity)
    value := fun entity => (payload entity).read_text
    again := fun _ => rfl }

theorem containerOf_length (payload : Payload fun _ => ValueText) :
    ((containerOf payload).writeRedb
      ((serdeOf payload).snapshotTables (textSnapshot payload))).length =
        (Entity.all.flatMap fun entity => (payload entity).1).length := by
  have hrows : ((serdeOf payload).snapshotTables
      (textSnapshot payload)).entityDocs =
        some (Entity.all.map fun entity =>
          (entity.key, (payload entity).1)) := rfl
  change (replicate _ _).length = _
  rw [length_replicate, hrows, Option.getD_some, flatMap_map]

/-- One session and one note are far below the bound. -/
theorem desk_fits : ¬ ((containerOf deskPayload).writeRedb
    ((serdeOf deskPayload).snapshotTables
      (textSnapshot deskPayload))).length >
        maxCompressedSnapshotPayloadBytes := by
  have hlength : (Entity.all.flatMap fun entity =>
      (deskPayload entity).1).length = 84 := rfl
  rw [containerOf_length, hlength, maxCompressedSnapshotPayloadBytes]
  omega

theorem decode_encode_desk : ∃ bytes,
    encodePortableSnapshot (serdeOf deskPayload) (containerOf deskPayload)
        (textSnapshot deskPayload) = .ok bytes ∧
      decodePortableSnapshotWithSourceHash (serdeOf deskPayload)
        textLegacySerde (containerOf deskPayload) bytes =
          .ok ⟨textSnapshot deskPayload,
            hashInput Entity.all fun entity => (deskPayload entity).1⟩ := by
  obtain ⟨-, bytes, hencode, hdecode⟩ := decode_encode (serdeOf deskPayload)
    textLegacySerde (containerOf deskPayload) (serdeOf_valid _)
    (serdeOf_stores _) rfl (imageContainer_storesZip _ _)
  rw [if_neg desk_fits] at hdecode
  exact ⟨bytes, hencode, hdecode⟩

theorem run_replicate_in_string (n : Nat) (rest : Text) :
    (Scan.mk 0 .inString).run (replicate n 'a' ++ rest) =
      (Scan.mk 0 .inString).run rest := by
  induction n with
  | zero => rfl
  | succ n ih => exact ih

/-- A text of `n` characters in quotes. -/
def quoted (n : Nat) : ValueText :=
  ⟨'"' :: (replicate n 'a' ++ ['"']), run_replicate_in_string n ['"']⟩

/-- A snapshot whose known hosts are `n` characters long. -/
def longHosts (n : Nat) : Payload fun _ => ValueText := fun entity =>
  if entity = .knownHosts then quoted n else emptyList

theorem longHosts_length (n : Nat) :
    n ≤ (Entity.all.flatMap fun entity => (longHosts n entity).1).length := by
  have hsublist := (sublist_flatten_of_mem
    (mem_map_of_mem (f := fun entity => (longHosts n entity).1)
      Entity.knownHosts.mem_all)).length_le
  rw [← flatMap_def] at hsublist
  refine Nat.le_trans ?_ hsublist
  simp only [longHosts, quoted, if_pos, length_cons, length_append,
    length_replicate]
  omega

/-- A valid snapshot with known hosts over the bound is written, and what was
written is refused. -/
theorem long_known_hosts_refused : ∃ snapshot bytes,
    (serdeOf snapshot.payload).validatePortableSnapshot snapshot = .ok () ∧
      (serdeOf snapshot.payload).Stores snapshot snapshot.payload ∧
      encodePortableSnapshot (serdeOf snapshot.payload)
        (containerOf snapshot.payload) snapshot = .ok bytes ∧
      decodePortableSnapshotWithSourceHash (serdeOf snapshot.payload)
        textLegacySerde (containerOf snapshot.payload) bytes =
          .error payloadTooLarge := by
  have hvalid := serdeOf_valid
    (longHosts (maxCompressedSnapshotPayloadBytes + 1))
  have hstores := serdeOf_stores
    (longHosts (maxCompressedSnapshotPayloadBytes + 1))
  have hdecode := decode_encoded _ textLegacySerde (containerOf _) hvalid
    hstores rfl (imageContainer_storesZip _ _)
  rw [if_pos (by
    rw [containerOf_length]
    exact longHosts_length _)] at hdecode
  refine ⟨textSnapshot _, _, hvalid, hstores, ?_, hdecode⟩
  rw [encodePortableSnapshot]
  exact congrArg (· >>= _) hvalid

end NiceTerm.Snapshot
