/-
A remote with only the stable snapshot file.  Its head is taken from the
decoded snapshot, whose hash is computed anew; the snapshot is then compared by
the hash that stands in the file.
-/
import NiceTerm.Snapshot.RoundTrip

namespace NiceTerm.Snapshot

open Fallible RustStr JsonText
open Cloud

variable {V : Entity → Type} (S : Serde V) (L : LegacySerde V) (C : Container)

/-- A remote file as cloud sync reads it: `decrypt` is `decrypt_snapshot_bytes`
with the master password of the device. -/
def remoteObject (decrypt : Bytes → Option Bytes) (raw : Bytes) :
    RemoteObject (Payload V) :=
  match decrypt raw with
  | none => .damaged
  | some bytes =>
    match decodePortableSnapshotWithSourceHash S L C bytes with
    | .ok decoded => .encoded raw.length decoded
    | .error _ => .damaged

def stableOnly {Payload : Type} (object : RemoteObject Payload) :
    Remote Payload
  | .snapshot => some object
  | _ => none

/-- The row of an entity holds what serde writes today for the value it
reads from it. -/
def Serde.WrittenAsToday (entities : Table) (entity : Entity) : Prop :=
  ∃ raw value, entities.get entity.key = some raw ∧ S.fromText entity raw =
    some value ∧ S.rawValue raw = some (S.toText entity value)

/-- The database of version 3 that this version of the program would write. -/
def Serde.CurrentShape (bytes : Bytes) : Prop :=
  ∃ payload redb info, C.snapshotPayload bytes = .ok payload ∧
    C.openRedb payload = .ok redb ∧ S.readMeta redb = .ok info ∧
    info.schemaVersion = portableSnapshotSchemaVersion ∧
    ∀ entity, S.WrittenAsToday (redb.entityDocs.getD []) entity

/-- serde writes the text of one value. -/
def Serde.WritesValues : Prop :=
  ∀ entity value, SelfDelimiting (S.toText entity value)

theorem Serde.normalized_hash_v3 (hdigest : Function.Injective S.digest)
    (hkeeps : S.KeepsValue) (hwrites : S.WritesValues)
    {info : PortableSnapshotMeta} {entities : Table}
    {decoded : DecodedPortableSnapshot (Payload V)}
    (h : S.decodeV3Snapshot info entities = .ok decoded) :
    decoded.sourcePayloadHash = decoded.snapshot.payloadHash ↔
      ∀ entity, S.WrittenAsToday entities entity := by
  obtain ⟨hraw, payload, hread, rfl⟩ := S.decodeV3Snapshot_ok.mp h
  change info.payloadHash = S.calculatePayloadHash payload ↔ _
  constructor
  · intro hsame entity
    obtain ⟨text, htext, heq⟩ := S.calculateV3RawPayloadHash_ok hraw
    have hself : ∀ other ∈ hashedShape entities,
        SelfDelimiting (text other) := by
      intro other hmem
      obtain ⟨raw, -, hkept⟩ := S.readRawEntity_ok.mp (htext other hmem)
      exact (hkeeps raw _ hkept).1
    obtain ⟨hshape, hvalues⟩ := hashInput_inj hself
      (fun other _ => hwrites other (payload other))
      (hdigest (heq.symm.trans hsame))
    have hmem : entity ∈ hashedShape entities := hshape ▸ entity.mem_all
    obtain ⟨raw, hget, hkept⟩ := S.readRawEntity_ok.mp (htext entity hmem)
    have hvalue := hread entity
    rw [S.readField_of_get hget, Serde.parse] at hvalue
    split at hvalue
    · next value hfrom =>
        obtain rfl := Except.ok.inj hvalue
        exact ⟨raw, _, hget, hfrom, hkept.trans
          (congrArg some (hvalues entity hmem))⟩
    · cases hvalue
  · intro hwritten
    have hrow : ∀ entity, S.readRawEntity entities entity =
        .ok (S.toText entity (payload entity)) := by
      intro entity
      obtain ⟨raw, value, hget, hfrom, hkept⟩ := hwritten entity
      have hvalue := hread entity
      rw [S.readField_of_get hget, Serde.parse, hfrom] at hvalue
      obtain rfl := Except.ok.inj hvalue
      exact S.readRawEntity_ok.mpr ⟨raw, hget, hkept⟩
    have hkey : ∀ entity : Entity, entities.containsKey entity.key = true := by
      intro entity
      obtain ⟨raw, value, hget, -⟩ := hwritten entity
      rw [Table.containsKey, hget]
      rfl
    have hshape : hashedShape entities = Entity.all := by
      rw [hashedShape_of_groups (.inl (hkey .proxyGroups)),
        if_pos (hkey .notes)]
    rw [S.calculateV3RawPayloadHash_total _ (fun entity _ => hrow entity),
      hshape] at hraw
    exact (Except.ok.inj hraw).symm

/-- The hash in the file is the hash of the decoded snapshot if and only if
the file is as this version writes it. -/
theorem Serde.normalized_hash_iff (hdigest : Function.Injective S.digest)
    (hkeeps : S.KeepsValue) (hwrites : S.WritesValues) {bytes : Bytes}
    {decoded : DecodedPortableSnapshot (Payload V)}
    (h : decodePortableSnapshotWithSourceHash S L C bytes = .ok decoded) :
    decoded.sourcePayloadHash = decoded.snapshot.payloadHash ↔
      S.CurrentShape C bytes := by
  obtain ⟨payload, redb, info, hpayload, hopen, hmeta, hversion⟩ :=
    decode_ok S L C h
  rcases hversion with ⟨htwo, hdecode⟩ | ⟨hthree, hdecode⟩
  · obtain ⟨hhash, values, rfl⟩ := decodeV2Snapshot_ok S L hdecode
    constructor
    · intro hsame
      exact absurd (hhash.symm.trans hsame) (v2_hash_ne S L hdigest _ _ values)
    · rintro ⟨payload', redb', info', hpayload', hopen', hmeta', hthree, -⟩
      obtain rfl := Except.ok.inj (hpayload.symm.trans hpayload')
      obtain rfl := Except.ok.inj (hopen.symm.trans hopen')
      obtain rfl := Except.ok.inj (hmeta.symm.trans hmeta')
      exact absurd (htwo.symm.trans hthree) (by decide)
  · rw [S.normalized_hash_v3 hdigest hkeeps hwrites hdecode]
    constructor
    · intro hwritten
      exact ⟨payload, redb, info, hpayload, hopen, hmeta, hthree, hwritten⟩
    · rintro ⟨payload', redb', info', hpayload', hopen', -, -, hwritten⟩
      obtain rfl := Except.ok.inj (hpayload.symm.trans hpayload')
      obtain rfl := Except.ok.inj (hopen.symm.trans hopen')
      exact hwritten

/-- What encoding writes has the current shape. -/
theorem Serde.currentShape_encoded {snapshot : PortableSnapshot (Payload V)}
    (hvalid : S.validatePortableSnapshot snapshot = .ok ())
    (hstores : S.Stores snapshot snapshot.payload)
    (hredb : C.openRedb (C.writeRedb (S.snapshotTables snapshot)) =
      .ok (S.snapshotTables snapshot))
    (hzip : C.StoresZip (C.writeRedb (S.snapshotTables snapshot)))
    (hsize : ¬ (C.writeRedb (S.snapshotTables snapshot)).length >
      maxCompressedSnapshotPayloadBytes) :
    S.CurrentShape C (C.encodeCompressedSnapshotPayload
      (C.writeRedb (S.snapshotTables snapshot))) := by
  refine ⟨C.writeRedb (S.snapshotTables snapshot), S.snapshotTables snapshot,
    metaFrom snapshot, ?_, hredb, ?_, (S.validate_ok.mp hvalid).1,
    fun entity => ?_⟩
  · rw [Container.snapshotPayload, if_pos hzip.header,
      C.decodeCompressed_encoded hzip, if_neg hsize]
  · simp [Serde.readMeta, Serde.snapshotTables, Table.get, hstores.info,
      orJsonError]
  · exact ⟨_, _, S.entityRows_get snapshot.payload entity,
      hstores.value entity, hstores.raw entity⟩

/-- The stable file resolves to its snapshot if and only if the revision is a
UUID, the size is in bounds and the file is as this version writes it. -/
theorem stable_file_resolves_iff {Content : Type}
    (P : Portable Content (Payload V)) (decrypt : Bytes → Option Bytes)
    (hdigest : Function.Injective S.digest) (hkeeps : S.KeepsValue)
    (hwrites : S.WritesValues) {raw bytes : Bytes}
    {decoded : DecodedPortableSnapshot (Payload V)}
    (hdecrypt : decrypt raw = some bytes)
    (hdecode : decodePortableSnapshotWithSourceHash S L C bytes = .ok decoded) :
    (∃ pointer, loadSyncPointer (stableOnly (remoteObject S L C decrypt raw)) =
        .ok (some pointer) ∧
      (P.resolveRemoteSnapshot true
        (stableOnly (remoteObject S L C decrypt raw)) pointer).1 =
          .ok (.current decoded.snapshot)) ↔
      P.isUuid decoded.snapshot.revisionId = true ∧
        minEncryptedSnapshotBytes ≤ raw.length ∧
        raw.length ≤ maxEncryptedSnapshotBytes ∧ S.CurrentShape C bytes := by
  have hobject : remoteObject S L C decrypt raw =
      .encoded raw.length decoded := by
    simp only [remoteObject, hdecrypt, hdecode]
  rw [hobject, ← S.normalized_hash_iff L C hdigest hkeeps hwrites hdecode]
  have hload : loadSyncPointer (stableOnly (.encoded raw.length decoded)) =
      .ok (some (pointerFromSnapshot decoded.snapshot)) := rfl
  have hpointer : ∀ result : RemoteSyncPointer → Prop,
      (∃ pointer, loadSyncPointer
        (stableOnly (.encoded raw.length decoded)) = .ok (some pointer) ∧
          result pointer) ↔ result (pointerFromSnapshot decoded.snapshot) := by
    intro result
    simp [hload]
  rw [hpointer, P.resolve_current_iff]
  by_cases huuid : P.isUuid decoded.snapshot.revisionId = true
  · rw [P.readSnapshotForPointer_stable huuid rfl]
    constructor
    · rintro ⟨hsize, hhash, -⟩
      exact ⟨huuid, hsize.1, hsize.2, hhash⟩
    · rintro ⟨-, hleast, hmost, hhash⟩
      exact ⟨⟨hleast, hmost⟩, hhash, rfl⟩
  · have hmissing : P.readSnapshotForPointer true
        (stableOnly (.encoded raw.length decoded))
        (pointerFromSnapshot decoded.snapshot) =
          .error (.snapshotMissing decoded.snapshot.revisionId) := by
      rw [Portable.readSnapshotForPointer, Portable.syncSnapshotFile]
      have hsame : (pointerFromSnapshot decoded.snapshot).revisionId =
          decoded.snapshot.revisionId := rfl
      rw [hsame, if_neg huuid]
      rfl
    rw [hmissing]
    simp [huuid]

/-- A device whose files are encrypted with a prefix of twelve bytes. -/
def prefixDevice : Portable Unit (Payload fun _ => ValueText) :=
  { build := fun _ _ => emptyList
    payloadHash := fun payload =>
      hashInput Entity.all fun entity => (payload entity).1
    apply := fun _ content => content
    encryptedBytes := fun snapshot =>
      16 + (Entity.all.flatMap fun entity =>
        (snapshot.payload entity).1).length
    isUuid := fun revision => len revision == 36 }

def dropNonce (raw : Bytes) : Option Bytes :=
  some (raw.drop 12)

def writtenBytes : Bytes :=
  (containerOf deskPayload).encodeCompressedSnapshotPayload
    ((containerOf deskPayload).writeRedb
      ((serdeOf deskPayload).snapshotTables (textSnapshot deskPayload)))

def writtenFile : RemoteObject (Payload fun _ => ValueText) :=
  remoteObject (serdeOf deskPayload) textLegacySerde
    (containerOf deskPayload) dropNonce
    (List.replicate 12 7 ++ writtenBytes)

theorem writtenBytes_length :
    (List.replicate 12 7 ++ writtenBytes).length = 100 := by
  rw [List.length_append, List.length_replicate]
  rfl

theorem writtenFile_resolves : ∃ pointer,
    loadSyncPointer (stableOnly writtenFile) = .ok (some pointer) ∧
      (prefixDevice.resolveRemoteSnapshot true (stableOnly writtenFile)
        pointer).1 = .ok (.current (textSnapshot deskPayload)) := by
  have hdecode := decode_encoded _ textLegacySerde
    (containerOf deskPayload) (serdeOf_valid _) (serdeOf_stores _) rfl
    (imageContainer_storesZip _ _)
  rw [if_neg desk_fits] at hdecode
  have hdecrypt : dropNonce (List.replicate 12 7 ++ writtenBytes) =
      some writtenBytes := rfl
  exact (stable_file_resolves_iff (serdeOf deskPayload) textLegacySerde
    (containerOf deskPayload) prefixDevice dropNonce (fun _ _ h => h)
    (textSerde_keepsValue _) (fun _ value => value.2) hdecrypt hdecode).mpr
    ⟨by decide, by rw [writtenBytes_length]; decide,
      by rw [writtenBytes_length]; simp [maxEncryptedSnapshotBytes],
      Serde.currentShape_encoded _ _ (serdeOf_valid _) (serdeOf_stores _) rfl
        (imageContainer_storesZip _ _) desk_fits⟩

/-- A database of version 3 without groups and notes. -/
def legacyRedb : Redb :=
  { snapshotMeta := some [(snapshotMetaKey, "\x7b\x7d".toList)]
    entityDocs := some legacyRows }

def legacyFile : RemoteObject (Payload fun _ => ValueText) :=
  remoteObject (textSerde legacyInfo) textLegacySerde
    (imageContainer legacyRedb) dropNonce (List.replicate 42 0)

/-- A file of that shape decodes, but its head does not resolve. -/
theorem legacyFile_inconsistent : ∃ decoded pointer,
    legacyFile = .encoded 42 decoded ∧
      loadSyncPointer (stableOnly legacyFile) = .ok (some pointer) ∧
      (prefixDevice.resolveRemoteSnapshot true (stableOnly legacyFile)
        pointer).1 = .ok (.inconsistent pointer decoded.snapshot) := by
  let decoded := (textSerde legacyInfo).decodedFrom legacyInfo
    fun _ => emptyList
  have hdecode : decodePortableSnapshotWithSourceHash (textSerde legacyInfo)
      textLegacySerde (imageContainer legacyRedb) (List.replicate 30 0) =
        .ok decoded := by
    have hread : readPortableSnapshotRedb (textSerde legacyInfo)
        textLegacySerde (imageContainer legacyRedb) (List.replicate 30 0) =
          (textSerde legacyInfo).decodeV3Snapshot legacyInfo legacyRows :=
      readPortableSnapshotRedb_v3 _ _ _ legacyRedb rfl rfl rfl
    have hvalid : (textSerde legacyInfo).validatePortableSnapshot
        decoded.snapshot = .ok () := (Serde.validate_ok _).mpr ⟨rfl, rfl⟩
    rw [decodePortableSnapshotWithSourceHash, Container.snapshotPayload,
      if_neg (by decide), ok_bind, decodePortableSnapshotRedbWithSourceHash,
      hread, legacyRows_decode, ok_bind, hvalid]
    rfl
  have hfile : legacyFile = .encoded 42 decoded := by
    have hdecrypt : dropNonce (List.replicate 42 0) =
        some (List.replicate 30 0) := rfl
    simp only [legacyFile, remoteObject, hdecrypt, hdecode,
      List.length_replicate]
  have hhash : decoded.sourcePayloadHash ≠
      (pointerFromSnapshot decoded.snapshot).payloadHash := by
    change hashInput legacyShape (fun _ => "[]".toList) ≠
      hashInput Entity.all fun _ => "[]".toList
    intro hsame
    exact absurd (hashInput_inj (fun _ _ => by decide) (fun _ _ => by decide)
      hsame).1 (by decide)
  refine ⟨decoded, pointerFromSnapshot decoded.snapshot, hfile, ?_, ?_⟩
  · rw [hfile, loadSyncPointer]
    rfl
  · rw [hfile, prefixDevice.resolve_stable_mismatch 42 decoded (by decide) rfl
      ⟨by decide, by simp [maxEncryptedSnapshotBytes]⟩ hhash]

end NiceTerm.Snapshot
