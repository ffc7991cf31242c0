/-
What the hash of a table says about the values that are read from it.  Two
tables of one hash agree on every entity of their shape; the notes belong to
the shape only where the groups do.
-/
import NiceTerm.Snapshot.Hash

namespace NiceTerm.Snapshot

open RustStr JsonText
open Cloud (PortableSnapshot PortableSnapshotKind DecodedPortableSnapshot)

variable {V : Entity → Type} (S : Serde V)

def Table.insert (table : Table) (key value : Str) : Table :=
  (key, value) :: table.filter fun row => row.1 != key

/-- The table holds one of the groups. -/
def Table.HasGroups (table : Table) : Prop :=
  table.containsKey Entity.proxyGroups.key = true ∨
    table.containsKey Entity.tunnelGroups.key = true

instance (table : Table) : Decidable table.HasGroups :=
  inferInstanceAs (Decidable (_ ∨ _))

theorem Table.get_insert_same (table : Table) (key value : Str) :
    (table.insert key value).get key = some value := by
  simp [Table.get, Table.insert]

theorem Table.get_insert_ne (table : Table) {key other : Str} (value : Str)
    (h : other ≠ key) : (table.insert key value).get other = table.get other := by
  have hne : (other == key) = false := by simpa using h
  rw [Table.get, Table.insert, List.lookup_cons, hne]
  change List.lookup other (table.filter _) = List.lookup other table
  induction table with
  | nil => rfl
  | cons row rest ih =>
    obtain ⟨first, text⟩ := row
    by_cases hrow : first = key
    · subst hrow
      simpa [List.lookup_cons, hne] using ih
    · by_cases hother : other = first
      · subst hother
        simp [hrow]
      · have hskip : (other == first) = false := by simpa using hother
        simpa [hrow, List.lookup_cons, hskip] using ih

theorem hashInput_inj {order others : List Entity} {text other : Entity → Str}
    (htext : ∀ entity ∈ order, SelfDelimiting (text entity))
    (hother : ∀ entity ∈ others, SelfDelimiting (other entity))
    (h : hashInput order text = hashInput others other) :
    order = others ∧ ∀ entity ∈ order, text entity = other entity := by
  have hplain : ∀ (shape : List Entity) (values : Entity → Str),
      (∀ entity ∈ shape, SelfDelimiting (values entity)) →
        PlainMembers (shape.map fun entity => (entity.key, values entity)) := by
    intro shape values hvalues member hmember
    obtain ⟨entity, hentity, rfl⟩ := List.mem_map.mp hmember
    exact ⟨entity.key_plain, hvalues entity hentity⟩
  have hmembers := objectText_inj (hplain order text htext)
    (hplain others other hother) h
  clear h htext hother
  induction order generalizing others with
  | nil =>
    cases others with
    | nil => simp
    | cons second rest => simp at hmembers
  | cons first rest ih =>
    cases others with
    | nil => simp at hmembers
    | cons second more =>
      simp only [List.map_cons, List.cons.injEq, Prod.mk.injEq]
        at hmembers
      obtain ⟨⟨hkey, hfirst⟩, hrest⟩ := hmembers
      obtain rfl := Entity.key_inj hkey
      obtain ⟨rfl, hsame⟩ := ih hrest
      refine ⟨rfl, fun entity hmem => ?_⟩
      rcases List.mem_cons.mp hmem with rfl | hmem
      · exact hfirst
      · exact hsame entity hmem

variable {table : Table}

theorem hashedShape_of_groups (h : table.HasGroups) :
    hashedShape table =
      if table.containsKey Entity.notes.key then Entity.all
      else groupedShape := by
  rw [hashedShape, if_pos (by simpa [Table.HasGroups] using h)]

theorem hashedShape_of_not_groups (h : ¬ table.HasGroups) :
    hashedShape table = legacyShape := by
  rw [hashedShape, if_neg (by simpa [Table.HasGroups] using h)]

/-- Only the notes can be outside the shape of a table with groups, and then
they are not in the table. -/
theorem not_mem_hashedShape (h : table.HasGroups)
    {entity : Entity} (hentity : entity ∉ hashedShape table) :
    entity = .notes ∧ hashedShape table = groupedShape := by
  rw [hashedShape_of_groups h] at hentity ⊢
  by_cases hnotes : table.containsKey Entity.notes.key = true
  · rw [if_pos hnotes] at hentity
    exact absurd entity.mem_all hentity
  · rw [if_neg hnotes] at hentity ⊢
    refine ⟨?_, rfl⟩
    revert hentity
    cases entity <;> decide

theorem get_notes_of_grouped (h : hashedShape table = groupedShape) :
    table.get Entity.notes.key = none := by
  have hgroups : table.HasGroups := by
    by_contra hnone
    rw [hashedShape_of_not_groups hnone] at h
    exact absurd h (by decide)
  rw [hashedShape_of_groups hgroups] at h
  by_cases hnotes : table.containsKey Entity.notes.key = true
  · rw [if_pos hnotes] at h
    exact absurd h (by decide)
  · simpa [Table.containsKey] using hnotes

/-- Tables of one hash have one shape, and its entities read the same. -/
theorem Serde.readField_of_hash (hdigest : Function.Injective S.digest)
    (hkeeps : S.KeepsValue) {other : Table} {hash : Str}
    (htable : S.calculateV3RawPayloadHash table = .ok hash)
    (hother : S.calculateV3RawPayloadHash other = .ok hash) :
    hashedShape other = hashedShape table ∧ ∀ entity ∈ hashedShape table,
        S.readField other entity = S.readField table entity := by
  obtain ⟨text, htext, heq⟩ := S.calculateV3RawPayloadHash_ok htable
  obtain ⟨texts, htexts, heqs⟩ := S.calculateV3RawPayloadHash_ok hother
  have hself : ∀ (rows : Table) (entity : Entity) (kept : Str),
      S.readRawEntity rows entity = .ok kept → SelfDelimiting kept := by
    intro rows entity kept hread
    obtain ⟨raw, -, hraw⟩ := S.readRawEntity_ok.mp hread
    exact (hkeeps raw kept hraw).1
  obtain ⟨hshape, hsame⟩ := hashInput_inj
    (fun entity hmem => hself table entity _ (htext entity hmem))
    (fun entity hmem => hself other entity _ (htexts entity hmem))
    (hdigest (heq.symm.trans heqs))
  refine ⟨hshape.symm, fun entity hmem => ?_⟩
  rw [S.readField_of_raw hkeeps (htext entity hmem), S.readField_of_raw hkeeps
    (htexts entity (hshape ▸ hmem)), hsame entity hmem]

/-- With groups in the table, its hash fixes everything that is read. -/
theorem Serde.payload_of_hash (hdigest : Function.Injective S.digest)
    (hkeeps : S.KeepsValue) {info another : PortableSnapshotMeta}
    {other : Table} {decoded decodeds : DecodedPortableSnapshot (Payload V)}
    (hgroups : table.HasGroups)
    (h : S.decodeV3Snapshot info table = .ok decoded)
    (hother : S.decodeV3Snapshot another other = .ok decodeds)
    (hhash : another.payloadHash = info.payloadHash) :
    decodeds.snapshot.payload = decoded.snapshot.payload := by
  obtain ⟨hraw, payload, hread, rfl⟩ := S.decodeV3Snapshot_ok.mp h
  obtain ⟨hraws, payloads, hreads, rfl⟩ := S.decodeV3Snapshot_ok.mp hother
  rw [hhash] at hraws
  obtain ⟨hshape, hsame⟩ := S.readField_of_hash hdigest hkeeps hraw hraws
  change payloads = payload
  funext entity
  apply Except.ok.inj (ε := AppError)
  rw [← hreads entity, ← hread entity]
  by_cases hmem : entity ∈ hashedShape table
  · exact hsame entity hmem
  · obtain ⟨rfl, hgrouped⟩ := not_mem_hashedShape hgroups hmem
    rw [S.readField_absent (get_notes_of_grouped hgrouped) (by decide),
      S.readField_absent (get_notes_of_grouped (hshape.trans hgrouped))
        (by decide)]

theorem Serde.decode_with_notes {info : PortableSnapshotMeta}
    {decoded : DecodedPortableSnapshot (Payload V)}
    (hgroups : ¬ table.HasGroups)
    (h : S.decodeV3Snapshot info table = .ok decoded) (raw : Str)
    (notes : V .notes) (hnotes : S.fromText .notes raw = some notes) :
    S.decodeV3Snapshot info (table.insert Entity.notes.key raw) =
      .ok (S.decodedFrom info
        (Function.update decoded.snapshot.payload .notes notes)) := by
  obtain ⟨hraw, payload, hread, rfl⟩ := S.decodeV3Snapshot_ok.mp h
  have hget : ∀ entity, entity ≠ Entity.notes →
      (table.insert Entity.notes.key raw).get entity.key =
        table.get entity.key := fun entity hne =>
    table.get_insert_ne raw fun hkey => hne (Entity.key_inj hkey)
  have hkeep : ¬ (table.insert Entity.notes.key raw).HasGroups := by
    simpa only [Table.HasGroups, Table.containsKey, hget .proxyGroups
      (by decide), hget .tunnelGroups (by decide)] using hgroups
  apply S.decodeV3Snapshot_ok.mpr
  refine ⟨?_, _, fun entity => ?_, rfl⟩
  · obtain ⟨text, htext, heq⟩ := S.calculateV3RawPayloadHash_ok hraw
    rw [hashedShape_of_not_groups hgroups] at htext heq
    rw [S.calculateV3RawPayloadHash_total text,
      hashedShape_of_not_groups hkeep, ← heq]
    intro entity hmem
    rw [hashedShape_of_not_groups hkeep] at hmem
    rw [← htext entity hmem, Serde.readRawEntity, Serde.readRawEntity,
      hget entity (by
        rintro rfl
        exact absurd hmem (by decide))]
  · by_cases hentity : entity = .notes
    · subst hentity
      rw [S.readField_of_get (table.get_insert_same _ raw), Serde.parse,
        hnotes, Function.update_self]
    · rw [Function.update_of_ne hentity]
      change _ = Except.ok (payload entity)
      rw [← hread entity, Serde.readField, Serde.readField, Serde.readEntity,
        Serde.readEntity, Serde.readEntityOrDefault,
        Serde.readEntityOrDefault, hget entity hentity]

/-- The hash in the metadata of an accepted table fixes the payload if and only
if the table holds the groups. -/
theorem hash_binds_payload_iff (hdigest : Function.Injective S.digest)
    (hkeeps : S.KeepsValue)
    (hnotes : ∃ raw other notes another, S.fromText .notes raw = some notes ∧
      S.fromText .notes other = some another ∧ notes ≠ another)
    {info : PortableSnapshotMeta} {table : Table}
    {decoded : DecodedPortableSnapshot (Payload V)}
    (h : S.decodeV3Snapshot info table = .ok decoded) :
    (∀ another other decodeds, S.decodeV3Snapshot another other = .ok decodeds
      → another.payloadHash = info.payloadHash →
        decodeds.snapshot.payload = decoded.snapshot.payload) ↔
      table.HasGroups := by
  constructor
  · intro hbinds
    by_contra hgroups
    obtain ⟨raw, other, notes, another, hraw, hother, hne⟩ := hnotes
    have hsame : ∀ {text : Str} {value : V .notes},
        S.fromText .notes text = some value →
          value = decoded.snapshot.payload .notes := by
      intro text value hvalue
      have heq := hbinds _ _ _ (S.decode_with_notes hgroups h _ _ hvalue) rfl
      calc value
        _ = Function.update decoded.snapshot.payload .notes value .notes :=
            (Function.update_self Entity.notes value _).symm
        _ = decoded.snapshot.payload .notes := congrFun heq .notes
    exact hne ((hsame hraw).trans (hsame hother).symm)
  · intro hgroups another other decodeds hother hhash
    exact S.payload_of_hash hdigest hkeeps hgroups h hother hhash

/-- The text of one JSON value. -/
abbrev ValueText : Type := { text : Str // SelfDelimiting text }

def ValueText.read (raw : Str) : Option ValueText :=
  if h : SelfDelimiting raw then some ⟨raw, h⟩ else none

def emptyList : ValueText := ⟨"[]".toList, by decide⟩

theorem ValueText.read_text (value : ValueText) :
    ValueText.read value.1 = some value :=
  dif_pos value.2

variable (info : PortableSnapshotMeta)

/-- Entities as the texts they are written as. -/
def textSerde : Serde fun _ => ValueText :=
  { toText := fun _ value => value.1
    fromText := fun _ raw => ValueText.read raw
    default := fun _ => emptyList
    rawValue := fun raw => (ValueText.read raw).map Subtype.val
    metaText := fun _ => "\x7b\x7d".toList
    metaFromText := fun _ => some info
    digest := id }

theorem textSerde_rawValue (value : ValueText) :
    (textSerde info).rawValue value.1 = some value.1 :=
  congrArg (Option.map Subtype.val) value.read_text

theorem textSerde_keepsValue :
    (textSerde info).KeepsValue := by
  intro raw text h
  by_cases hraw : SelfDelimiting raw
  · obtain rfl : raw = text := by
      simpa [textSerde, ValueText.read, hraw] using h
    exact ⟨hraw, fun _ => rfl⟩
  · simp [textSerde, ValueText.read, hraw] at h

/-- A device with a theme, a session and a note. -/
def deskPayload : Payload fun _ => ValueText
  | .settings => ⟨"\x7b\"theme\":\"dark\"\x7d".toList, by decide⟩
  | .sessions => ⟨"[\x7b\"name\":\"db\",\"port\":22\x7d]".toList, by decide⟩
  | .notes => ⟨"[\"restart at noon\"]".toList, by decide⟩
  | _ => emptyList

variable (payload : Payload fun _ => ValueText) (order : List Entity)

/-- A table that holds the given entities. -/
def rowsOf : Table :=
  order.map fun entity => (entity.key, (payload entity).1)

def infoOf : PortableSnapshotMeta :=
  { schemaVersion := 3
    snapshotKind := .sync
    revisionId := "0b6f2a52-6a52-4c1e-9f0e-2f6f1f0c7d11".toList
    deviceId := "laptop".toList
    createdAtMs := 1
    payloadHash := hashInput order fun entity => (payload entity).1
    appVersion := "1.0.0".toList }

theorem rowsOf_decode
    (hshape : hashedShape (rowsOf payload order) = order)
    (habsent : ∀ entity ∉ order, (rowsOf payload order).get entity.key = none ∧
      entity ≠ .settings ∧ payload entity = emptyList) :
    (textSerde (infoOf payload order)).decodeV3Snapshot (infoOf payload order)
        (rowsOf payload order) =
      .ok ((textSerde (infoOf payload order)).decodedFrom
        (infoOf payload order) payload) := by
  apply Serde.decodeV3Snapshot_ok _ |>.mpr
  refine ⟨?_, _, fun entity => ?_, rfl⟩
  · rw [Serde.calculateV3RawPayloadHash_total _ fun entity =>
      (payload entity).1, hshape]
    · rfl
    · intro entity hmem
      rw [hshape] at hmem
      exact (Serde.readRawEntity_ok _).mpr
        ⟨_, Table.get_rows hmem, textSerde_rawValue _ (payload entity)⟩
  · by_cases hmem : entity ∈ order
    · rw [rowsOf, Serde.readField_of_get _ (Table.get_rows hmem)]
      have hread : (textSerde (infoOf payload order)).fromText entity
          (payload entity).1 = some (payload entity) :=
        (payload entity).read_text
      rw [Serde.parse, hread]
    · obtain ⟨hget, hsettings, hempty⟩ := habsent entity hmem
      rw [Serde.readField_absent _ hget hsettings, hempty]
      rfl

/-- What is accepted under the hash of the full table holds the same theme,
session and note. -/
theorem deskRows_bind :
    (rowsOf deskPayload Entity.all).HasGroups ∧ ∀ another other decodeds,
        (textSerde (infoOf deskPayload Entity.all)).decodeV3Snapshot another
            other = .ok decodeds →
          another.payloadHash = (infoOf deskPayload Entity.all).payloadHash →
            decodeds.snapshot.payload = deskPayload := by
  have hgroups : (rowsOf deskPayload Entity.all).HasGroups := by decide
  exact ⟨hgroups, (hash_binds_payload_iff _ (fun _ _ h => h)
    (textSerde_keepsValue _)
    ⟨"[]".toList, "[1]".toList, emptyList, ⟨"[1]".toList, by decide⟩, rfl, rfl,
      by decide⟩
    (rowsOf_decode deskPayload Entity.all (by decide)
      fun entity h => absurd entity.mem_all h)).mpr hgroups⟩

/-- A table without groups and notes. -/
def legacyRows : Table :=
  rowsOf (fun _ => emptyList) legacyShape

def legacyInfo : PortableSnapshotMeta :=
  infoOf (fun _ => emptyList) legacyShape

theorem legacyRows_decode :
    (textSerde legacyInfo).decodeV3Snapshot legacyInfo legacyRows =
      .ok ((textSerde legacyInfo).decodedFrom legacyInfo
        fun _ => emptyList) :=
  rowsOf_decode _ legacyShape (by decide) (by
    intro entity hmem
    revert hmem
    cases entity <;> decide)

/-- Two accepted tables of one hash whose notes differ. -/
theorem legacyRows_other_notes : ∃ other decoded decodeds,
    Function.Injective (textSerde legacyInfo).digest ∧
      (textSerde legacyInfo).decodeV3Snapshot legacyInfo legacyRows =
        .ok decoded ∧
      (textSerde legacyInfo).decodeV3Snapshot legacyInfo other = .ok decodeds ∧
      decodeds.snapshot.payload ≠ decoded.snapshot.payload := by
  refine ⟨_, _, _, fun _ _ h => h, legacyRows_decode,
    Serde.decode_with_notes _ (by decide) legacyRows_decode "[1]".toList
      ⟨"[1]".toList, by decide⟩ rfl, ?_⟩
  intro hsame
  have hnotes := congrArg Subtype.val (congrFun hsame Entity.notes)
  change "[1]".toList = "[]".toList at hnotes
  exact absurd hnotes (by decide)

end NiceTerm.Snapshot
