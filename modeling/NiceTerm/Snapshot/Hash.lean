/-
The payload hash of a snapshot, computed from its values, and the hash of a
table of entities, computed from the texts in it.  A table is decoded if the
second hash is the one in its metadata.
-/
import NiceTerm.Lib.Fallible
import NiceTerm.Snapshot.Entities

namespace NiceTerm.Snapshot

open Fallible JsonText List RustStr
open Cloud (PortableSnapshot PortableSnapshotKind DecodedPortableSnapshot)

variable {V : Entity → Type} (S : Serde V)

def portableSnapshotSchemaVersion : Nat := 3

def payloadHashMismatch : AppError :=
  .crypto "Portable snapshot payload hash mismatch".toList

/-- The JSON object of the given entities. -/
def hashInput (order : List Entity) (text : Entity → Str) : Str :=
  objectText (order.map fun entity => (entity.key, text entity))

def Serde.calculatePayloadHash (payload : Payload V) : Str :=
  S.digest (hashInput Entity.all fun entity =>
    S.toText entity (payload entity))

def Serde.validatePortableSnapshot (snapshot : PortableSnapshot (Payload V)) :
    Except AppError Unit :=
  if snapshot.schemaVersion ≠ portableSnapshotSchemaVersion then
    .error (.config ("Unsupported portable snapshot version ".toList ++
      Nat.toDigits 10 snapshot.schemaVersion))
  else if S.calculatePayloadHash snapshot.payload ≠ snapshot.payloadHash then
    .error payloadHashMismatch
  else .ok ()

/-- The fields of `LegacySnapshotRawHashInput`. -/
def legacyShape : List Entity :=
  [.settings, .sessions, .keys, .passwords, .credentials, .otp, .proxies,
    .tunnels, .quickCommands, .history, .masterKeyToken, .knownHosts]

/-- The fields of `SnapshotRawHashInput`. -/
def groupedShape : List Entity :=
  [.settings, .sessions, .keys, .passwords, .credentials, .otp, .proxies,
    .proxyGroups, .tunnels, .tunnelGroups, .quickCommands, .history,
    .masterKeyToken, .knownHosts]

/-- The texts of a raw hash input; an entity is looked up in what was read. -/
def readText (texts : List (Entity × Str)) (entity : Entity) : Str :=
  (texts.lookup entity).getD []

/-- The reads of `calculate_v3_raw_payload_hash`, in order; the first that
fails ends them. -/
def Serde.readRawEntities (entities : Table) :
    List Entity → Except AppError (List (Entity × Str))
  | [] => .ok []
  | entity :: rest => do
    let text ← S.readRawEntity entities entity
    let texts ← Serde.readRawEntities entities rest
    return (entity, text) :: texts

/-- `calculate_v3_raw_payload_hash`: the groups are hashed if one of their keys
is there, the notes only along with the groups. -/
def Serde.calculateV3RawPayloadHash (entities : Table) :
    Except AppError Str := do
  let legacy ← S.readRawEntities entities legacyShape
  let hash := S.digest (hashInput legacyShape (readText legacy))
  if entities.containsKey Entity.proxyGroups.key ||
      entities.containsKey Entity.tunnelGroups.key then
    let groups ← S.readRawEntities entities [.proxyGroups, .tunnelGroups]
    if entities.containsKey Entity.notes.key then
      let notes ← S.readRawEntities entities [.notes]
      return S.digest (hashInput Entity.all
        (readText (legacy ++ groups ++ notes)))
    return S.digest (hashInput groupedShape (readText (legacy ++ groups)))
  return hash

/-- The entity fields of a `PortableSnapshot { .. }`. -/
def snapshotFields (settings : V .settings) (sessions : V .sessions)
    (keys : V .keys) (passwords : V .passwords) (credentials : V .credentials)
    (otp : V .otp) (proxies : V .proxies) (proxyGroups : V .proxyGroups)
    (tunnels : V .tunnels) (tunnelGroups : V .tunnelGroups)
    (quickCommands : V .quickCommands) (history : V .history)
    (masterKeyToken : V .masterKeyToken) (knownHosts : V .knownHosts)
    (notes : V .notes) : Payload V := fun entity =>
  match entity with
  | .settings => settings
  | .sessions => sessions
  | .keys => keys
  | .passwords => passwords
  | .credentials => credentials
  | .otp => otp
  | .proxies => proxies
  | .proxyGroups => proxyGroups
  | .tunnels => tunnels
  | .tunnelGroups => tunnelGroups
  | .quickCommands => quickCommands
  | .history => history
  | .masterKeyToken => masterKeyToken
  | .knownHosts => knownHosts
  | .notes => notes

/-- The reads of `decode_v3_snapshot`, in their order. -/
def Serde.readPayload (entities : Table) : Except AppError (Payload V) := do
  let settings ← S.readEntity entities .settings
  let sessions ← S.readEntityOrDefault entities .sessions
  let keys ← S.readEntityOrDefault entities .keys
  let passwords ← S.readEntityOrDefault entities .passwords
  let credentials ← S.readEntityOrDefault entities .credentials
  let otp ← S.readEntityOrDefault entities .otp
  let proxies ← S.readEntityOrDefault entities .proxies
  let proxyGroups ← S.readEntityOrDefault entities .proxyGroups
  let tunnels ← S.readEntityOrDefault entities .tunnels
  let tunnelGroups ← S.readEntityOrDefault entities .tunnelGroups
  let quickCommands ← S.readEntityOrDefault entities .quickCommands
  let history ← S.readEntityOrDefault entities .history
  let masterKeyToken ← S.readEntityOrDefault entities .masterKeyToken
  let knownHosts ← S.readEntityOrDefault entities .knownHosts
  let notes ← S.readEntityOrDefault entities .notes
  return snapshotFields settings sessions keys passwords credentials otp
    proxies proxyGroups tunnels tunnelGroups quickCommands history
    masterKeyToken knownHosts notes

/-- What decoding gives for a payload read from a table. -/
def Serde.decodedFrom (info : PortableSnapshotMeta) (payload : Payload V) :
    DecodedPortableSnapshot (Payload V) :=
  ⟨info.withPayload info.schemaVersion (S.calculatePayloadHash payload)
    payload, info.payloadHash⟩

def Serde.decodeV3Snapshot (info : PortableSnapshotMeta) (entities : Table) :
    Except AppError (DecodedPortableSnapshot (Payload V)) := do
  let expected ← S.calculateV3RawPayloadHash entities
  if expected ≠ info.payloadHash then .error payloadHashMismatch
  else
    let payload ← S.readPayload entities
    return S.decodedFrom info payload

/-- The entities whose texts go into the hash of a table. -/
def hashedShape (entities : Table) : List Entity :=
  if entities.containsKey Entity.proxyGroups.key ||
      entities.containsKey Entity.tunnelGroups.key then
    if entities.containsKey Entity.notes.key then Entity.all
    else groupedShape
  else legacyShape

variable {entities : Table} {order : List Entity}

/-- Reading succeeds if every entity can be read; the texts are the ones that
were read. -/
theorem Serde.readRawEntities_ok {texts : List (Entity × Str)}
    (h : S.readRawEntities entities order = .ok texts) :
    texts.map Prod.fst = order ∧ ∀ entity ∈ order,
      S.readRawEntity entities entity = .ok (readText texts entity) := by
  induction order generalizing texts with
  | nil =>
    obtain rfl := Except.ok.inj h
    simp
  | cons entity rest ih =>
    simp only [Serde.readRawEntities, bind_eq_ok, pure, Except.pure,
      Except.ok.injEq] at h
    obtain ⟨text, hread, others, hrest, rfl⟩ := h
    obtain ⟨horder, hothers⟩ := ih hrest
    refine ⟨by rw [map_cons, horder], fun other hother => ?_⟩
    by_cases heq : other = entity
    · subst heq
      simpa [readText] using hread
    · have hne : (other == entity) = false := by simpa using heq
      have hmem : other ∈ rest := by simpa [heq] using hother
      simpa [readText, lookup_cons, hne] using hothers other hmem

theorem Serde.readRawEntities_append
    {more : List Entity} {texts others : List (Entity × Str)}
    (h : S.readRawEntities entities order = .ok texts)
    (hmore : S.readRawEntities entities more = .ok others) :
    S.readRawEntities entities (order ++ more) = .ok (texts ++ others) := by
  induction order generalizing texts with
  | nil =>
    obtain rfl := Except.ok.inj h
    exact hmore
  | cons entity rest ih =>
    simp only [Serde.readRawEntities, bind_eq_ok, pure, Except.pure,
      Except.ok.injEq] at h
    obtain ⟨text, hread, found, hrest, rfl⟩ := h
    rw [cons_append, Serde.readRawEntities, hread, ok_bind, ih hrest]
    rfl

variable {text : Entity → Str}

theorem Serde.readRawEntities_total
    (h : ∀ entity ∈ order,
      S.readRawEntity entities entity = .ok (text entity)) :
    S.readRawEntities entities order =
      .ok (order.map fun entity => (entity, text entity)) := by
  induction order with
  | nil => rfl
  | cons entity rest ih =>
    have hrest := ih fun other hother =>
      h other (mem_cons_of_mem entity hother)
    rw [Serde.readRawEntities, h entity mem_cons_self, hrest]
    rfl

theorem readText_map {entity : Entity} (h : entity ∈ order) :
    readText (order.map fun entity => (entity, text entity)) entity =
      text entity := by
  induction order with
  | nil => simp at h
  | cons first rest ih =>
    by_cases hfirst : entity = first
    · simp [readText, hfirst]
    · have hne : (entity == first) = false := by simpa using hfirst
      have hrest : entity ∈ rest := by simpa [hfirst] using h
      simpa [readText, lookup_cons, hne] using ih hrest

theorem hashInput_congr {other : Entity → Str}
    (h : ∀ entity ∈ order, text entity = other entity) :
    hashInput order text = hashInput order other := by
  rw [hashInput, hashInput]
  congr 1
  exact map_congr_left fun entity hmem => by rw [h entity hmem]

/-- A table has the hash of the texts in its shape. -/
theorem Serde.calculateV3RawPayloadHash_total
    (text : Entity → Str)
    (h : ∀ entity ∈ hashedShape entities,
      S.readRawEntity entities entity = .ok (text entity)) :
    S.calculateV3RawPayloadHash entities =
      .ok (S.digest (hashInput (hashedShape entities) text)) := by
  have hread : ∀ order : List Entity,
      (∀ entity ∈ order, entity ∈ hashedShape entities) →
        S.readRawEntities entities order =
          .ok (order.map fun entity => (entity, text entity)) :=
    fun order horder => S.readRawEntities_total
      fun entity hmem => h entity (horder entity hmem)
  have hlegacy := hread legacyShape (by
    unfold hashedShape
    split
    · split <;> decide
    · decide)
  rw [Serde.calculateV3RawPayloadHash, hlegacy, ok_bind]
  by_cases hgroups : (entities.containsKey Entity.proxyGroups.key ||
      entities.containsKey Entity.tunnelGroups.key) = true
  · rw [if_pos hgroups]
    have hshape : hashedShape entities =
        if entities.containsKey Entity.notes.key then Entity.all
        else groupedShape := by rw [hashedShape, if_pos hgroups]
    rw [hread [.proxyGroups, .tunnelGroups] (by
      rw [hshape]
      split <;> decide), ok_bind]
    by_cases hnotes : entities.containsKey Entity.notes.key = true
    · rw [if_pos hnotes] at hshape ⊢
      rw [hread [.notes] (by rw [hshape]; decide), ok_bind, hshape,
        ← map_append, ← map_append,
        hashInput_congr fun entity hmem => readText_map (by
          cases entity <;> decide)]
      rfl
    · rw [if_neg hnotes] at hshape ⊢
      rw [hshape, ← map_append,
        hashInput_congr fun entity hmem => readText_map (by
          revert hmem
          cases entity <;> decide)]
      rfl
  · have hshape : hashedShape entities = legacyShape := by
      rw [hashedShape, if_neg hgroups]
    rw [if_neg hgroups, hshape,
      hashInput_congr fun entity hmem => readText_map hmem]
    rfl

/-- The hash of a table is the hash of the texts in its shape. -/
theorem Serde.calculateV3RawPayloadHash_ok {hash : Str}
    (h : S.calculateV3RawPayloadHash entities = .ok hash) :
    ∃ text : Entity → Str, (∀ entity ∈ hashedShape entities,
        S.readRawEntity entities entity = .ok (text entity)) ∧
      hash = S.digest (hashInput (hashedShape entities) text) := by
  suffices hread : ∃ text : Entity → Str, ∀ entity ∈ hashedShape entities,
      S.readRawEntity entities entity = .ok (text entity) by
    obtain ⟨text, htext⟩ := hread
    refine ⟨text, htext, ?_⟩
    rw [S.calculateV3RawPayloadHash_total text htext] at h
    exact (Except.ok.inj h).symm
  simp only [Serde.calculateV3RawPayloadHash, bind_eq_ok] at h
  obtain ⟨legacy, hlegacy, h⟩ := h
  by_cases hgroups : (entities.containsKey Entity.proxyGroups.key ||
      entities.containsKey Entity.tunnelGroups.key) = true
  · rw [if_pos hgroups, bind_eq_ok] at h
    obtain ⟨groups, hread, h⟩ := h
    have hgrouped := S.readRawEntities_append hlegacy hread
    by_cases hnotes : entities.containsKey Entity.notes.key = true
    · rw [if_pos hnotes, bind_eq_ok] at h
      obtain ⟨notes, hnote, -⟩ := h
      refine ⟨readText (legacy ++ groups ++ notes), fun entity _ => ?_⟩
      apply (S.readRawEntities_ok (S.readRawEntities_append hgrouped hnote)).2
      cases entity <;> decide
    · refine ⟨readText (legacy ++ groups), fun entity hmem => ?_⟩
      apply (S.readRawEntities_ok hgrouped).2
      rw [hashedShape, if_pos hgroups, if_neg hnotes] at hmem
      revert hmem
      cases entity <;> decide
  · refine ⟨readText legacy, fun entity hmem => ?_⟩
    rw [hashedShape, if_neg hgroups] at hmem
    exact (S.readRawEntities_ok hlegacy).2 entity hmem

theorem snapshotFields_eta (payload : Payload V) :
    snapshotFields (payload .settings) (payload .sessions) (payload .keys)
      (payload .passwords) (payload .credentials) (payload .otp)
      (payload .proxies) (payload .proxyGroups) (payload .tunnels)
      (payload .tunnelGroups) (payload .quickCommands) (payload .history)
      (payload .masterKeyToken) (payload .knownHosts) (payload .notes) =
        payload := by
  funext entity
  cases entity <;> rfl

theorem Serde.readPayload_ok {payload : Payload V} :
    S.readPayload entities = .ok payload ↔
      ∀ entity, S.readField entities entity = .ok (payload entity) := by
  constructor
  · intro h entity
    simp only [Serde.readPayload, bind_eq_ok, pure, Except.pure,
      Except.ok.injEq] at h
    obtain ⟨settings, hsettings, sessions, hsessions, keys, hkeys, passwords,
      hpasswords, credentials, hcredentials, otp, hotp, proxies, hproxies,
      proxyGroups, hproxyGroups, tunnels, htunnels, tunnelGroups,
      htunnelGroups, quickCommands, hquickCommands, history, hhistory,
      masterKeyToken, hmasterKeyToken, knownHosts, hknownHosts, notes, hnotes,
      rfl⟩ := h
    cases entity <;> assumption
  · intro h
    have hsettings : S.readEntity entities .settings =
        .ok (payload .settings) := h .settings
    have hother : ∀ entity, entity ≠ Entity.settings →
        S.readEntityOrDefault entities entity = .ok (payload entity) := by
      intro entity hne
      rw [← h entity, Serde.readField, if_neg hne]
    simp only [Serde.readPayload, ok_bind, hsettings, hother, ne_eq,
      reduceCtorEq, not_false_eq_true, pure, Except.pure]
    rw [snapshotFields_eta]

theorem Serde.decodeV3Snapshot_ok {info : PortableSnapshotMeta}
    {decoded : DecodedPortableSnapshot (Payload V)} :
    S.decodeV3Snapshot info entities = .ok decoded ↔
      S.calculateV3RawPayloadHash entities = .ok info.payloadHash ∧
        ∃ payload, (∀ entity,
          S.readField entities entity = .ok (payload entity)) ∧
        decoded = S.decodedFrom info payload := by
  rw [Serde.decodeV3Snapshot, bind_eq_ok]
  constructor
  · rintro ⟨expected, hexpected, h⟩
    by_cases hhash : expected = info.payloadHash
    · rw [if_neg (not_not_intro hhash), bind_eq_ok] at h
      obtain ⟨payload, hpayload, hdecoded⟩ := h
      exact ⟨hhash ▸ hexpected, payload, S.readPayload_ok.mp hpayload,
        (Except.ok.inj hdecoded).symm⟩
    · rw [if_pos hhash] at h
      cases h
  · rintro ⟨hhash, payload, hread, rfl⟩
    refine ⟨info.payloadHash, hhash, ?_⟩
    rw [if_neg (not_not_intro rfl), S.readPayload_ok.mpr hread]
    rfl

end NiceTerm.Snapshot
