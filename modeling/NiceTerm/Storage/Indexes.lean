/-
Each index has one entry for every stored connection, as long as no id is
found at the end of another connection's key and no two keys coincide.
-/
import NiceTerm.Lib.Transition
import NiceTerm.Storage.Sessions

namespace NiceTerm.Storage

open RustStr (Str)
open List Transition

variable {α δ : Type}

variable (keyOf : SavedConnection α δ → Str)

/-- The index has exactly one entry for every stored connection, under the key
of its current fields. -/
def IndexOf (s : Sessions α δ) (index : Table Str Str) : Prop :=
  index.entries.Perm (s.connections.values.map fun connection =>
      (keyOf connection, connection.id))

structure Coherent (s : Sessions α δ) : Prop where
  ids : s.connections.KeyedBy SavedConnection.id
  byGroup : IndexOf groupKey s s.byGroup
  byLastUsed : IndexOf lastUsedKey s s.byLastUsed
  byProtocol : IndexOf protocolKey s s.byProtocol

variable (connections : Table Str (SavedConnection α δ))

/-- The index has an entry under a key and an id exactly if the connection with
that id has the key. -/
def Reflects (index : Table Str Str) : Prop :=
  ∀ key id, (key, id) ∈ index.entries ↔
    ∃ connection, connections.get id = some connection ∧
      keyOf connection = key

theorem indexOf_iff_reflects {s : Sessions α δ}
    (hids : s.connections.KeyedBy SavedConnection.id)
    {keyOf : SavedConnection α δ → Str} {index : Table Str Str} :
    IndexOf keyOf s index ↔ Reflects keyOf s.connections index := by
  have hnodup : (s.connections.values.map fun connection =>
      (keyOf connection, connection.id)).Nodup := by
    apply Nodup.map_on _ hids.values_nodup
    intro first hfirst second hsecond heq
    exact hids.eq_of_key hfirst hsecond (congrArg Prod.snd heq)
  have hmem : ∀ key id, (key, id) ∈ (s.connections.values.map
        fun connection => (keyOf connection, connection.id)) ↔
      ∃ connection, s.connections.get id = some connection ∧
        keyOf connection = key := by
    intro key id
    rw [mem_map]
    constructor
    · rintro ⟨connection, hvalue, heq⟩
      obtain ⟨rfl, rfl⟩ := Prod.mk.inj heq
      exact ⟨connection, hids.mem_values.mp hvalue, rfl⟩
    · rintro ⟨connection, hget, rfl⟩
      have hid : connection.id = id := hids.key_of_get hget
      subst hid
      exact ⟨connection, hids.mem_values.mpr hget, rfl⟩
  rw [IndexOf, perm_ext_iff_of_nodup index.entries_nodup hnodup]
  constructor
  · intro h key id
    rw [h, hmem]
  · rintro h ⟨key, id⟩
    rw [h key id, hmem]

/-- No other connection's key ends with the id. -/
def Clear (id : Str) : Prop :=
  ∀ other connection, connections.get other = some connection → other ≠ id →
    ¬ ('|' :: id) <:+ keyOf connection

/-- No other connection has the key. -/
def Fresh (id key : Str) : Prop :=
  ∀ other connection, connections.get other = some connection → other ≠ id →
    keyOf connection ≠ key

section Index

variable {keyOf : SavedConnection α δ → Str}
  {connections : Table Str (SavedConnection α δ)} {index : Table Str Str}

theorem mem_removeIndexEntries {id key value : Str} :
    (key, value) ∈ (removeIndexEntries id index).entries ↔
      (key, value) ∈ index.entries ∧ value ≠ id ∧ ¬ ('|' :: id) <:+ key := by
  rw [removeIndexEntries, Table.mem_removeIf, Bool.or_eq_false_iff,
    beq_eq_false_iff_ne, ← isSuffixOf_iff_suffix, Bool.not_eq_true]

theorem Reflects.remove (h : Reflects keyOf connections index) {id : Str}
    (hclear : Clear keyOf connections id) :
    Reflects keyOf (connections.remove id) (removeIndexEntries id index) := by
  intro key value
  rw [mem_removeIndexEntries, h key value, Table.get_remove]
  constructor
  · rintro ⟨⟨connection, hget, hkey⟩, hne, -⟩
    rw [if_neg hne]
    exact ⟨connection, hget, hkey⟩
  · rintro ⟨connection, hget, rfl⟩
    by_cases heq : value = id
    · rw [if_pos heq] at hget
      cases hget
    · rw [if_neg heq] at hget
      exact ⟨⟨connection, hget, rfl⟩, heq, hclear value connection hget heq⟩

theorem Reflects.insert (h : Reflects keyOf connections index) {id : Str}
    (hclear : Clear keyOf connections id) {connection : SavedConnection α δ}
    (hfresh : Fresh keyOf connections id (keyOf connection)) :
    Reflects keyOf (connections.insert id connection)
      ((removeIndexEntries id index).insert (keyOf connection) id) := by
  intro key value
  have hremoved := h.remove hclear key value
  rw [Table.get_remove] at hremoved
  rw [Table.mem_insert, Table.get_insert, hremoved]
  by_cases heq : value = id
  · subst heq
    simp [eq_comm]
  · simp only [Prod.mk.injEq, heq, and_false, false_or, if_false]
    constructor
    · rintro ⟨-, hget⟩
      exact hget
    · rintro ⟨other, hget, rfl⟩
      exact ⟨hfresh value other hget heq, other, hget, rfl⟩

end Index

theorem split_unique {front front' back back' : Str} (h : '|' ∉ front)
    (h' : '|' ∉ front') (heq : front ++ '|' :: back = front' ++ '|' :: back') :
    front = front' ∧ back = back' := by
  induction front generalizing front' with
  | nil =>
    cases front' with
    | nil => exact ⟨rfl, (cons.inj heq).2⟩
    | cons c rest =>
      have hc := (cons.inj heq).1
      exact absurd (hc ▸ mem_cons_self) h'
  | cons c rest ih =>
    cases front' with
    | nil =>
      have hc := (cons.inj heq).1
      exact absurd (hc ▸ mem_cons_self) h
    | cons c' rest' =>
      obtain ⟨rfl, htail⟩ := cons.inj heq
      obtain ⟨rfl, hback⟩ := ih
        (fun hmem => h (mem_cons_of_mem c hmem))
        (fun hmem => h' (mem_cons_of_mem c hmem)) htail
      exact ⟨rfl, hback⟩

/-- What begins with a bar and ends a key lies behind the key's first bar. -/
theorem suffix_behind_bar {front id back : Str} (h : '|' ∉ front)
    (hsuffix : ('|' :: id) <:+ front ++ '|' :: back) :
    ('|' :: id) <:+ '|' :: back := by
  rcases suffix_or_suffix_of_suffix hsuffix
    (suffix_append front ('|' :: back)) with hbehind | hlonger
  · exact hbehind
  · obtain ⟨part, hpart⟩ := hlonger
    cases part with
    | nil => exact ⟨[], hpart.symm⟩
    | cons c rest =>
      exfalso
      obtain ⟨before, hbefore⟩ := hsuffix
      have hwhole : before ++ (c :: rest) = front := by
        have hassoc : (before ++ (c :: rest)) ++ '|' :: back =
            front ++ '|' :: back := by
          rw [append_assoc, hpart, hbefore]
        exact append_cancel_right hassoc
      have hbar : c = '|' := (cons.inj hpart).1
      apply h
      rw [← hwhole, hbar]
      simp

theorem padded_barFree (value : Nat) : '|' ∉ padded value := by
  rw [padded, mem_append]
  rintro (hzero | hdigit)
  · exact absurd (eq_of_mem_replicate hzero) (by decide)
  · exact absurd (RustStr.isAsciiDigit_of_mem_decimal value _ hdigit)
      (by decide)

theorem protocolName_barFree (protocol : Protocol) : '|' ∉ protocol.name := by
  cases protocol <;> decide

section

variable {keyOf : SavedConnection α δ → Str} {front : SavedConnection α δ → Str}
    (hkey : ∀ connection, keyOf connection = front connection ++ '|' :: connection.id)
    (hfront : ∀ connection, '|' ∉ front connection)
include hkey hfront

/-- The keys by last use and by protocol are clear of an id if the key by group
is, and they only coincide for the same id. -/
theorem clear_of_groupKey
    {connections : Table Str (SavedConnection α δ)} {id : Str}
    (h : Clear groupKey connections id) : Clear keyOf connections id := by
  intro other connection hget hne hsuffix
  apply h other connection hget hne
  rw [hkey] at hsuffix
  exact (suffix_behind_bar (hfront connection) hsuffix).trans
    (suffix_append _ _)

theorem fresh_of_front {connections : Table Str (SavedConnection α δ)}
    (hids : connections.KeyedBy SavedConnection.id)
    (connection : SavedConnection α δ) :
    Fresh keyOf connections connection.id (keyOf connection) := by
  intro other stored hget hne heq
  rw [hkey, hkey] at heq
  have hid := (split_unique (hfront stored) (hfront connection) heq).2
  apply hne
  rw [← hid]
  exact (hids.key_of_get hget).symm

end

variable (connection : SavedConnection α δ)

theorem lastUsedKey_split :
    lastUsedKey connection =
      padded (u64Max - connection.lastUsedAtMs.getD 0) ++
        '|' :: connection.id := rfl

theorem protocolKey_split :
    protocolKey connection =
      connection.protocol.name ++ '|' :: connection.id := rfl

namespace Coherent

open List

variable {s : Sessions α δ}

theorem reflects (h : Coherent s) :
    Reflects groupKey s.connections s.byGroup ∧
      Reflects lastUsedKey s.connections s.byLastUsed ∧
      Reflects protocolKey s.connections s.byProtocol :=
  ⟨(indexOf_iff_reflects h.ids).mp h.byGroup,
    (indexOf_iff_reflects h.ids).mp h.byLastUsed,
    (indexOf_iff_reflects h.ids).mp h.byProtocol⟩

theorem of_reflects (hids : s.connections.KeyedBy SavedConnection.id)
    (hgroup : Reflects groupKey s.connections s.byGroup)
    (hused : Reflects lastUsedKey s.connections s.byLastUsed)
    (hprotocol : Reflects protocolKey s.connections s.byProtocol) :
    Coherent s where
  ids := hids
  byGroup := (indexOf_iff_reflects hids).mpr hgroup
  byLastUsed := (indexOf_iff_reflects hids).mpr hused
  byProtocol := (indexOf_iff_reflects hids).mpr hprotocol

theorem saveConnection (h : Coherent s) (now : Nat)
    {connection : SavedConnection α δ}
    (hclear : Clear groupKey s.connections connection.id)
    (hfresh : Fresh groupKey s.connections connection.id
      (groupKey connection)) :
    Coherent (s.saveConnection now connection) := by
  obtain ⟨hgroup, hused, hprotocol⟩ := h.reflects
  apply of_reflects
  · exact h.ids.insert (s.storedConnection now connection)
  · exact hgroup.insert hclear hfresh
  · exact hused.insert
      (clear_of_groupKey lastUsedKey_split (fun _ => padded_barFree _) hclear)
      (fresh_of_front lastUsedKey_split (fun _ => padded_barFree _) h.ids
        (s.storedConnection now connection))
  · exact hprotocol.insert (clear_of_groupKey protocolKey_split
        (fun _ => protocolName_barFree _) hclear)
      (fresh_of_front protocolKey_split (fun _ => protocolName_barFree _) h.ids
        (s.storedConnection now connection))

theorem deleteConnection (h : Coherent s) {id : Str}
    (hclear : Clear groupKey s.connections id) :
    Coherent (s.deleteConnection id) := by
  obtain ⟨hgroup, hused, hprotocol⟩ := h.reflects
  apply of_reflects
  · exact h.ids.removeIf _
  · exact hgroup.remove hclear
  · exact hused.remove
      (clear_of_groupKey lastUsedKey_split (fun _ => padded_barFree _) hclear)
  · exact hprotocol.remove (clear_of_groupKey protocolKey_split
        (fun _ => protocolName_barFree _) hclear)

theorem of_groups (h : Coherent s) (groups : Table Str Group) :
    Coherent { s with groups } where
  ids := h.ids
  byGroup := h.byGroup
  byLastUsed := h.byLastUsed
  byProtocol := h.byProtocol

theorem fresh_stored (h : Coherent s) {id : Str}
    {connection : SavedConnection α δ}
    (hget : s.connections.get id = some connection) :
    Fresh groupKey s.connections id (groupKey connection) := by
  intro other stored hother hne heq
  have hmine := (h.reflects.1 (groupKey connection) id).mpr
    ⟨connection, hget, rfl⟩
  have htheirs := (h.reflects.1 (groupKey connection) other).mpr
    ⟨stored, hother, heq⟩
  exact hne (Table.value_unique htheirs hmine)

theorem markConnectionUsed (h : Coherent s) (usedAt now : Nat) {id : Str}
    (hclear : (s.connections.get id).isSome = true →
      Clear groupKey s.connections id) :
    Coherent (s.markConnectionUsed usedAt now id) := by
  rw [Sessions.markConnectionUsed]
  cases hget : s.connections.get id with
  | none => exact h
  | some connection =>
    have hid : connection.id = id := h.ids.key_of_get hget
    rw [hget] at hclear
    apply h.saveConnection now
    · change Clear groupKey s.connections connection.id
      rw [hid]
      exact hclear rfl
    · change Fresh groupKey s.connections connection.id (groupKey connection)
      rw [hid]
      exact h.fresh_stored hget

theorem nil : Coherent ({} : Sessions α δ) where
  ids := Table.keyedBy_empty
  byGroup := Perm.nil
  byLastUsed := Perm.nil
  byProtocol := Perm.nil

theorem replaced (now : Nat) (groups : List Group) :
    Coherent (Sessions.replaced now groups : Sessions α δ) := by
  have hall : ∀ s : Sessions α δ, Coherent s →
      Coherent (groups.foldl (fun s group => s.saveGroup now group) s) := by
    induction groups with
    | nil => exact fun s hs => hs
    | cons group rest ih => exact fun s hs => ih _ (hs.of_groups _)
  exact hall {} nil

end Coherent

inductive SessionsOp (α δ : Type) where
  | saveConnection (now : Nat) (connection : SavedConnection α δ)
  | deleteConnection (id : Str)
  | saveGroup (now : Nat) (group : Group)
  | deleteGroup (id : Str)
  | replaceSessions (now : Nat) (groups : List Group)
      (connections : List (SavedConnection α δ))
  | markConnectionUsed (usedAt now : Nat) (id : Str)
  | listConnectionsByGroup (groupId : Option Str)

variable (s : Sessions α δ)

def SessionsOp.apply : SessionsOp α δ → Sessions α δ
  | .saveConnection now connection => s.saveConnection now connection
  | .deleteConnection id => s.deleteConnection id
  | .saveGroup now group => s.saveGroup now group
  | .deleteGroup id => s.deleteGroup id
  | .replaceSessions now groups connections =>
    .replaceSessions now groups connections
  | .markConnectionUsed usedAt now id => s.markConnectionUsed usedAt now id
  | .listConnectionsByGroup _ => s

/-- The connections can be saved one after the other. -/
def SavesApart (now : Nat) :
    Sessions α δ → List (SavedConnection α δ) → Prop
  | _, [] => True
  | s, connection :: rest =>
    (Clear groupKey s.connections connection.id ∧
      Fresh groupKey s.connections connection.id (groupKey connection)) ∧
    SavesApart now (s.saveConnection now connection) rest

/-- The ids and the group of the operation are not mistaken for parts of other
connections' keys. -/
def Sessions.Apart : SessionsOp α δ → Prop
  | .saveConnection _ connection =>
    Clear groupKey s.connections connection.id ∧
      Fresh groupKey s.connections connection.id (groupKey connection)
  | .deleteConnection id => Clear groupKey s.connections id
  | .replaceSessions now groups connections =>
    SavesApart now (.replaced now groups) connections
  | .markConnectionUsed _ _ id =>
    (s.connections.get id).isSome = true → Clear groupKey s.connections id
  | .listConnectionsByGroup groupId =>
    ∀ connection ∈ s.connections.values,
      (groupId.getD [] ++ ['|']) <+: groupKey connection →
      connection.groupId = groupId
  | .saveGroup _ _ | .deleteGroup _ => True

theorem Coherent.saveConnections {s : Sessions α δ} (h : Coherent s)
    (now : Nat) {connections : List (SavedConnection α δ)}
    (hapart : SavesApart now s connections) :
    Coherent (s.saveConnections now connections) := by
  induction connections generalizing s with
  | nil => exact h
  | cons connection rest ih =>
    obtain ⟨⟨hclear, hfresh⟩, hrest⟩ := hapart
    exact ih (h.saveConnection now hclear hfresh) hrest

theorem Coherent.apply {s : Sessions α δ} (h : Coherent s)
    {op : SessionsOp α δ} (hapart : s.Apart op) : Coherent (op.apply s) := by
  cases op with
  | saveConnection now connection =>
    exact h.saveConnection now hapart.1 hapart.2
  | deleteConnection id => exact h.deleteConnection hapart
  | saveGroup now group => exact h.of_groups _
  | deleteGroup id => exact h.of_groups _
  | replaceSessions now groups connections =>
    exact (Coherent.replaced now groups).saveConnections now hapart
  | markConnectionUsed usedAt now id =>
    exact h.markConnectionUsed usedAt now hapart
  | listConnectionsByGroup groupId => exact h

/-- The listing of a group has its connections, each once. -/
def ListsGroup (groupId : Option Str) : Prop :=
  (s.listConnectionsByGroup groupId).Perm
    (s.connections.values.filter fun connection =>
      connection.groupId == groupId)

theorem prefix_groupKey :
    (connection.groupId.getD [] ++ ['|']) <+: groupKey connection := by
  refine ⟨paddedI64 connection.sortOrder ++ '|' :: connection.id, ?_⟩
  simp [groupKey]

theorem Coherent.listsGroup {s : Sessions α δ} (h : Coherent s)
    {groupId : Option Str}
    (hapart : s.Apart (.listConnectionsByGroup groupId)) :
    ListsGroup s groupId := by
  have hscan := ((h.byGroup.filter fun entry =>
    (groupId.getD [] ++ ['|']).isPrefixOf entry.1).filterMap fun entry =>
      s.connections.get entry.2)
  apply hscan.trans
  rw [filter_map, filterMap_map]
  have hget : ∀ connection ∈ s.connections.values.filter
        ((fun entry : Str × Str =>
          (groupId.getD [] ++ ['|']).isPrefixOf entry.1) ∘
          fun connection => (groupKey connection, connection.id)),
      ((fun entry : Str × Str => s.connections.get entry.2) ∘
        fun connection : SavedConnection α δ =>
          (groupKey connection, connection.id)) connection =
        some connection := by
    intro connection hmem
    exact h.ids.mem_values.mp (mem_filter.mp hmem).1
  rw [filterMap_congr hget, filterMap_some]
  apply Perm.of_eq
  apply filter_congr
  intro connection hmem
  rw [Bool.eq_iff_iff, Function.comp_apply, isPrefixOf_iff_prefix, beq_iff_eq]
  constructor
  · exact hapart connection hmem
  · rintro rfl
    exact prefix_groupKey connection

/-- The tables under the operations. -/
def sessions (α δ : Type) : System (Sessions α δ) (SessionsOp α δ) where
  init s := s = {}
  step s op := some (op.apply s)

/-- The operation leaves the indexes coherent, and a listing is right. -/
def Sessions.Right (op : SessionsOp α δ) : Prop :=
  Coherent (op.apply s) ∧
    ∀ groupId, op = .listConnectionsByGroup groupId → ListsGroup s groupId

theorem Coherent.along {s : Sessions α δ} (hs : Coherent s)
    {ops : List (SessionsOp α δ)}
    (hapart : (sessions α δ).Along Sessions.Apart s ops) :
    (sessions α δ).Along Sessions.Right s ops := by
  induction ops generalizing s with
  | nil => trivial
  | cons op rest ih =>
    have hnext := hs.apply hapart.1
    refine ⟨⟨hnext, ?_⟩, ?_⟩
    · rintro groupId rfl
      exact hs.listsGroup hapart.1
    · intro t ht
      obtain rfl : op.apply s = t := Option.some.inj ht
      exact ih hnext (hapart.2 _ rfl)

/-- In a run of operations that are kept apart, the indexes stay coherent and
every listing has exactly the connections of its group. -/
theorem indexes_coherent {ops : List (SessionsOp α δ)}
    (hapart : (sessions α δ).Along Sessions.Apart {} ops) :
    (sessions α δ).Along Sessions.Right {} ops :=
  Coherent.nil.along hapart

section BarFree

/-- A group id that is not empty and has no bar. -/
def plainGroup (groupId : Option Str) : Bool :=
  groupId.all fun groupId => !groupId.isEmpty && !groupId.contains '|'

def SavedConnection.plain (connection : SavedConnection α δ) : Bool :=
  !connection.id.contains '|' && plainGroup connection.groupId

/-- No id and no group id of the operation has a bar, and no group id is
empty. -/
def SessionsOp.plain : SessionsOp α δ → Bool
  | .saveConnection _ connection => connection.plain
  | .deleteConnection id => !id.contains '|'
  | .replaceSessions _ _ connections => connections.all SavedConnection.plain
  | .markConnectionUsed _ _ id => !id.contains '|'
  | .listConnectionsByGroup groupId => plainGroup groupId
  | .saveGroup _ _ | .deleteGroup _ => true

/-- All stored connections are plain, under their ids. -/
def Sessions.Plain (s : Sessions α δ) : Prop :=
  ∀ id connection, s.connections.get id = some connection →
    connection.id = id ∧ connection.plain = true

variable {connection : SavedConnection α δ}

theorem SavedConnection.plain_id
    (h : connection.plain = true) : '|' ∉ connection.id := by
  simp only [plain, Bool.and_eq_true, Bool.not_eq_true'] at h
  simpa using h.1

theorem SavedConnection.plain_group
    (h : connection.plain = true) : plainGroup connection.groupId = true := by
  simp only [plain, Bool.and_eq_true] at h
  exact h.2

theorem plainGroup_barFree {groupId : Option Str}
    (h : plainGroup groupId = true) : '|' ∉ groupId.getD [] := by
  cases groupId with
  | none => exact not_mem_nil
  | some groupId =>
    simp only [plainGroup, Option.all_some, Bool.and_eq_true] at h
    simpa using h.2

theorem plainGroup_unique {first second : Option Str}
    (hfirst : plainGroup first = true) (hsecond : plainGroup second = true)
    (h : first.getD [] = second.getD []) : first = second := by
  cases first with
  | none =>
    cases second with
    | none => rfl
    | some groupId =>
      obtain rfl : [] = groupId := h
      cases hsecond
  | some groupId =>
    cases second with
    | none =>
      obtain rfl : groupId = [] := h
      cases hfirst
    | some other => exact congrArg some h

/-- A key ends with an id without bars only if it is the connection's. -/
theorem id_of_suffix {front id own : Str} (hid : '|' ∉ id) (hown : '|' ∉ own)
    (h : ('|' :: id) <:+ front ++ '|' :: own) : own = id := by
  have honly : ∀ {a b : Str}, '|' ∉ b → ('|' :: a) <:+ '|' :: b → a = b := by
    intro a b hb hsuffix
    rcases suffix_cons_iff.mp hsuffix with heq | hlater
    · exact (cons.inj heq).2
    · exact absurd (hlater.subset mem_cons_self) hb
  rcases suffix_or_suffix_of_suffix h
    (suffix_append front ('|' :: own)) with hshort | hlong
  · exact (honly hown hshort).symm
  · exact honly hid hlong

open SavedConnection

theorem Sessions.Plain.clear {s : Sessions α δ} (h : s.Plain) {id : Str}
    (hid : '|' ∉ id) : Clear groupKey s.connections id := by
  intro other connection hget hne hsuffix
  obtain ⟨rfl, hplain⟩ := h other connection hget
  exact hne (id_of_suffix hid (plain_id hplain) hsuffix)

theorem Sessions.Plain.fresh {s : Sessions α δ} (h : s.Plain)
    (hplain : connection.plain = true) :
    Fresh groupKey s.connections connection.id (groupKey connection) := by
  intro other stored hget hne heq
  apply h.clear (plain_id hplain) other stored hget hne
  rw [heq]
  exact suffix_append _ _

theorem Sessions.Plain.saveConnection {s : Sessions α δ} (h : s.Plain)
    (now : Nat) (hplain : connection.plain = true) :
    (s.saveConnection now connection).Plain := by
  intro id stored hget
  change (s.connections.insert connection.id
    (s.storedConnection now connection)).get id = some stored at hget
  rw [Table.get_insert] at hget
  split at hget
  · next heq =>
      obtain rfl := Option.some.inj hget
      exact ⟨heq.symm, hplain⟩
  · exact h id stored hget

theorem Sessions.Plain.replaced (now : Nat) (groups : List Group) :
    (Sessions.replaced now groups : Sessions α δ).Plain := by
  have hnone : ∀ s : Sessions α δ, s.connections = .empty →
      (groups.foldl (fun s group => s.saveGroup now group) s).connections =
        .empty := by
    induction groups with
    | nil => exact fun s hs => hs
    | cons group rest ih => exact fun s hs => ih _ hs
  intro id connection hget
  rw [Sessions.replaced, hnone {} rfl] at hget
  cases hget

theorem Sessions.Plain.saveConnections {s : Sessions α δ} (h : s.Plain)
    (now : Nat) {connections : List (SavedConnection α δ)}
    (hplain : connections.all SavedConnection.plain = true) :
    SavesApart now s connections ∧ (s.saveConnections now connections).Plain := by
  induction connections generalizing s with
  | nil => exact ⟨trivial, h⟩
  | cons connection rest ih =>
    rw [all_cons, Bool.and_eq_true] at hplain
    obtain ⟨hapart, hend⟩ := ih (h.saveConnection now hplain.1) hplain.2
    exact ⟨⟨⟨h.clear (plain_id hplain.1), h.fresh hplain.1⟩, hapart⟩, hend⟩

theorem Sessions.Plain.apply {s : Sessions α δ} (h : s.Plain)
    {op : SessionsOp α δ} (hplain : op.plain = true) :
    s.Apart op ∧ (op.apply s).Plain := by
  cases op with
  | saveConnection now connection =>
    exact ⟨⟨h.clear (plain_id hplain), h.fresh hplain⟩,
      h.saveConnection now hplain⟩
  | deleteConnection id =>
    refine ⟨h.clear (by simpa [SessionsOp.plain] using hplain), ?_⟩
    intro other connection hget
    change (s.connections.remove id).get other = some connection at hget
    rw [Table.get_remove] at hget
    split at hget
    · cases hget
    · exact h other connection hget
  | saveGroup now group => exact ⟨trivial, h⟩
  | deleteGroup id => exact ⟨trivial, h⟩
  | replaceSessions now groups connections =>
    exact (Sessions.Plain.replaced now groups).saveConnections now hplain
  | markConnectionUsed usedAt now id =>
    refine ⟨fun _ => h.clear (by simpa [SessionsOp.plain] using hplain), ?_⟩
    rw [SessionsOp.apply, Sessions.markConnectionUsed]
    cases hget : s.connections.get id with
    | none => exact h
    | some connection =>
      exact h.saveConnection now (h id connection hget).2
  | listConnectionsByGroup groupId =>
    refine ⟨?_, h⟩
    rintro connection hmem ⟨rest, hrest⟩
    obtain ⟨entry, hentry, rfl⟩ := mem_map.mp hmem
    have hstored := (h _ _ (Table.get_eq_some_iff.mpr hentry)).2
    have hgroup := plain_group hstored
    rw [groupKey, append_assoc, append_assoc] at hrest
    exact plainGroup_unique hgroup hplain
      (split_unique (plainGroup_barFree hplain) (plainGroup_barFree hgroup)
        hrest).1.symm

theorem apart_of_plain {s : Sessions α δ} (h : s.Plain)
    {ops : List (SessionsOp α δ)} (hplain : ops.all SessionsOp.plain = true) :
    (sessions α δ).Along Sessions.Apart s ops := by
  induction ops generalizing s with
  | nil => trivial
  | cons op rest ih =>
    rw [all_cons, Bool.and_eq_true] at hplain
    obtain ⟨hapart, hnext⟩ := h.apply hplain.1
    refine ⟨hapart, fun t ht => ?_⟩
    obtain rfl : op.apply s = t := Option.some.inj ht
    exact ih hnext hplain.2

end BarFree

/-- Two connections are saved, one is used and their group is listed. -/
def plainOps : List (SessionsOp Unit Unit) :=
  [.saveConnection 1
      { id := "one".toList, details := (), protocol := .ssh
        groupId := some "group-a".toList },
    .saveConnection 2
      { id := "two".toList, details := (), protocol := .telnet },
    .markConnectionUsed 3 3 "one".toList,
    .listConnectionsByGroup (some "group-a".toList),
    .deleteConnection "one".toList]

theorem plainOps_right :
    (sessions Unit Unit).Along Sessions.Right {} plainOps :=
  indexes_coherent (apart_of_plain (Sessions.Plain.replaced 0 []) (by decide))

/-- Saving `b` removes the index entries of `a|b`; and a connection of the
group `a|b` is listed for the group `a`. -/
theorem bar_confuses :
    ¬ (sessions Unit Unit).Along Sessions.Right {} [.saveConnection 1
            { id := "a|b".toList, details := (), protocol := .ssh },
          .saveConnection 2
            { id := "b".toList, details := (), protocol := .ssh }] ∧
      ¬ (sessions Unit Unit).Along Sessions.Right {} [.saveConnection 1
            { id := "x".toList, details := (), protocol := .ssh
              groupId := some "a|b".toList },
          .listConnectionsByGroup (some "a".toList)] := by
  constructor
  · rintro ⟨-, hrest⟩
    obtain ⟨⟨hcoherent, -⟩, -⟩ := hrest _ rfl
    have hlength := hcoherent.byProtocol.length_eq
    revert hlength
    decide +kernel
  · rintro ⟨-, hrest⟩
    obtain ⟨⟨-, hlists⟩, -⟩ := hrest _ rfl
    have hlength := (hlists _ rfl).length_eq
    revert hlength
    decide +kernel

end NiceTerm.Storage
