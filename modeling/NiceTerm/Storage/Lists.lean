/-
The lists that are read back from the stored sessions.  They are sorted, every
record has been stamped when it was saved, and each list is the one that was
saved exactly if its records already look like that.
-/
import Mathlib.Data.List.Sort
import Mathlib.Data.Prod.Lex
import Mathlib.Order.WithBot
import NiceTerm.Storage.Sessions

namespace List

variable {α ρ : Type} [LinearOrder ρ] {rank : α → ρ}

/-- `sort_by` along a rank. -/
def sortBy (rank : α → ρ) (l : List α) : List α :=
  l.mergeSort fun first second => decide (rank first ≤ rank second)

theorem sortBy_perm (rank : α → ρ) (l : List α) : (l.sortBy rank).Perm l :=
  mergeSort_perm l _

theorem pairwise_sortBy (rank : α → ρ) (l : List α) :
    (l.sortBy rank).Pairwise fun first second => rank first ≤ rank second := by
  have hsorted : (l.sortBy rank).Pairwise fun first second =>
      decide (rank first ≤ rank second) = true := by
    refine pairwise_mergeSort (fun a b c hab hbc => ?_) (fun a b => ?_) l
    · exact decide_eq_true
        ((of_decide_eq_true hab).trans (of_decide_eq_true hbc))
    · rw [Bool.or_eq_true, decide_eq_true_eq, decide_eq_true_eq]
      exact le_total _ _
  exact hsorted.imp of_decide_eq_true

/-- A sorted list is the result for each of its permutations, if the rank tells
its elements apart. -/
theorem sortBy_eq {l sorted : List α}
    (hrank : ∀ a ∈ sorted, ∀ b ∈ sorted, rank a = rank b → a = b)
    (hperm : l.Perm sorted)
    (hsorted : sorted.Pairwise fun first second => rank first ≤ rank second) :
    l.sortBy rank = sorted := by
  have hall := (sortBy_perm rank l).trans hperm
  refine hall.eq_of_pairwise (fun a b ha hb hab hba => ?_)
    (pairwise_sortBy rank l) hsorted
  exact hrank a (hall.mem_iff.mp ha) b hb (le_antisymm hab hba)

end List

namespace NiceTerm.Storage

open List Option
open RustStr (Str)

variable {α δ : Type}

/-- The order of `list_groups`. -/
def groupRank (group : Group) : Int ×ₗ Str ×ₗ Str :=
  toLex (group.sortOrder, toLex (group.name, group.id))

/-- The order of `sort_connections`; `name` reads the name of a connection. -/
def connectionRank (name : δ → Str) (connection : SavedConnection α δ) :
    WithBot Str ×ₗ Int ×ₗ Str ×ₗ Str :=
  toLex (connection.groupId, toLex (connection.sortOrder,
    toLex (name connection.details, connection.id)))

namespace Sessions

def listGroups (s : Sessions α δ) : List Group :=
  s.groups.values.sortBy groupRank

/-- The password of a connection, from its record if there is one. -/
def hydrateAuth (auth : ConnectionAuth α) :
    Option ConnectionPasswordRecord → ConnectionAuth α
  | some record =>
    { auth with password := some record.password, hasPassword := true }
  | none => auth

def hydrateConnectionPassword (s : Sessions α δ)
    (connection : SavedConnection α δ) : SavedConnection α δ :=
  { connection with
    auth := connection.auth.map fun auth =>
      hydrateAuth auth (s.passwords.get connection.id) }

/-- `list_connections`, with the passwords that `load_sessions` puts back. -/
def loadConnections (name : δ → Str) (s : Sessions α δ) :
    List (SavedConnection α δ) :=
  (s.connections.values.sortBy (connectionRank name)).map
    s.hydrateConnectionPassword

end Sessions

/-- A group as `save_group` leaves it. -/
def Group.Settled (now : Nat) (group : Group) : Prop :=
  group.createdAtMs.isSome = true ∧ group.updatedAtMs = some now

variable {now : Nat}

open Sessions

theorem saveGroup_settled {group : Group} (h : group.Settled now)
    (s : Sessions α δ) :
    s.saveGroup now group =
      { s with groups := s.groups.insert group.id group } := by
  obtain ⟨created, hcreated⟩ := isSome_iff_exists.mp h.1
  have hsame : { group with
      createdAtMs := some created
      updatedAtMs := some now } = group := by
    rw [← hcreated, ← h.2]
  rw [saveGroup]
  simp only [hcreated, some_or]
  rw [hsame]

/-- What the saves of groups keep up. -/
structure GroupsSettled (now : Nat) (s : Sessions α δ) : Prop where
  ids : s.groups.KeyedBy Group.id
  settled : ∀ group ∈ s.groups.values, group.Settled now

variable {s : Sessions α δ}

theorem GroupsSettled.saveGroup (h : GroupsSettled now s) (group : Group) :
    GroupsSettled now (s.saveGroup now group) := by
  refine ⟨h.ids.insert _, fun other hother => ?_⟩
  rcases h.ids.mem_insert.mp hother with rfl | ⟨-, hold⟩
  · refine ⟨?_, rfl⟩
    simp
  · exact h.settled other hold

open Table

theorem groupsSettled_replaced (now : Nat) (groups : List Group) :
    GroupsSettled now (replaced now groups : Sessions α δ) := by
  have hfold : ∀ s : Sessions α δ, GroupsSettled now s → GroupsSettled now
      (groups.foldl (fun s group => s.saveGroup now group) s) := by
    induction groups with
    | nil => exact fun s hs => hs
    | cons group rest ih => exact fun s hs => ih _ (hs.saveGroup group)
  refine hfold {} ⟨keyedBy_empty, fun group hmem => ?_⟩
  exact absurd hmem not_mem_nil

variable {groups : List Group}

theorem replaced_groups (h : ∀ group ∈ groups, group.Settled now) :
    (replaced now groups : Sessions α δ).groups =
      collect Group.id id groups := by
  have hfold : ∀ s : Sessions α δ,
      (groups.foldl (fun s group => s.saveGroup now group) s).groups =
        groups.foldl (fun table group => table.insert group.id group)
          s.groups := by
    induction groups with
    | nil => exact fun s => rfl
    | cons group rest ih =>
      intro s
      have hgroup := h group mem_cons_self
      have hrest := ih fun other hother =>
        h other (mem_cons_of_mem group hother)
      rw [foldl_cons, foldl_cons, hrest, saveGroup_settled hgroup]
  exact hfold {}

theorem saveConnections_groups (s : Sessions α δ) (now : Nat)
    (connections : List (SavedConnection α δ)) :
    (s.saveConnections now connections).groups = s.groups := by
  induction connections generalizing s with
  | nil => rfl
  | cons connection rest ih => exact ih (s.saveConnection now connection)

/-- Records with distinct ids, in the order in which they are listed. -/
structure Listed {β ρ : Type} [LinearOrder ρ] (key : β → Str) (rank : β → ρ)
    (records : List β) : Prop where
  ids : (records.map key).Nodup
  sorted : records.Pairwise fun first second => rank first ≤ rank second

theorem Listed.sortBy_eq {β ρ : Type} [LinearOrder ρ] {key : β → Str}
    {rank : β → ρ} (hrank : ∀ a b, rank a = rank b → key a = key b)
    {records l : List β} (h : Listed key rank records)
    (hperm : l.Perm records) : l.sortBy rank = records := by
  refine List.sortBy_eq (fun a ha b hb heq => ?_) hperm h.sorted
  exact inj_on_of_nodup_map h.ids ha hb (hrank a b heq)

theorem listed_sortBy {β ρ : Type} [LinearOrder ρ] {key : β → Str}
    (rank : β → ρ) {l : List β} (h : (l.map key).Nodup) :
    Listed key rank (l.sortBy rank) :=
  ⟨((List.sortBy_perm rank l).map key).nodup_iff.mpr h,
    List.pairwise_sortBy rank l⟩

theorem groupRank_id {first second : Group}
    (h : groupRank first = groupRank second) : first.id = second.id := by
  have hpair := congrArg (fun rank => (ofLex (ofLex rank).2).2) h
  exact hpair

variable {connections : List (SavedConnection α δ)}

/-- The groups that are read back are the ones that were saved exactly if they
are settled, and listed as they are read. -/
theorem listGroups_eq_iff :
    (replaceSessions now groups connections).listGroups = groups ↔
      Listed Group.id groupRank groups ∧
        ∀ group ∈ groups, group.Settled now := by
  rw [Sessions.listGroups, replaceSessions, saveConnections_groups]
  constructor
  · intro h
    have hsettled := groupsSettled_replaced (α := α) (δ := δ) now groups
    have hlisted := listed_sortBy groupRank hsettled.ids.keys_nodup
    rw [h] at hlisted
    refine ⟨hlisted, fun group hmem => hsettled.settled group ?_⟩
    rw [← h] at hmem
    exact (List.sortBy_perm groupRank _).mem_iff.mp hmem
  · rintro ⟨hlisted, hsettled⟩
    rw [replaced_groups hsettled]
    refine hlisted.sortBy_eq (fun _ _ => groupRank_id) ?_
    refine (perm_ext_iff_of_nodup ?_ hlisted.ids.of_map).mpr fun group =>
      mem_values_collect hlisted.ids
    exact (keyedBy_collect groups).values_nodup

/-- A connection as `load_sessions` gives it back: stamped, and with a password
exactly if it says so. -/
structure SavedConnection.Settled (now : Nat)
    (connection : SavedConnection α δ) : Prop where
  created : connection.createdAtMs.isSome = true
  updated : connection.updatedAtMs = some now
  noPassword : ∀ auth, connection.auth = some auth → auth.password = none →
    auth.hasPassword = false
  password : ∀ auth password, connection.auth = some auth →
    auth.password = some password → password ≠ [] ∧ auth.hasPassword = true

/-- What is left of a connection in its own table. -/
def SavedConnection.withoutPassword (connection : SavedConnection α δ) :
    SavedConnection α δ :=
  { connection with
    auth := connection.auth.map fun auth => { details := auth.details } }

variable {connection : SavedConnection α δ}

theorem storedConnection_settled (h : connection.Settled now)
    (s : Sessions α δ) :
    s.storedConnection now connection = connection.withoutPassword := by
  obtain ⟨created, hcreated⟩ := isSome_iff_exists.mp h.created
  rw [storedConnection, SavedConnection.withoutPassword]
  simp only [hcreated, some_or, h.updated]

/-- What the saves of connections keep up. -/
structure ConnectionsSettled (now : Nat) (s : Sessions α δ) : Prop where
  ids : s.connections.KeyedBy SavedConnection.id
  created : ∀ connection ∈ s.connections.values,
    connection.createdAtMs.isSome = true
  updated : ∀ connection ∈ s.connections.values,
    connection.updatedAtMs = some now
  bare : ∀ connection ∈ s.connections.values, ∀ auth,
    connection.auth = some auth →
      auth.password = none ∧ auth.hasPassword = false
  passwords : ∀ id record, s.passwords.get id = some record →
    record.password ≠ []

theorem password_of_passwordRecord {record : ConnectionPasswordRecord}
    (h : passwordRecord now connection = some record) :
    record.password ≠ [] := by
  obtain ⟨password, hpassword, rfl⟩ := map_eq_some_iff.mp h
  have hne := (filter_eq_some_iff.mp hpassword).2
  simpa using hne

theorem get_saveConnection_passwords (s : Sessions α δ) (now : Nat)
    (connection : SavedConnection α δ) (id : Str) :
    (s.saveConnection now connection).passwords.get id =
      if id = connection.id then passwordRecord now connection
      else s.passwords.get id := by
  have hpasswords : (s.saveConnection now connection).passwords =
      (passwordRecord now connection).elim
        (s.passwords.remove connection.id)
        ((s.passwords.remove connection.id).insert connection.id) := by
    rw [saveConnection]
    cases passwordRecord now connection with
    | none => rfl
    | some record => rfl
  rw [hpasswords]
  by_cases hid : id = connection.id
  · rw [if_pos hid]
    cases passwordRecord now connection with
    | none => rw [elim_none, get_remove, if_pos hid]
    | some record => rw [elim_some, get_insert, if_pos hid]
  · rw [if_neg hid]
    cases passwordRecord now connection with
    | none => rw [elim_none, get_remove, if_neg hid]
    | some record =>
      rw [elim_some, get_insert, if_neg hid, get_remove,
        if_neg hid]

theorem saveConnection_connections (s : Sessions α δ) (now : Nat)
    (connection : SavedConnection α δ) :
    (s.saveConnection now connection).connections =
      s.connections.insert (s.storedConnection now connection).id
        (s.storedConnection now connection) := rfl

theorem ConnectionsSettled.saveConnection
    (h : ConnectionsSettled now s) (connection : SavedConnection α δ) :
    ConnectionsSettled now (s.saveConnection now connection) := by
  have hmem : ∀ other,
      other ∈ (s.saveConnection now connection).connections.values →
        other = s.storedConnection now connection ∨
          other ∈ s.connections.values := by
    intro other hother
    rw [saveConnection_connections, h.ids.mem_insert] at hother
    rcases hother with rfl | ⟨-, hold⟩
    · exact .inl rfl
    · exact .inr hold
  refine ⟨?_, fun other hother => ?_, fun other hother => ?_,
    fun other hother auth hauth => ?_, fun id record hrecord => ?_⟩
  · rw [saveConnection_connections]
    exact h.ids.insert _
  · rcases hmem other hother with rfl | hold
    · simp [storedConnection]
    · exact h.created other hold
  · rcases hmem other hother with rfl | hold
    · rfl
    · exact h.updated other hold
  · rcases hmem other hother with rfl | hold
    · obtain ⟨before, -, rfl⟩ := map_eq_some_iff.mp hauth
      exact ⟨rfl, rfl⟩
    · exact h.bare other hold auth hauth
  · rw [get_saveConnection_passwords] at hrecord
    split at hrecord
    · exact password_of_passwordRecord hrecord
    · exact h.passwords id record hrecord

theorem ConnectionsSettled.saveConnections
    (h : ConnectionsSettled now s) (connections : List (SavedConnection α δ)) :
    ConnectionsSettled now (s.saveConnections now connections) := by
  induction connections generalizing s with
  | nil => exact h
  | cons connection rest ih => exact ih (h.saveConnection connection)

theorem replaced_empty (now : Nat) (groups : List Group) :
    (replaced now groups : Sessions α δ).connections = .empty ∧
      (replaced now groups : Sessions α δ).passwords = .empty := by
  have hfold : ∀ s : Sessions α δ,
      (groups.foldl (fun s group => s.saveGroup now group) s).connections =
          s.connections ∧
        (groups.foldl (fun s group => s.saveGroup now group) s).passwords =
          s.passwords := by
    induction groups with
    | nil => exact fun s => ⟨rfl, rfl⟩
    | cons group rest ih => exact fun s => ih (s.saveGroup now group)
  exact hfold {}

theorem connectionsSettled_replaceSessions (now : Nat) (groups : List Group)
    (connections : List (SavedConnection α δ)) :
    ConnectionsSettled now (replaceSessions now groups connections) := by
  obtain ⟨hconnections, hpasswords⟩ := replaced_empty (α := α) (δ := δ) now
    groups
  refine ConnectionsSettled.saveConnections ⟨?_, ?_, ?_, ?_, ?_⟩ connections
  · rw [hconnections]
    exact keyedBy_empty
  · rw [hconnections]
    exact fun connection hmem => absurd hmem not_mem_nil
  · rw [hconnections]
    exact fun connection hmem => absurd hmem not_mem_nil
  · rw [hconnections]
    exact fun connection hmem => absurd hmem not_mem_nil
  · rw [hpasswords]
    intro id record hrecord
    cases hrecord

/-- What is read back is settled, whatever was saved. -/
theorem ConnectionsSettled.settled (h : ConnectionsSettled now s)
    (hmem : connection ∈ s.connections.values) :
    (s.hydrateConnectionPassword connection).Settled now := by
  refine ⟨h.created connection hmem, h.updated connection hmem, ?_, ?_⟩
  · intro auth hauth hnone
    obtain ⟨before, hbefore, rfl⟩ := map_eq_some_iff.mp hauth
    obtain ⟨-, hbare⟩ := h.bare _ hmem before hbefore
    cases hrecord : s.passwords.get connection.id with
    | none => exact hbare
    | some record =>
      rw [hrecord] at hnone
      cases hnone
  · intro auth password hauth hpassword
    obtain ⟨before, hbefore, rfl⟩ := map_eq_some_iff.mp hauth
    obtain ⟨hbare, -⟩ := h.bare _ hmem before hbefore
    cases hrecord : s.passwords.get connection.id with
    | none =>
      rw [hrecord] at hpassword
      cases hbare.symm.trans hpassword
    | some record =>
      rw [hrecord] at hpassword
      obtain rfl := some.inj hpassword
      exact ⟨h.passwords _ record hrecord, rfl⟩

variable {name : δ → Str}

theorem connectionRank_id {first second : SavedConnection α δ}
    (h : connectionRank name first = connectionRank name second) :
    first.id = second.id := by
  have hpair := congrArg (fun rank => (ofLex (ofLex (ofLex rank).2).2).2) h
  exact hpair

section

variable {f : SavedConnection α δ → SavedConnection α δ}
    (hf : ∀ connection, connectionRank name (f connection) = connectionRank name connection)
include hf

theorem pairwise_connectionRank {l : List (SavedConnection α δ)} :
    (l.map f).Pairwise (fun first second =>
        connectionRank name first ≤ connectionRank name second) ↔
      l.Pairwise fun first second =>
        connectionRank name first ≤ connectionRank name second := by
  rw [pairwise_map]
  simp only [hf]

theorem Listed.map_iff {l : List (SavedConnection α δ)} :
    Listed SavedConnection.id (connectionRank name) (l.map f) ↔
      Listed SavedConnection.id (connectionRank name) l := by
  have hids : (l.map f).map SavedConnection.id = l.map SavedConnection.id := by
    rw [List.map_map]
    exact map_congr_left fun connection _ =>
      connectionRank_id (hf connection)
  constructor
  · rintro ⟨hnodup, hsorted⟩
    exact ⟨hids ▸ hnodup, (pairwise_connectionRank hf).mp hsorted⟩
  · rintro ⟨hnodup, hsorted⟩
    exact ⟨hids.symm ▸ hnodup, (pairwise_connectionRank hf).mpr hsorted⟩

end

/-- What is read back is listed and settled, whatever was saved. -/
theorem loadConnections_settled (name : δ → Str) (now : Nat)
    (groups : List Group) (connections : List (SavedConnection α δ)) :
    Listed SavedConnection.id (connectionRank name)
        (Sessions.loadConnections name
          (replaceSessions now groups connections)) ∧
      ∀ connection ∈ Sessions.loadConnections name
          (replaceSessions now groups connections),
        connection.Settled now := by
  have hsettled := connectionsSettled_replaceSessions now groups connections
  constructor
  · have hrank : ∀ connection : SavedConnection α δ, connectionRank name
        ((replaceSessions now groups
          connections).hydrateConnectionPassword connection) =
            connectionRank name connection := fun _ => rfl
    exact (Listed.map_iff hrank).mpr (listed_sortBy _ hsettled.ids.keys_nodup)
  · intro connection hmem
    obtain ⟨stored, hstored, rfl⟩ := mem_map.mp hmem
    exact hsettled.settled ((List.sortBy_perm _ _).mem_iff.mp hstored)

/-- Connections that are settled are collected as they are, apart from their
passwords. -/
theorem saveConnections_connections
    (h : ∀ connection ∈ connections, connection.Settled now)
    (s : Sessions α δ) :
    (s.saveConnections now connections).connections =
      (connections.map SavedConnection.withoutPassword).foldl
        (fun table connection => table.insert connection.id connection)
        s.connections := by
  induction connections generalizing s with
  | nil => rfl
  | cons connection rest ih =>
    have hfirst := h connection mem_cons_self
    have hrest := ih (fun other hother =>
      h other (mem_cons_of_mem connection hother))
      (s.saveConnection now connection)
    rw [map_cons, foldl_cons]
    rw [saveConnection_connections, storedConnection_settled hfirst] at hrest
    exact hrest

theorem get_saveConnections_passwords (s : Sessions α δ) {id : Str}
    (h : id ∉ connections.map SavedConnection.id) :
    (s.saveConnections now connections).passwords.get id =
      s.passwords.get id := by
  induction connections generalizing s with
  | nil => rfl
  | cons connection rest ih =>
    rw [map_cons, mem_cons, not_or] at h
    have hrest := ih (s.saveConnection now connection) h.2
    rw [get_saveConnection_passwords, if_neg h.1] at hrest
    exact hrest

/-- The password of every saved connection can be read back. -/
theorem get_passwordRecord
    (hnodup : (connections.map SavedConnection.id).Nodup) (s : Sessions α δ)
    (hmem : connection ∈ connections) :
    (s.saveConnections now connections).passwords.get connection.id =
      passwordRecord now connection := by
  induction connections generalizing s with
  | nil => cases hmem
  | cons first rest ih =>
    rw [map_cons, nodup_cons] at hnodup
    rcases mem_cons.mp hmem with rfl | hmem
    · have hrest : ((s.saveConnection now connection).saveConnections now
          rest).passwords.get connection.id =
            (s.saveConnection now connection).passwords.get connection.id :=
        get_saveConnections_passwords _ hnodup.1
      rw [get_saveConnection_passwords, if_pos rfl] at hrest
      exact hrest
    · exact ih hnodup.2 (s.saveConnection now first) hmem

theorem hydrateAuth_passwordRecord (h : connection.Settled now)
    {auth : ConnectionAuth α} (hauth : connection.auth = some auth) :
    Sessions.hydrateAuth { details := auth.details }
      (passwordRecord now connection) = auth := by
  rw [passwordRecord, hauth, bind_some]
  cases hpassword : auth.password with
  | none =>
    have hbare := h.noPassword auth hauth hpassword
    change ({ details := auth.details } : ConnectionAuth α) = auth
    rw [← hpassword, ← hbare]
  | some password =>
    obtain ⟨hne, htold⟩ := h.password auth password hauth hpassword
    have hkept : (!password.isEmpty) = true := by simpa using hne
    rw [filter_some, if_pos hkept, map_some]
    change ({ auth with
      password := some password
      hasPassword := true } : ConnectionAuth α) = auth
    rw [← hpassword, ← htold]

theorem hydrate_withoutPassword (h : connection.Settled now)
    (hget : s.passwords.get connection.id = passwordRecord now connection) :
    s.hydrateConnectionPassword connection.withoutPassword = connection := by
  have hauth : connection.withoutPassword.auth.map (fun auth =>
      Sessions.hydrateAuth auth
        (s.passwords.get connection.withoutPassword.id)) =
      connection.auth := by
    change (connection.auth.map _).map (fun auth =>
      Sessions.hydrateAuth auth (s.passwords.get connection.id)) = _
    cases hconnection : connection.auth with
    | none => rfl
    | some auth =>
      rw [map_some, map_some, hget]
      exact congrArg some (hydrateAuth_passwordRecord h hconnection)
  rw [Sessions.hydrateConnectionPassword, hauth]
  rfl

theorem rank_withoutPassword (connection : SavedConnection α δ) :
    connectionRank name connection.withoutPassword =
      connectionRank name connection := rfl

/-- The connections that are read back are the ones that were saved exactly if
they are settled, and listed as they are read. -/
theorem loadConnections_eq_iff :
    Sessions.loadConnections name
        (replaceSessions now groups connections) = connections ↔
      Listed SavedConnection.id (connectionRank name) connections ∧
        ∀ connection ∈ connections, connection.Settled now := by
  constructor
  · intro h
    have hsettled := loadConnections_settled name now groups connections
    rw [h] at hsettled
    exact hsettled
  · rintro ⟨hlisted, hsettled⟩
    have hbare : Listed SavedConnection.id (connectionRank name)
        (connections.map SavedConnection.withoutPassword) :=
      (Listed.map_iff rank_withoutPassword).mpr hlisted
    have htable : (replaceSessions now groups
        connections).connections = collect SavedConnection.id id
          (connections.map SavedConnection.withoutPassword) := by
      rw [replaceSessions, saveConnections_connections hsettled,
        (replaced_empty now groups).1]
      rfl
    have hsorted : (replaceSessions now groups
        connections).connections.values.sortBy (connectionRank name) =
          connections.map SavedConnection.withoutPassword := by
      rw [htable]
      refine hbare.sortBy_eq (fun _ _ => connectionRank_id) ?_
      refine (perm_ext_iff_of_nodup ?_ hbare.ids.of_map).mpr
        fun connection => mem_values_collect hbare.ids
      exact (keyedBy_collect _).values_nodup
    rw [Sessions.loadConnections, hsorted, List.map_map]
    refine (map_congr_left fun connection hmem => ?_).trans (map_id _)
    exact hydrate_withoutPassword (hsettled connection hmem)
      (get_passwordRecord hlisted.ids _ hmem)

end NiceTerm.Storage
