/-
A table of a database: entries with distinct keys, kept in the order of the
keys.  What an operation does is said by the entries that are in it.
-/
import Mathlib.Data.List.Nodup
import Mathlib.Order.Lattice

universe u v w

structure Table (κ : Type u) (α : Type v) [LinearOrder κ] where
  entries : List (κ × α)
  sorted : entries.Pairwise fun a b => a.1 < b.1

namespace Table

open List

variable {κ : Type u} {α : Type v} [LinearOrder κ]

def empty : Table κ α := ⟨[], Pairwise.nil⟩

variable (table : Table κ α)

def get (k : κ) : Option α :=
  (table.entries.find? fun entry => entry.1 == k).map Prod.snd

/-- The values in the order of their keys. -/
def values : List α := table.entries.map Prod.snd

def insertEntry (k : κ) (a : α) : List (κ × α) → List (κ × α)
  | [] => [(k, a)]
  | entry :: rest =>
    if k < entry.1 then (k, a) :: entry :: rest
    else if k = entry.1 then (k, a) :: rest
    else entry :: insertEntry k a rest

variable {k : κ} {entry : κ × α}

theorem mem_insertEntry {a : α} {entries : List (κ × α)}
    (h : entries.Pairwise fun a b => a.1 < b.1) :
    entry ∈ insertEntry k a entries ↔
      entry = (k, a) ∨ entry.1 ≠ k ∧ entry ∈ entries := by
  induction entries with
  | nil => simp [insertEntry]
  | cons first rest ih =>
    rw [pairwise_cons] at h
    have hgreater : first.1 = k → ∀ entry ∈ rest, entry.1 ≠ k :=
      fun heq entry hmem hk => absurd (h.1 entry hmem) (by simp [heq, hk])
    rw [insertEntry]
    by_cases hlt : k < first.1
    · rw [if_pos hlt, mem_cons]
      have hne : ∀ entry ∈ first :: rest, entry.1 ≠ k := by
        intro entry hmem hk
        rcases mem_cons.mp hmem with rfl | hmem
        · exact absurd hlt (by simp [hk])
        · exact absurd (hlt.trans (h.1 entry hmem)) (by simp [hk])
      constructor
      · rintro (heq | hmem)
        · exact .inl heq
        · exact .inr ⟨hne entry hmem, hmem⟩
      · rintro (heq | ⟨-, hmem⟩)
        · exact .inl heq
        · exact .inr hmem
    · rw [if_neg hlt]
      by_cases heq : k = first.1
      · rw [if_pos heq, mem_cons, mem_cons]
        constructor
        · rintro (hnew | hmem)
          · exact .inl hnew
          · exact .inr ⟨hgreater heq.symm entry hmem, .inr hmem⟩
        · rintro (hnew | ⟨hne, hfirst | hmem⟩)
          · exact .inl hnew
          · exact absurd (hfirst ▸ heq.symm) hne
          · exact .inr hmem
      · rw [if_neg heq, mem_cons, mem_cons, ih h.2]
        constructor
        · rintro (hfirst | hnew | ⟨hne, hmem⟩)
          · exact .inr ⟨hfirst ▸ Ne.symm heq, .inl hfirst⟩
          · exact .inl hnew
          · exact .inr ⟨hne, .inr hmem⟩
        · rintro (hnew | ⟨hne, hfirst | hmem⟩)
          · exact .inr (.inl hnew)
          · exact .inl hfirst
          · exact .inr (.inr ⟨hne, hmem⟩)

theorem insertEntry_sorted (k : κ) (a : α) {entries : List (κ × α)}
    (h : entries.Pairwise fun a b => a.1 < b.1) :
    (insertEntry k a entries).Pairwise fun a b => a.1 < b.1 := by
  induction entries with
  | nil => exact pairwise_singleton _ _
  | cons first rest ih =>
    have hrest := (pairwise_cons.mp h).2
    have hfirst := (pairwise_cons.mp h).1
    rw [insertEntry]
    by_cases hlt : k < first.1
    · rw [if_pos hlt, pairwise_cons]
      refine ⟨fun entry hmem => ?_, h⟩
      rcases mem_cons.mp hmem with rfl | hmem
      · exact hlt
      · exact hlt.trans (hfirst entry hmem)
    · rw [if_neg hlt]
      by_cases heq : k = first.1
      · rw [if_pos heq, pairwise_cons]
        exact ⟨fun entry hmem => heq ▸ hfirst entry hmem, hrest⟩
      · rw [if_neg heq, pairwise_cons]
        refine ⟨fun entry hmem => ?_, ih hrest⟩
        rcases (mem_insertEntry hrest).mp hmem with rfl | ⟨-, hmem⟩
        · exact lt_of_le_of_ne (not_lt.mp hlt) (Ne.symm heq)
        · exact hfirst entry hmem

def insert (k : κ) (a : α) : Table κ α :=
  ⟨insertEntry k a table.entries, insertEntry_sorted k a table.sorted⟩

/-- Remove the entries that meet a test. -/
def removeIf (p : κ → α → Bool) : Table κ α :=
  ⟨table.entries.filter fun entry => !p entry.1 entry.2, table.sorted.filter _⟩

def remove (k : κ) : Table κ α :=
  table.removeIf fun key _ => key == k

/-- The table of a list of records, which are written one after the other. -/
def collect {β : Type w} (key : β → κ) (value : β → α) (records : List β) :
    Table κ α :=
  records.foldl (fun table record => table.insert (key record) (value record))
    empty

theorem mem_empty : entry ∉ (empty : Table κ α).entries :=
  not_mem_nil

theorem mem_insert {table : Table κ α} {a : α} :
    entry ∈ (table.insert k a).entries ↔
      entry = (k, a) ∨ entry.1 ≠ k ∧ entry ∈ table.entries :=
  mem_insertEntry table.sorted

theorem mem_removeIf {table : Table κ α} {p : κ → α → Bool} :
    entry ∈ (table.removeIf p).entries ↔
      entry ∈ table.entries ∧ p entry.1 entry.2 = false := by
  simp [removeIf, mem_filter]

theorem mem_remove {table : Table κ α} :
    entry ∈ (table.remove k).entries ↔
      entry ∈ table.entries ∧ entry.1 ≠ k := by
  simp [remove, mem_removeIf]

theorem value_unique {table : Table κ α} {a b : α}
    (ha : (k, a) ∈ table.entries) (hb : (k, b) ∈ table.entries) : a = b := by
  by_contra hne
  obtain ⟨i, hi, hai⟩ := getElem_of_mem ha
  obtain ⟨j, hj, hbj⟩ := getElem_of_mem hb
  have hsorted := pairwise_iff_getElem.mp table.sorted
  rcases Nat.lt_trichotomy i j with hlt | heq | hlt
  · have := hsorted i j hi hj hlt
    rw [hai, hbj] at this
    exact absurd this (lt_irrefl k)
  · subst heq
    exact hne (congrArg Prod.snd (hai.symm.trans hbj))
  · have := hsorted j i hj hi hlt
    rw [hai, hbj] at this
    exact absurd this (lt_irrefl k)

theorem get_eq_some_iff {table : Table κ α} {a : α} :
    table.get k = some a ↔ (k, a) ∈ table.entries := by
  constructor
  · intro h
    obtain ⟨entry, hfind, rfl⟩ := Option.map_eq_some_iff.mp h
    have hkey : entry.1 = k := by simpa using find?_some hfind
    rw [← hkey]
    exact mem_of_find?_eq_some hfind
  · intro h
    cases hfind : table.entries.find? fun entry => entry.1 == k with
    | none =>
      have hnone := find?_eq_none.mp hfind (k, a) h
      simp at hnone
    | some entry =>
      have hkey : entry.1 = k := by simpa using find?_some hfind
      have hmem := mem_of_find?_eq_some hfind
      rw [← hkey] at h
      rw [get, hfind, Option.map_some, value_unique h hmem]

theorem entries_nodup : table.entries.Nodup :=
  table.sorted.imp fun h heq => absurd h (by simp [heq])

theorem get_insert (k : κ) (a : α) (other : κ) :
    (table.insert k a).get other =
      if other = k then some a else table.get other := by
  apply Option.ext
  intro b
  rw [get_eq_some_iff, mem_insert]
  by_cases h : other = k
  · simp [h, eq_comm]
  · simp [h, get_eq_some_iff]

theorem get_remove (k other : κ) :
    (table.remove k).get other =
      if other = k then none else table.get other := by
  apply Option.ext
  intro b
  rw [get_eq_some_iff, mem_remove]
  by_cases h : other = k
  · simp [h]
  · simp [h, get_eq_some_iff]

/-- Tables with the same entries are equal. -/
theorem ext_of_mem {first second : Table κ α}
    (h : ∀ entry, entry ∈ first.entries ↔ entry ∈ second.entries) :
    first = second := by
  have hperm := (perm_ext_iff_of_nodup first.entries_nodup
    second.entries_nodup).mpr h
  have hentries := hperm.eq_of_pairwise (fun a b _ _ hab hba =>
    absurd (hab.trans hba) (lt_irrefl a.1)) first.sorted second.sorted
  cases first
  cases second
  simpa using hentries

section Map

variable {β : Type w}

/-- The same keys with other values. -/
def map (f : α → β) (table : Table κ α) : Table κ β :=
  ⟨table.entries.map fun entry => (entry.1, f entry.2),
    pairwise_map.mpr table.sorted⟩

variable {k : κ}

theorem mem_map {f : α → β} {table : Table κ α} {b : β} :
    (k, b) ∈ (table.map f).entries ↔ ∃ a, (k, a) ∈ table.entries ∧ f a = b := by
  simp [map, eq_comm]

theorem values_map (f : α → β) (table : Table κ α) :
    (table.map f).values = table.values.map f := by
  simp [map, values]

theorem map_insert (f : α → β) (table : Table κ α) (k : κ) (a : α) :
    (table.insert k a).map f = (table.map f).insert k (f a) := by
  apply ext_of_mem
  rintro ⟨key, b⟩
  rw [mem_map, mem_insert, mem_map]
  constructor
  · rintro ⟨c, hc, rfl⟩
    rcases mem_insert.mp hc with heq | ⟨hne, hmem⟩
    · obtain ⟨rfl, rfl⟩ := Prod.mk.inj heq
      exact .inl rfl
    · exact .inr ⟨hne, c, hmem, rfl⟩
  · rintro (heq | ⟨hne, c, hmem, rfl⟩)
    · obtain ⟨rfl, rfl⟩ := Prod.mk.inj heq
      exact ⟨a, mem_insert.mpr (.inl rfl), rfl⟩
    · exact ⟨c, mem_insert.mpr (.inr ⟨hne, hmem⟩), rfl⟩

theorem map_removeIf (f : α → β) (table : Table κ α) (p : κ → Bool) :
    (table.removeIf fun k _ => p k).map f =
      (table.map f).removeIf fun k _ => p k := by
  apply ext_of_mem
  rintro ⟨key, b⟩
  simp only [mem_map, mem_removeIf]
  constructor
  · rintro ⟨a, ⟨hmem, hp⟩, rfl⟩
    exact ⟨⟨a, hmem, rfl⟩, hp⟩
  · rintro ⟨⟨a, hmem, rfl⟩, hp⟩
    exact ⟨a, ⟨hmem, hp⟩, rfl⟩

/-- No record behind this one is written under the same key. -/
inductive Latest (key : β → κ) : List β → β → Prop
  | last {record : β} {rest : List β}
      (h : ∀ later ∈ rest, key later ≠ key record) :
      Latest key (record :: rest) record
  | later {record : β} {rest : List β} (first : β)
      (h : Latest key rest record) : Latest key (first :: rest) record

variable {records : List β}

omit [LinearOrder κ] in
theorem Latest.mem {key : β → κ} {record : β}
    (h : Latest key records record) : record ∈ records := by
  induction h with
  | last => exact mem_cons_self
  | later first _ ih => exact mem_cons_of_mem first ih

omit [LinearOrder κ] in
theorem latest_of_nodup {key : β → κ} (hnodup : (records.map key).Nodup)
    {record : β} (h : record ∈ records) : Latest key records record := by
  induction records with
  | nil => cases h
  | cons first rest ih =>
    rw [map_cons, nodup_cons] at hnodup
    rcases mem_cons.mp h with rfl | h
    · exact .last fun later hmem heq =>
        hnodup.1 (heq ▸ mem_map_of_mem hmem)
    · exact .later first (ih hnodup.2 h)

omit [LinearOrder κ] in
theorem exists_latest {key : β → κ} (h : k ∈ records.map key) :
    ∃ record, Latest key records record ∧ key record = k := by
  induction records with
  | nil => cases h
  | cons first rest ih =>
    by_cases hrest : k ∈ rest.map key
    · obtain ⟨record, hlatest, hkey⟩ := ih hrest
      exact ⟨record, .later first hlatest, hkey⟩
    · rw [map_cons, mem_cons, or_iff_left hrest] at h
      exact ⟨first, .last fun later hmem heq =>
        hrest (h ▸ heq ▸ mem_map_of_mem hmem), h.symm⟩

/-- Write records one after the other. -/
def writeAll (key : β → κ) (value : β → α) (records : List β)
    (table : Table κ α) : Table κ α :=
  records.foldl (fun table record => table.insert (key record) (value record))
    table

variable {value : β → α}

theorem mem_writeAll {key : β → κ} {table : Table κ α} {a : α} :
    (k, a) ∈ (writeAll key value records table).entries ↔
      (∃ record, Latest key records record ∧ key record = k ∧
        value record = a) ∨
      k ∉ records.map key ∧ (k, a) ∈ table.entries := by
  induction records generalizing table with
  | nil =>
    rw [writeAll, foldl_nil]
    constructor
    · exact fun hmem => .inr ⟨not_mem_nil, hmem⟩
    · rintro (⟨record, ⟨⟩, -⟩ | ⟨-, hmem⟩)
      exact hmem
  | cons first rest ih =>
    have hwrite : writeAll key value (first :: rest) table =
        writeAll key value rest (table.insert (key first) (value first)) :=
      rfl
    rw [hwrite, ih, mem_insert, map_cons, mem_cons, not_or]
    constructor
    · rintro (⟨record, hlatest, h⟩ | ⟨hnone, heq | ⟨hne, hmem⟩⟩)
      · exact .inl ⟨record, .later first hlatest, h⟩
      · obtain ⟨rfl, rfl⟩ := Prod.mk.inj heq
        exact .inl ⟨first, .last fun later hmem heq =>
          hnone (heq ▸ mem_map_of_mem hmem), rfl, rfl⟩
      · exact .inr ⟨⟨hne, hnone⟩, hmem⟩
    · rintro (⟨record, hlatest, hkey, rfl⟩ | ⟨⟨hne, hnone⟩, hmem⟩)
      · cases hlatest with
        | last hlast =>
          subst hkey
          refine .inr ⟨fun hmem => ?_, .inl rfl⟩
          obtain ⟨later, hlater, heq⟩ := List.mem_map.mp hmem
          exact hlast later hlater heq
        | later _ hlatest => exact .inl ⟨record, hlatest, hkey, rfl⟩
      · exact .inr ⟨hnone, .inr ⟨hne, hmem⟩⟩

theorem mem_keys_collect {key : β → κ} :
    k ∈ (collect key value records).entries.map Prod.fst ↔
      k ∈ records.map key := by
  have hwrite : collect key value records = writeAll key value records empty :=
    rfl
  rw [hwrite]
  constructor
  · intro h
    obtain ⟨⟨k, a⟩, hmem, rfl⟩ := List.mem_map.mp h
    rcases mem_writeAll.mp hmem with ⟨record, hlatest, rfl, -⟩ | ⟨-, hempty⟩
    · exact mem_map_of_mem hlatest.mem
    · exact absurd hempty mem_empty
  · intro h
    obtain ⟨record, hlatest, hkey⟩ := exists_latest h
    have hmem : (k, value record) ∈ (writeAll key value records empty).entries :=
      mem_writeAll.mpr (.inl ⟨record, hlatest, hkey, rfl⟩)
    exact mem_map_of_mem hmem

theorem mem_collect {key : β → κ} (hnodup : (records.map key).Nodup) {a : α} :
    (k, a) ∈ (collect key value records).entries ↔
      ∃ record ∈ records, key record = k ∧ value record = a := by
  have hwrite : collect key value records = writeAll key value records empty :=
    rfl
  rw [hwrite, mem_writeAll]
  constructor
  · rintro (⟨record, hlatest, h⟩ | ⟨-, hmem⟩)
    · exact ⟨record, hlatest.mem, h⟩
    · exact absurd hmem mem_empty
  · rintro ⟨record, hmem, h⟩
    exact .inl ⟨record, latest_of_nodup hnodup hmem, h⟩

end Map

section Keyed

variable {key : α → κ} {table : Table κ α}

/-- Every record stands under its own key. -/
def KeyedBy (key : α → κ) (table : Table κ α) : Prop :=
  ∀ entry ∈ table.entries, key entry.2 = entry.1

theorem keyedBy_empty : (empty : Table κ α).KeyedBy key :=
  fun _ hmem => absurd hmem mem_empty

variable {a : α}

section

variable (h : table.KeyedBy key)
include h

theorem KeyedBy.key_of_get {k : κ} (hget : table.get k = some a) : key a = k :=
  h _ (get_eq_some_iff.mp hget)

theorem KeyedBy.mem_values :
    a ∈ table.values ↔ table.get (key a) = some a := by
  rw [values, List.mem_map, get_eq_some_iff]
  constructor
  · rintro ⟨entry, hmem, rfl⟩
    rw [h entry hmem]
    exact hmem
  · intro hmem
    exact ⟨_, hmem, rfl⟩

theorem KeyedBy.values_keys :
    table.values.map key = table.entries.map Prod.fst := by
  rw [values, map_map]
  exact map_congr_left h

theorem KeyedBy.keys_nodup :
    (table.values.map key).Nodup := by
  rw [h.values_keys]
  exact pairwise_map.mpr (table.sorted.imp fun hlt heq =>
    absurd hlt (by simp [heq]))

theorem KeyedBy.get_eq_some {k : κ} :
    table.get k = some a ↔ a ∈ table.values ∧ key a = k := by
  constructor
  · intro hget
    have hkey := h.key_of_get hget
    rw [h.mem_values, hkey]
    exact ⟨hget, rfl⟩
  · rintro ⟨hmem, rfl⟩
    exact h.mem_values.mp hmem

theorem KeyedBy.values_nodup : table.values.Nodup := by
  apply Nodup.map_on _ table.entries_nodup
  intro first hfirst second hsecond heq
  have hkey : first.1 = second.1 := by
    rw [← h first hfirst, ← h second hsecond, heq]
  exact Prod.ext hkey heq

theorem KeyedBy.eq_of_key {b : α} (ha : a ∈ table.values)
    (hb : b ∈ table.values) (heq : key a = key b) : a = b := by
  rw [h.mem_values] at ha hb
  rw [heq, hb] at ha
  exact (Option.some.inj ha).symm

theorem KeyedBy.insert (a : α) : (table.insert (key a) a).KeyedBy key := by
  intro entry hmem
  rcases Table.mem_insert.mp hmem with rfl | ⟨-, hmem⟩
  · rfl
  · exact h entry hmem

theorem KeyedBy.mem_insert {b : α} :
    b ∈ (table.insert (key a) a).values ↔
      b = a ∨ key b ≠ key a ∧ b ∈ table.values := by
  rw [(h.insert a).mem_values, h.mem_values, get_insert]
  by_cases heq : key b = key a
  · simp only [heq, if_true, Option.some.injEq, ne_eq, not_true_eq_false,
      false_and, or_false]
    exact eq_comm
  · rw [if_neg heq]
    constructor
    · exact fun hmem => .inr ⟨heq, hmem⟩
    · rintro (rfl | ⟨-, hmem⟩)
      · exact absurd rfl heq
      · exact hmem

theorem KeyedBy.removeIf (p : κ → α → Bool) : (table.removeIf p).KeyedBy key :=
  fun entry hmem => h entry (mem_removeIf.mp hmem).1

theorem KeyedBy.mem_removeIf {p : κ → α → Bool} {b : α} :
    b ∈ (table.removeIf p).values ↔
      b ∈ table.values ∧ p (key b) b = false := by
  rw [(h.removeIf p).mem_values, h.mem_values, get_eq_some_iff,
    get_eq_some_iff, Table.mem_removeIf]

end

theorem keyedBy_collect (records : List α) :
    (collect key id records).KeyedBy key := by
  rintro ⟨k, a⟩ hmem
  rcases mem_writeAll.mp hmem with ⟨record, -, hkey, rfl⟩ | ⟨-, hempty⟩
  · exact hkey
  · exact absurd hempty mem_empty

theorem mem_values_collect {records : List α}
    (hnodup : (records.map key).Nodup) :
    a ∈ (collect key id records).values ↔ a ∈ records := by
  rw [(keyedBy_collect records).mem_values, get_eq_some_iff,
    mem_collect hnodup]
  constructor
  · rintro ⟨record, hmem, -, rfl⟩
    exact hmem
  · exact fun hmem => ⟨a, hmem, rfl, rfl⟩

end Keyed

end Table
