/-
The store of long outputs: the entries, the order in which they were used and
the sum of their sizes are kept in step over every run, and a text is read back
page by page.
-/
import Mathlib.Data.List.Dedup
import NiceTerm.Lib.Keyed
import NiceTerm.Lib.RustSplit
import NiceTerm.Lib.Transition

namespace NiceTerm.Capabilities

open Keyed List RustStr Transition

/-- 4 MiB for one text and 16 MiB for all of them. -/
def entryLimit : Nat := 4 * 1024 * 1024

def totalLimit : Nat := 16 * 1024 * 1024

/-- Ten minutes; instants are counted in nanoseconds. -/
def ttl : Nat := 10 * 60 * 1000000000

structure Entry where
  id : Str
  bytes : List UInt8
  totalBytes : Nat
  created : Nat
  deriving DecidableEq, Repr

structure OutputStore where
  entries : List Entry
  lru : List Str
  bytes : Nat
  deriving DecidableEq, Repr

structure ProtectedOutput where
  preview : Str
  truncated : Bool
  outputId : Option Str
  totalBytes : Nat
  sourceTruncated : Bool
  deriving DecidableEq, Repr

structure OutputChunk where
  data : Str
  offset : Nat
  nextOffset : Nat
  totalBytes : Nat
  eof : Bool
  deriving DecidableEq, Repr

namespace OutputStore

def default : OutputStore := ⟨[], [], 0⟩

def ids (store : OutputStore) : List Str := store.entries.map Entry.id

def boundaryAtOrBefore (text : Str) (index : Nat) : Nat :=
  floorCharBoundary text (min index (len text))

/-- `entries.remove` with the size of the entry taken off. -/
def removeEntry (store : OutputStore) (id : Str) : OutputStore :=
  match find Entry.id store.entries id with
  | none => store
  | some entry =>
    { store with
      entries := store.entries.filter fun other => other.id ≠ id
      bytes := store.bytes - entry.bytes.length }

variable (now : Nat)

def isExpired (entry : Entry) : Bool :=
  ttl ≤ now - entry.created

def cleanup (store : OutputStore) : OutputStore :=
  let expired := (store.entries.filter (isExpired now)).map Entry.id
  let kept := expired.foldl removeEntry store
  { kept with lru := kept.lru.filter (· ∈ kept.ids) }

/-- The loop of `insert`, over what is left of `lru`. -/
def makeRoom (needed : Nat) (store : OutputStore) : List Str → OutputStore
  | [] => { store with lru := [] }
  | oldest :: rest =>
    if totalLimit < store.bytes + needed then
      makeRoom needed (removeEntry store oldest) rest
    else { store with lru := oldest :: rest }

def insert (entry : Entry) (store : OutputStore) : OutputStore :=
  let room := makeRoom entry.bytes.length store store.lru
  { entries := room.entries.filter (fun other => other.id ≠ entry.id) ++ [entry]
    lru := room.lru ++ [entry.id]
    bytes := room.bytes + entry.bytes.length }

/-- `format!("out_{}", ..)` -/
def outputId (uuid : Str) : Str := "out_".toList ++ uuid

/-- The entry that `protect` makes of a text. -/
def entryOf (text uuid : Str) : Entry where
  id := outputId uuid
  bytes := (utf8 text).take
    (boundaryAtOrBefore text (min entryLimit (len text)))
  totalBytes := len text
  created := now

def protect (text : Str) (inlineLimit : Nat) (uuid : Str)
    (store : OutputStore) : ProtectedOutput × OutputStore :=
  if len text ≤ inlineLimit then
    (⟨text, false, none, len text, false⟩, cleanup now store)
  else
    (⟨(splitAt text (boundaryAtOrBefore text inlineLimit)).1, true,
        some (outputId uuid), len text,
        boundaryAtOrBefore text (min entryLimit (len text)) < len text⟩,
      insert (entryOf now text uuid) (cleanup now store))

def unavailable : String := "Output is unavailable or has expired."

def invalidOffset : String := "Invalid output offset."

/-- What `read` returns of the entry it has found. -/
def chunkOf (entry : Entry) (offset maxBytes : Nat) :
    Except String OutputChunk :=
  match fromUtf8 entry.bytes with
  | none => .error invalidOffset
  | some text =>
    if entry.bytes.length < offset || !isCharBoundary text offset then
      .error invalidOffset
    else
      let stop := boundaryAtOrBefore text
        (min (offset + max 1 (min maxBytes (64 * 1024))) (len text))
      .ok
        { data := (splitAt (splitAt text stop).1 offset).2
          offset := offset
          nextOffset := stop
          totalBytes := entry.totalBytes
          eof := stop = entry.bytes.length }

def read (id : Str) (offset maxBytes : Nat) (store : OutputStore) :
    Except String OutputChunk × OutputStore :=
  let clean := cleanup now store
  match find Entry.id clean.entries id with
  | none => (.error unavailable, clean)
  | some entry =>
    match chunkOf entry offset maxBytes with
    | .error message => (.error message, clean)
    | .ok chunk =>
      (.ok chunk, { clean with lru := clean.lru.filter (· ≠ id) ++ [id] })

end OutputStore

open OutputStore

inductive OutputEvent where
  | protect (now : Nat) (text : Str) (inlineLimit : Nat) (uuid : Str)
  | read (now : Nat) (id : Str) (offset maxBytes : Nat)
  | cleanup (now : Nat)
  deriving DecidableEq, Repr

/-- The store with the ids of the entries in the order of their uses: an entry
is used when it is stored and when it is read. -/
structure UsedStore where
  store : OutputStore
  uses : List Str
  deriving DecidableEq, Repr

/-- Every `Uuid::new_v4` differs from the ids in the store. -/
def UsedStore.step (used : UsedStore) : OutputEvent → Option UsedStore
  | .protect now text inlineLimit uuid =>
    if outputId uuid ∈ used.store.ids then none
    else
      let answer := used.store.protect now text inlineLimit uuid
      some ⟨answer.2, used.uses ++ answer.1.outputId.toList⟩
  | .read now id offset maxBytes =>
    let answer := used.store.read now id offset maxBytes
    some ⟨answer.2, used.uses ++ if answer.1.isOk then [id] else []⟩
  | .cleanup now => some ⟨used.store.cleanup now, used.uses⟩

def UsedStore.fresh : UsedStore := ⟨OutputStore.default, []⟩

def storing : System UsedStore OutputEvent where
  init used := used = UsedStore.fresh
  step := UsedStore.step

def OutputEvent.now : OutputEvent → Nat
  | .protect now _ _ _ => now
  | .read now _ _ _ => now
  | .cleanup now => now

def OutputEvent.stored : OutputEvent → List Entry
  | .protect now text inlineLimit uuid =>
    if len text ≤ inlineLimit then [] else [entryOf now text uuid]
  | _ => []

def sizes : List Entry → Nat
  | [] => 0
  | entry :: rest => entry.bytes.length + sizes rest

/-- The ids among `keys` in the order of their last uses. -/
def byLastUse (uses keys : List Str) : List Str :=
  uses.dedup.filter (· ∈ keys)

/-- The three fields agree, and the sum stays within its bound. -/
structure Consistent (used : UsedStore) : Prop where
  counted : used.store.bytes = sizes used.store.entries
  bounded : used.store.bytes ≤ totalLimit
  permuted : used.store.lru.Perm used.store.ids
  ordered : used.store.lru = byLastUse used.uses used.store.ids

/-- The entries that have not expired. -/
def survivors (now : Nat) (used : UsedStore) : List Entry :=
  used.store.entries.filter fun entry => !isExpired now entry

def without (gone : List Str) (entries : List Entry) : List Entry :=
  entries.filter fun entry => decide (entry.id ∉ gone)

/-- Beside expired entries a step loses only a shortest run of those that were
used least recently, so that what it stores has room. -/
def Evicts (used : UsedStore) (event : OutputEvent) (after : UsedStore) :
    Prop :=
  ∃ gone kept, byLastUse used.uses ((survivors event.now used).map Entry.id) =
      gone ++ kept ∧
    after.store.entries =
      without gone (survivors event.now used) ++ event.stored ∧
    ∀ fewer, fewer <+: gone → fewer ≠ gone →
      totalLimit < sizes (without fewer (survivors event.now used)) +
        sizes event.stored

def EvictsOldest (used : UsedStore) (event : OutputEvent) : Prop :=
  ∀ after, storing.step used event = some after → Evicts used event after

/-! ## The entries and their sizes -/

theorem sizes_append (front back : List Entry) :
    sizes (front ++ back) = sizes front + sizes back := by
  induction front with
  | nil => rw [nil_append, sizes, Nat.zero_add]
  | cons entry front ih =>
    rw [cons_append, sizes, sizes, ih, Nat.add_assoc]

@[simp] theorem without_nil (entries : List Entry) :
    without [] entries = entries := by
  simp [without]

variable {entries : List Entry} {entry : Entry}

theorem mem_without {gone : List Str} :
    entry ∈ without gone entries ↔ entry ∈ entries ∧ entry.id ∉ gone := by
  simp [without]

theorem without_append (front back : List Str) (entries : List Entry) :
    without (front ++ back) entries = without back (without front entries) := by
  rw [without, without, without, filter_filter]
  apply filter_congr
  intro entry _
  rw [Bool.and_comm]
  simp

theorem sizes_without_le (gone : List Str) (entries : List Entry) :
    sizes (without gone entries) ≤ sizes entries := by
  induction entries with
  | nil => exact Nat.le_refl _
  | cons entry rest ih =>
    rw [without] at ih ⊢
    rw [filter_cons]
    split
    · exact Nat.add_le_add_left ih _
    · exact ih.trans (Nat.le_add_left _ _)

variable {id : Str}

theorem sizes_without_of_find (hdistinct : (entries.map Entry.id).Nodup)
    (hfind : find Entry.id entries id = some entry) :
    sizes (without [id] entries) + entry.bytes.length = sizes entries := by
  induction entries with
  | nil => cases hfind
  | cons first rest ih =>
    rw [map_cons, nodup_cons] at hdistinct
    by_cases hid : first.id = id
    · have hentry : find Entry.id (first :: rest) id = some first :=
        find?_cons_of_pos (by simpa using hid)
      obtain rfl : first = entry := Option.some.inj (hentry.symm.trans hfind)
      have hrest : without [id] rest = rest := by
        apply filter_eq_self.mpr
        intro other hmem
        have hne : other.id ≠ id := by
          rintro hother
          exact hdistinct.1 (mem_map.mpr ⟨other, hmem, hother.trans hid.symm⟩)
        simpa using hne
      have hfirst : without [id] (first :: rest) = without [id] rest :=
        filter_cons_of_neg (by simpa using hid)
      rw [hfirst, hrest, sizes, Nat.add_comm]
    · have hskip : find Entry.id (first :: rest) id = find Entry.id rest id :=
        find?_cons_of_neg (by simpa using hid)
      have hfirst : without [id] (first :: rest) =
          first :: without [id] rest :=
        filter_cons_of_pos (by simpa using hid)
      rw [hfirst, sizes, sizes, Nat.add_assoc, ih hdistinct.2
        (hskip.symm.trans hfind)]

theorem without_keys_nodup (h : (entries.map Entry.id).Nodup)
    (gone : List Str) : ((without gone entries).map Entry.id).Nodup :=
  h.sublist (filter_sublist.map _)

/-- The ids are distinct and the sum is that of the sizes. -/
structure Tidy (store : OutputStore) : Prop where
  distinct : store.ids.Nodup
  counted : store.bytes = sizes store.entries

theorem removeEntry_entries (store : OutputStore) (id : Str) :
    (store.removeEntry id).entries = without [id] store.entries := by
  cases hfind : find Entry.id store.entries id with
  | none =>
    rw [OutputStore.removeEntry, hfind]
    refine (filter_eq_self.mpr fun entry hmem => ?_).symm
    have hid : entry.id ≠ id := by
      rintro rfl
      obtain ⟨found, hfound⟩ : ∃ found,
          find Entry.id store.entries entry.id = some found :=
        mem_keys_iff.mp (mem_map_of_mem hmem)
      exact Option.some_ne_none found (hfound.symm.trans hfind)
    simpa using hid
  | some entry =>
    rw [OutputStore.removeEntry, hfind]
    apply filter_congr
    simp

theorem removeEntry_lru (store : OutputStore) (id : Str) :
    (store.removeEntry id).lru = store.lru := by
  cases hfind : find Entry.id store.entries id with
  | none => rw [OutputStore.removeEntry, hfind]
  | some entry => rw [OutputStore.removeEntry, hfind]

variable {store : OutputStore}

theorem Tidy.removeEntry (h : Tidy store) (id : Str) :
    Tidy (store.removeEntry id) := by
  refine ⟨?_, ?_⟩
  · rw [OutputStore.ids, removeEntry_entries]
    exact without_keys_nodup h.distinct [id]
  · rw [removeEntry_entries]
    cases hfind : find Entry.id store.entries id with
    | none =>
      have hentries := removeEntry_entries store id
      rw [OutputStore.removeEntry, hfind] at hentries ⊢
      rw [← hentries]
      exact h.counted
    | some entry =>
      have hsizes := sizes_without_of_find h.distinct hfind
      rw [OutputStore.removeEntry, hfind]
      change store.bytes - entry.bytes.length = _
      rw [h.counted]
      omega

theorem foldl_removeEntry (h : Tidy store) (gone : List Str) :
    Tidy (gone.foldl OutputStore.removeEntry store) ∧
      (gone.foldl OutputStore.removeEntry store).entries =
        without gone store.entries ∧
      (gone.foldl OutputStore.removeEntry store).lru = store.lru := by
  induction gone generalizing store with
  | nil => exact ⟨h, (without_nil _).symm, rfl⟩
  | cons id gone ih =>
    obtain ⟨htidy, hentries, hlru⟩ := ih (h.removeEntry id)
    refine ⟨htidy, ?_, hlru.trans (removeEntry_lru store id)⟩
    rw [foldl_cons, hentries, removeEntry_entries, ← without_append]
    rfl

variable {used after : UsedStore}

theorem survivors_eq_without (h : Tidy used.store) (now : Nat) :
    survivors now used =
      without ((used.store.entries.filter (isExpired now)).map Entry.id)
        used.store.entries := by
  apply filter_congr
  intro entry hmem
  have hiff : isExpired now entry = true ↔
      entry.id ∈ (used.store.entries.filter (isExpired now)).map Entry.id := by
    constructor
    · intro hexpired
      exact mem_map_of_mem (mem_filter.mpr ⟨hmem, hexpired⟩)
    · intro hid
      obtain ⟨other, hother, hsame⟩ := mem_map.mp hid
      rw [mem_filter] at hother
      rw [← inj_on_of_nodup_map h.distinct hother.1 hmem hsame]
      exact hother.2
  rw [Bool.eq_iff_iff, Bool.not_eq_true', decide_eq_true_eq, ← hiff,
    Bool.not_eq_true]

theorem cleanup_tidy (h : Tidy store) (now : Nat) :
    Tidy (store.cleanup now) := by
  obtain ⟨hdistinct, hcounted⟩ := (foldl_removeEntry h
    ((store.entries.filter (isExpired now)).map Entry.id)).1
  exact ⟨hdistinct, hcounted⟩

theorem cleanup_entries (h : Tidy used.store) (now : Nat) :
    (used.store.cleanup now).entries = survivors now used :=
  (foldl_removeEntry h _).2.1.trans (survivors_eq_without h now).symm

theorem cleanup_lru (h : Tidy used.store) (now : Nat) :
    (used.store.cleanup now).lru = used.store.lru.filter
      (· ∈ (survivors now used).map Entry.id) := by
  have hentries := cleanup_entries h now
  have hlru := (foldl_removeEntry h
    ((used.store.entries.filter (isExpired now)).map Entry.id)).2.2
  rw [← hentries]
  exact congrArg (List.filter _) hlru

/-! ## Making room -/

/-- The loop throws out a shortest part of the order that leaves enough room,
or all of it. -/
theorem makeRoom_spec (h : Tidy store) (needed : Nat) (order : List Str) :
    ∃ gone kept, order = gone ++ kept ∧
      (makeRoom needed store order).lru = kept ∧
      (makeRoom needed store order).entries = without gone store.entries ∧
      Tidy (makeRoom needed store order) ∧
      (kept = [] ∨ (makeRoom needed store order).bytes + needed ≤ totalLimit) ∧
      ∀ fewer, fewer <+: gone → fewer ≠ gone →
        totalLimit < sizes (without fewer store.entries) + needed := by
  induction order generalizing store with
  | nil =>
    refine ⟨[], [], rfl, rfl, (without_nil _).symm,
      ⟨h.distinct, h.counted⟩, .inl rfl, ?_⟩
    intro fewer hfewer hne
    exact absurd (prefix_nil.mp hfewer) hne
  | cons oldest rest ih =>
    by_cases hfull : totalLimit < store.bytes + needed
    · obtain ⟨gone, kept, horder, hlru, hentries, htidy, hroom, hleast⟩ :=
        ih (h.removeEntry oldest)
      have hstep : makeRoom needed store (oldest :: rest) =
          makeRoom needed (store.removeEntry oldest) rest := if_pos hfull
      rw [removeEntry_entries] at hentries hleast
      rw [hstep]
      refine ⟨oldest :: gone, kept, by rw [horder, cons_append], hlru,
        ?_, htidy, hroom, ?_⟩
      · rw [hentries, ← without_append, singleton_append]
      · intro fewer hfewer hne
        cases fewer with
        | nil => rwa [without_nil, ← h.counted]
        | cons id fewer =>
          obtain ⟨rfl, hrest⟩ := cons_prefix_cons.mp hfewer
          rw [← singleton_append, without_append]
          exact hleast fewer hrest fun heq => hne (heq ▸ rfl)
    · have hstop : makeRoom needed store (oldest :: rest) =
          { store with lru := oldest :: rest } := if_neg hfull
      rw [hstop]
      refine ⟨[], oldest :: rest, rfl, rfl, (without_nil _).symm,
        ⟨h.distinct, h.counted⟩, .inr (Nat.not_lt.mp hfull), ?_⟩
      intro fewer hfewer hne
      exact absurd (prefix_nil.mp hfewer) hne

/-! ## The order of the last uses -/

theorem dedup_concat (uses : List Str) (id : Str) :
    (uses ++ [id]).dedup = uses.dedup.filter (· ≠ id) ++ [id] := by
  induction uses with
  | nil => rfl
  | cons use uses ih =>
    by_cases hid : use = id
    · have hmem : use ∈ uses ++ [id] := by simp [hid]
      rw [cons_append, dedup_cons_of_mem hmem, ih]
      by_cases huse : use ∈ uses
      · rw [dedup_cons_of_mem huse]
      · rw [dedup_cons_of_notMem huse, filter_cons_of_neg (by simpa using hid)]
    · by_cases huse : use ∈ uses
      · rw [cons_append, dedup_cons_of_mem (mem_append_left _ huse), ih,
          dedup_cons_of_mem huse]
      · have hnew : use ∉ uses ++ [id] := by simp [huse, hid]
        rw [cons_append, dedup_cons_of_notMem hnew, ih, dedup_cons_of_notMem
          huse, filter_cons_of_pos (by simpa using hid), cons_append]

theorem byLastUse_nodup (uses keys : List Str) : (byLastUse uses keys).Nodup :=
  (nodup_dedup uses).filter _

variable {uses keys : List Str}

theorem mem_byLastUse :
    id ∈ byLastUse uses keys ↔ id ∈ uses ∧ id ∈ keys := by
  simp [byLastUse]

theorem byLastUse_filter {fewer : List Str} (h : ∀ id ∈ fewer, id ∈ keys) :
    (byLastUse uses keys).filter (· ∈ fewer) = byLastUse uses fewer := by
  rw [byLastUse, byLastUse, filter_filter]
  apply filter_congr
  intro id _
  by_cases hid : id ∈ fewer
  · simp [hid, h id hid]
  · simp [hid]

/-- A use of `id` puts it behind all the others. -/
theorem byLastUse_concat (h : id ∈ keys) :
    byLastUse (uses ++ [id]) keys =
      (byLastUse uses keys).filter (· ≠ id) ++ [id] := by
  rw [byLastUse, byLastUse, dedup_concat, filter_append,
    filter_filter, filter_filter]
  congr 1
  · apply filter_congr
    intro other _
    rw [Bool.and_comm]
  · simp [h]

/-! ## Runs -/

/-- What every step keeps: beside the three fields, each entry is the encoding
of a text within the limit, and its id has been used. -/
structure StoreInvariant (used : UsedStore) : Prop where
  tidy : Tidy used.store
  bounded : used.store.bytes ≤ totalLimit
  ordered : used.store.lru = byLastUse used.uses used.store.ids
  listed : ∀ id ∈ used.store.ids, id ∈ used.uses
  texts : ∀ entry ∈ used.store.entries,
    ∃ text, entry.bytes = utf8 text ∧ len text ≤ entryLimit

theorem StoreInvariant.consistent
    (h : StoreInvariant used) : Consistent used := by
  refine ⟨h.tidy.counted, h.bounded, ?_, h.ordered⟩
  rw [h.ordered]
  apply (perm_ext_iff_of_nodup (byLastUse_nodup _ _) h.tidy.distinct).mpr
  intro id
  rw [mem_byLastUse]
  exact ⟨And.right, fun hid => ⟨h.listed id hid, hid⟩⟩

theorem mem_survivors {now : Nat} :
    entry ∈ survivors now used ↔
      entry ∈ used.store.entries ∧ isExpired now entry = false := by
  simp [survivors]

theorem survivors_keys {now : Nat}
    (h : id ∈ (survivors now used).map Entry.id) : id ∈ used.store.ids := by
  obtain ⟨entry, hentry, rfl⟩ := mem_map.mp h
  exact mem_map_of_mem (mem_survivors.mp hentry).1

theorem sizes_survivors_le (h : StoreInvariant used)
    (now : Nat) : sizes (survivors now used) ≤ totalLimit := by
  rw [survivors_eq_without h.tidy]
  exact (sizes_without_le _ _).trans (h.tidy.counted ▸ h.bounded)

theorem StoreInvariant.cleanup (h : StoreInvariant used)
    (now : Nat) : StoreInvariant ⟨used.store.cleanup now, used.uses⟩ := by
  have hentries := cleanup_entries h.tidy now
  have hids : (used.store.cleanup now).ids =
      (survivors now used).map Entry.id := congrArg (List.map _) hentries
  refine ⟨cleanup_tidy h.tidy now, ?_, ?_, ?_, ?_⟩
  · change (used.store.cleanup now).bytes ≤ totalLimit
    rw [(cleanup_tidy h.tidy now).counted, hentries]
    exact sizes_survivors_le h now
  · change (used.store.cleanup now).lru =
      byLastUse used.uses (used.store.cleanup now).ids
    rw [cleanup_lru h.tidy, h.ordered, hids]
    exact byLastUse_filter fun id => survivors_keys
  · intro id hid
    rw [hids] at hid
    exact h.listed id (survivors_keys hid)
  · intro entry hentry
    rw [hentries] at hentry
    exact h.texts entry (mem_survivors.mp hentry).1

theorem StoreInvariant.use (h : StoreInvariant used)
    (hid : id ∈ used.store.ids) :
    StoreInvariant
      ⟨{ used.store with lru := used.store.lru.filter (· ≠ id) ++ [id] },
        used.uses ++ [id]⟩ := by
  refine ⟨⟨h.tidy.distinct, h.tidy.counted⟩, h.bounded, ?_, ?_, h.texts⟩
  · change used.store.lru.filter (· ≠ id) ++ [id] =
      byLastUse (used.uses ++ [id]) used.store.ids
    rw [byLastUse_concat hid, h.ordered]
  · intro other hother
    exact mem_append_left _ (h.listed other hother)

theorem isCharBoundary_boundaryAtOrBefore (text : Str) (index : Nat) :
    isCharBoundary text (boundaryAtOrBefore text index) = true :=
  isCharBoundary_floorCharBoundary text _

theorem boundaryAtOrBefore_le (text : Str) (index : Nat) :
    boundaryAtOrBefore text index ≤ min index (len text) :=
  floorCharBoundary_le text _

theorem len_before_boundary (text : Str) (index : Nat) :
    len (splitAt text (boundaryAtOrBefore text index)).1 =
      boundaryAtOrBefore text index :=
  len_splitAt (isCharBoundary_boundaryAtOrBefore text index)

/-- The bytes that are kept of a text are those of a part within the limit. -/
theorem entryOf_bytes (now : Nat) (text uuid : Str) :
    ∃ kept, (entryOf now text uuid).bytes = utf8 kept ∧ kept <+: text ∧
      len kept ≤ entryLimit := by
  refine ⟨_, utf8_take (isCharBoundary_boundaryAtOrBefore text _),
    ⟨_, splitAt_append _ _⟩, ?_⟩
  rw [len_before_boundary]
  have hle := boundaryAtOrBefore_le text (min entryLimit (len text))
  omega

theorem insert_spec (h : StoreInvariant used)
    (hnew : entry.id ∉ used.store.ids)
    (htext : ∃ text, entry.bytes = utf8 text ∧ len text ≤ entryLimit) :
    StoreInvariant ⟨used.store.insert entry, used.uses ++ [entry.id]⟩ ∧
      ∃ gone kept, used.store.lru = gone ++ kept ∧
        (used.store.insert entry).entries =
          without gone used.store.entries ++ [entry] ∧
        ∀ fewer, fewer <+: gone → fewer ≠ gone →
          totalLimit < sizes (without fewer used.store.entries) +
            entry.bytes.length := by
  obtain ⟨gone, kept, horder, hlru, hentries, htidy, hroom, hleast⟩ :=
    makeRoom_spec h.tidy entry.bytes.length used.store.lru
  have hids : ∀ id, id ∈ (without gone used.store.entries).map Entry.id ↔
      id ∈ used.store.ids ∧ id ∉ gone := by
    intro id
    rw [OutputStore.ids, mem_map, mem_map]
    constructor
    · rintro ⟨other, hother, rfl⟩
      exact ⟨⟨other, (mem_without.mp hother).1, rfl⟩, (mem_without.mp hother).2⟩
    · rintro ⟨⟨other, hother, rfl⟩, hgone⟩
      exact ⟨other, mem_without.mpr ⟨hother, hgone⟩, rfl⟩
  have hkeep : (without gone used.store.entries).filter
      (fun other => other.id ≠ entry.id) = without gone used.store.entries := by
    apply filter_eq_self.mpr
    intro other hother
    have hne : other.id ≠ entry.id := fun heq =>
      hnew (heq ▸ mem_map_of_mem (mem_without.mp hother).1)
    simpa using hne
  have hinsert : (used.store.insert entry).entries =
      without gone used.store.entries ++ [entry] := by
    rw [OutputStore.insert]
    simp only [hentries, hkeep]
  have hnewIds : (used.store.insert entry).ids =
      (without gone used.store.entries).map Entry.id ++ [entry.id] := by
    rw [OutputStore.ids, hinsert, map_append, map_singleton]
  have hcounted : (used.store.insert entry).bytes =
      sizes (used.store.insert entry).entries := by
    rw [hinsert, sizes_append, sizes, sizes, Nat.add_zero, ← hentries,
      ← htidy.counted]
    rfl
  refine ⟨⟨⟨?_, hcounted⟩, ?_, ?_, ?_, ?_⟩,
    gone, kept, horder, hinsert, hleast⟩
  · rw [hnewIds]
    refine nodup_append.mpr ⟨without_keys_nodup h.tidy.distinct gone,
      nodup_singleton _, ?_⟩
    intro id hid other hother heq
    rw [mem_singleton] at hother
    exact hnew (hother ▸ heq ▸ ((hids id).mp hid).1)
  · change (makeRoom entry.bytes.length used.store used.store.lru).bytes +
      entry.bytes.length ≤ totalLimit
    rcases hroom with hempty | hfits
    · obtain ⟨text, hbytes, hlimit⟩ := htext
      have hnone : without gone used.store.entries = [] := by
        apply filter_eq_nil_iff.mpr
        intro other hother
        have hgone : other.id ∈ gone := by
          have hused : other.id ∈ used.store.lru := by
            rw [h.ordered, mem_byLastUse]
            have hid := mem_map_of_mem (f := Entry.id) hother
            exact ⟨h.listed _ hid, hid⟩
          rwa [horder, hempty, append_nil] at hused
        simpa using hgone
      rw [htidy.counted, hentries, hnone, sizes, Nat.zero_add, hbytes,
        length_utf8]
      exact hlimit.trans (by decide)
    · exact hfits
  · change (makeRoom entry.bytes.length used.store used.store.lru).lru ++
      [entry.id] = byLastUse (used.uses ++ [entry.id])
        (used.store.insert entry).ids
    have hlast : entry.id ∈ (used.store.insert entry).ids := by
      rw [hnewIds]
      exact mem_append_right _ (mem_singleton_self _)
    rw [byLastUse_concat hlast, hlru]
    congr 1
    have hdisjoint := disjoint_of_nodup_append
      (horder ▸ h.ordered ▸ byLastUse_nodup used.uses used.store.ids)
    have hkept : kept = used.store.lru.filter (· ∉ gone) := by
      have hgone : gone.filter (· ∉ gone) = [] := by
        apply filter_eq_nil_iff.mpr
        intro id hid
        simpa using hid
      have hself : kept.filter (· ∉ gone) = kept := by
        apply filter_eq_self.mpr
        intro id hid
        simpa using fun hmem => hdisjoint hmem hid
      rw [horder, filter_append, hgone, hself, nil_append]
    rw [hkept, h.ordered, byLastUse, byLastUse, filter_filter, filter_filter]
    apply filter_congr
    intro id _
    rw [hnewIds]
    by_cases hid : id = entry.id
    · simp [hid, hnew]
    · simp [hid, hids, and_comm]
  · intro id hid
    rw [hnewIds] at hid
    rcases mem_append.mp hid with hold | hlast
    · exact mem_append_left _ (h.listed id ((hids id).mp hold).1)
    · exact mem_append_right _ hlast
  · intro other hother
    rw [hinsert] at hother
    rcases mem_append.mp hother with hold | hlast
    · exact h.texts other (mem_without.mp hold).1
    · rw [mem_singleton.mp hlast]
      exact htext

theorem read_store (now : Nat) (id : Str) (offset maxBytes : Nat)
    (store : OutputStore) :
    (∃ message, store.read now id offset maxBytes =
        (.error message, store.cleanup now)) ∨
      ∃ chunk, id ∈ (store.cleanup now).ids ∧
        store.read now id offset maxBytes =
          (.ok chunk, { store.cleanup now with
            lru := (store.cleanup now).lru.filter (· ≠ id) ++ [id] }) := by
  cases hfind : find Entry.id (store.cleanup now).entries id with
  | none => exact .inl ⟨unavailable, by simp only [OutputStore.read, hfind]⟩
  | some entry =>
    cases hchunk : chunkOf entry offset maxBytes with
    | error message =>
      exact .inl ⟨message, by simp only [OutputStore.read, hfind, hchunk]⟩
    | ok chunk =>
      refine .inr ⟨chunk, mem_keys_iff.mpr ⟨entry, hfind⟩, ?_⟩
      simp only [OutputStore.read, hfind, hchunk]

theorem evicts_nothing {event : OutputEvent} (h : StoreInvariant used)
    (hstored : event.stored = [])
    (hafter : after.store.entries = (used.store.cleanup event.now).entries) :
    Evicts used event after := by
  refine ⟨[], _, (nil_append _).symm, ?_, ?_⟩
  · rw [without_nil, hstored, append_nil, hafter, cleanup_entries h.tidy]
  · intro fewer hfewer hne
    exact absurd (prefix_nil.mp hfewer) hne

theorem read_step {now : Nat}
    {offset maxBytes : Nat} (h : StoreInvariant used)
    (hstep : used.step (.read now id offset maxBytes) = some after) :
    StoreInvariant after ∧
      Evicts used (.read now id offset maxBytes) after := by
  obtain rfl := Option.some.inj hstep
  have hclean := h.cleanup now
  rcases read_store now id offset maxBytes used.store with
    ⟨message, hread⟩ | ⟨chunk, hid, hread⟩
  · refine ⟨?_, evicts_nothing h rfl (by rw [hread]; rfl)⟩
    simp only [hread]
    change StoreInvariant ⟨used.store.cleanup now, used.uses ++ []⟩
    rw [append_nil]
    exact hclean
  · refine ⟨?_, evicts_nothing h rfl (by rw [hread]; rfl)⟩
    simp only [hread]
    exact hclean.use hid

theorem protect_step {now : Nat} {text uuid : Str}
    {inlineLimit : Nat} (h : StoreInvariant used)
    (hstep : used.step (.protect now text inlineLimit uuid) = some after) :
    StoreInvariant after ∧
      Evicts used (.protect now text inlineLimit uuid) after := by
  have hclean := h.cleanup now
  have hentries := cleanup_entries h.tidy now
  by_cases hused : outputId uuid ∈ used.store.ids
  · cases (if_pos hused).symm.trans hstep
  · obtain rfl := Option.some.inj ((if_neg hused).symm.trans hstep)
    by_cases hshort : len text ≤ inlineLimit
    · have hprotect : used.store.protect now text inlineLimit uuid =
          (⟨text, false, none, len text, false⟩, used.store.cleanup now) :=
        if_pos hshort
      refine ⟨?_, evicts_nothing h (if_pos hshort) (by rw [hprotect]; rfl)⟩
      rw [hprotect]
      change StoreInvariant ⟨used.store.cleanup now, used.uses ++ []⟩
      rw [append_nil]
      exact hclean
    · have hstored : (OutputEvent.protect now text inlineLimit uuid).stored =
          [entryOf now text uuid] := if_neg hshort
      have hprotect : (used.store.protect now text inlineLimit uuid).2 =
            (used.store.cleanup now).insert (entryOf now text uuid) ∧
          (used.store.protect now text inlineLimit uuid).1.outputId =
            some (outputId uuid) := by
        rw [OutputStore.protect, if_neg hshort]
        exact ⟨rfl, rfl⟩
      have hnew : (entryOf now text uuid).id ∉
          (used.store.cleanup now).ids := by
        intro hid
        rw [OutputStore.ids, hentries] at hid
        exact hused (survivors_keys hid)
      obtain ⟨kept, hbytes, -, hlimit⟩ := entryOf_bytes now text uuid
      obtain ⟨hkeeps, gone, rest, hsplit, hinsert, hleast⟩ :=
        insert_spec hclean hnew ⟨kept, hbytes, hlimit⟩
      rw [hprotect.1, hprotect.2]
      refine ⟨hkeeps, gone, rest, ?_, ?_, ?_⟩
      · rw [← hsplit, hclean.ordered, OutputStore.ids, hentries]
        rfl
      · rw [hstored, ← cleanup_entries h.tidy]
        exact hinsert
      · intro fewer hfewer hne
        rw [hstored, ← cleanup_entries h.tidy, sizes, sizes, Nat.add_zero]
        exact hleast fewer hfewer hne

/-- One step keeps the three fields in step and throws out the entries that
were used least recently. -/
theorem StoreInvariant.step {used after : UsedStore} {event : OutputEvent}
    (h : StoreInvariant used) (hstep : storing.step used event = some after) :
    StoreInvariant after ∧ Evicts used event after := by
  cases event with
  | protect now text inlineLimit uuid => exact protect_step h hstep
  | read now id offset maxBytes => exact read_step h hstep
  | cleanup now =>
    obtain rfl := Option.some.inj hstep
    exact ⟨h.cleanup now, evicts_nothing h rfl rfl⟩

theorem fresh_invariant : StoreInvariant UsedStore.fresh := by
  refine ⟨⟨nodup_nil, rfl⟩, Nat.zero_le _, rfl, ?_, ?_⟩
  · intro id hid
    exact absurd hid not_mem_nil
  · intro entry hentry
    exact absurd hentry not_mem_nil

theorem reachable_invariant
    (h : storing.Reachable used) : StoreInvariant used :=
  h.invariant (fun _ hinit => hinit ▸ fresh_invariant)
    fun _ _ _ hinv hstep => (hinv.step hstep).1

theorem consistent_from (h : StoreInvariant used) (events : List OutputEvent) :
    storing.Throughout Consistent used events := by
  induction events generalizing used with
  | nil => exact h.consistent
  | cons event events ih =>
    exact ⟨h.consistent, fun _ hstep => ih (h.step hstep).1⟩

theorem consistent_throughout (events : List OutputEvent) :
    storing.Throughout Consistent UsedStore.fresh events :=
  consistent_from fresh_invariant events

theorem evictsOldest_along (events : List OutputEvent) :
    storing.Along EvictsOldest UsedStore.fresh events :=
  storing.along_of_invariant (P := fun _ _ => True)
    (fun _ _ _ h hstep => (h.step hstep).1)
    (fun _ _ h _ _ hstep => (h.step hstep).2) fresh_invariant
    (storing.along_of_forall (fun _ _ _ => trivial) _)

end NiceTerm.Capabilities
