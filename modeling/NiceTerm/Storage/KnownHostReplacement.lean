/-
The record of one host is replaced.  Whole lines are removed for it, so the
other hosts keep their keys exactly if each key that was lost with such a line
is given to them by another one.
-/
import NiceTerm.Storage.KnownHosts

namespace NiceTerm.Storage

open List
open KnownHostsFile (Hashing)
open RustStr (Str)
open Snapshot (AppError)

/-- The names under which the records of a host are stored. -/
def keysOfHost (hashing : Hashing) (hostIdentifier : Str) :
    List (Str × KnownHostLine) → Except AppError (List Str)
  | [] => .ok []
  | (key, value) :: rest =>
    if knownHostRawPrefix.isPrefixOf key then
      keysOfHost hashing hostIdentifier rest
    else
      match value.deserialize with
      | .error error => .error error
      | .ok record =>
        (keysOfHost hashing hostIdentifier rest).map fun keys =>
          if knownHostRecordMatches hashing record hostIdentifier then
            key :: keys
          else keys

open Table

def KnownHosts.removeForHost (hashing : Hashing) (table : KnownHosts)
    (hostIdentifier : Str) : Except AppError KnownHosts :=
  (keysOfHost hashing hostIdentifier table.entries).map fun keys =>
    keys.foldl remove table

variable (digests : Digests)

def KnownHosts.replaceForHost (table : KnownHosts)
    (hostIdentifier line : Str) : Except AppError KnownHosts :=
  (table.removeForHost digests.toHashing hostIdentifier).map fun table =>
    table.saveLine digests line

/-- A table as the lines of a text leave it. -/
structure KnownHosts.Named (table : KnownHosts) : Prop where
  named : ∀ entry ∈ table.entries, WellNamed entry
  front : ∀ entry ∈ table.entries, knownHostPrefix.isPrefixOf entry.1 = true

def KnownHosts.load (text : Str) : KnownHosts :=
  KnownHosts.replaceText digests empty text

variable {table : KnownHosts}

theorem KnownHosts.Named.saveLine (h : table.Named)
    (digests : Digests) (line : Str) : (table.saveLine digests line).Named := by
  unfold KnownHosts.saveLine
  cases hstored : storedLine digests line with
  | none => exact h
  | some entry =>
    obtain ⟨key, value⟩ := entry
    have hcases : ∀ other ∈ (table.insert key value).entries,
        other = (key, value) ∨ other ∈ table.entries := by
      intro other hmem
      exact (mem_insert.mp hmem).imp_right fun hold => hold.2
    constructor
    · intro other hmem
      rcases hcases other hmem with rfl | hold
      · exact storedLine_wellNamed hstored
      · exact h.named other hold
    · intro other hmem
      rcases hcases other hmem with rfl | hold
      · exact storedLine_prefix hstored
      · exact h.front other hold

theorem KnownHosts.load_named (text : Str) :
    (KnownHosts.load digests text).Named := by
  have hempty : KnownHosts.Named (KnownHosts.clearPrefix empty
      knownHostPrefix) := by
    constructor
    · intro entry hmem
      exact absurd (mem_removeIf.mp hmem).1 mem_empty
    · intro entry hmem
      exact absurd (mem_removeIf.mp hmem).1 mem_empty
  unfold KnownHosts.load KnownHosts.replaceText
  generalize KnownHosts.clearPrefix empty knownHostPrefix = table
    at hempty
  induction RustStr.lines text generalizing table with
  | nil => exact hempty
  | cons line rest ih => exact ih _ (hempty.saveLine digests line)

/-- A record of a table gives the host the key. -/
def GivesKey (hashing : Hashing) (table : KnownHosts)
    (host keyType key : Str) : Prop :=
  ∃ name record, (name, KnownHostLine.host record) ∈ table.entries ∧
    Answers hashing host keyType key record

theorem listRaw_of_named (h : table.Named) :
    table.listRawByPrefix knownHostPrefix = table.entries :=
  filter_eq_self.mpr h.front

variable {hashing : Hashing} {host : Str}

theorem checkKnownHost_matched (h : table.Named) {keyType key : Str} :
    table.checkKnownHost hashing host keyType key = .ok .matched ↔
      GivesKey hashing table host keyType key := by
  rw [KnownHosts.checkKnownHost, listRaw_of_named h,
    checkRecords_eq_matched h.named]
  constructor
  · rintro ⟨record, name, hmem, hanswers⟩
    exact ⟨name, record, hmem, hanswers⟩
  · rintro ⟨name, record, hmem, hanswers⟩
    exact ⟨record, name, hmem, hanswers⟩

/-- A record of the list is of the host. -/
def Seen (hashing : Hashing) (host : Str)
    (records : List (Str × KnownHostLine)) : Prop :=
  ∃ name record, (name, KnownHostLine.host record) ∈ records ∧
    knownHostRecordMatches hashing record host = true

/-- Without the key, the answer tells whether the host has another one. -/
theorem checkRecords_of_not_matched
    {keyType key : Str} {hostSeen : Bool}
    {records : List (Str × KnownHostLine)}
    (hnamed : ∀ entry ∈ records, WellNamed entry)
    (hnone : checkRecords hashing host keyType key hostSeen records ≠
      .ok .matched) :
    (hostSeen = true ∨ Seen hashing host records) ∧
        checkRecords hashing host keyType key hostSeen records =
          .ok .hostSeen ∨
      (hostSeen = false ∧ ¬ Seen hashing host records) ∧
        checkRecords hashing host keyType key hostSeen records =
          .ok .unknownHost := by
  induction records generalizing hostSeen with
  | nil =>
    cases hostSeen with
    | true => exact .inl ⟨.inl rfl, rfl⟩
    | false =>
      refine .inr ⟨⟨rfl, ?_⟩, rfl⟩
      rintro ⟨name, record, hmem, -⟩
      exact absurd hmem not_mem_nil
  | cons entry rest ih =>
    obtain ⟨hentry, hrest⟩ := forall_mem_cons.mp hnamed
    obtain ⟨name, value⟩ := entry
    rw [checkRecords] at hnone ⊢
    cases value with
    | raw line =>
      have hname : knownHostRawPrefix.isPrefixOf name = true := hentry
      rw [if_pos hname] at hnone ⊢
      have hsame : Seen hashing host ((name, .raw line) :: rest) ↔
          Seen hashing host rest := by simp [Seen]
      rw [hsame]
      exact ih hrest hnone
    | host record =>
      have hname : knownHostRawPrefix.isPrefixOf name = false := hentry
      simp only [hname, Bool.false_eq_true, ↓reduceIte,
        KnownHostLine.deserialize] at hnone ⊢
      by_cases hmatch : knownHostRecordMatches hashing record host = true
      · have hseen : Seen hashing host ((name, .host record) :: rest) :=
          ⟨name, record, mem_cons_self, hmatch⟩
        rw [if_pos hmatch] at hnone ⊢
        by_cases hkey : record.keyType = keyType ∧ record.keyBase64 = key
        · exact absurd (if_pos hkey) hnone
        · rw [if_neg hkey] at hnone ⊢
          rcases ih hrest hnone with ⟨-, hresult⟩ | ⟨⟨hfalse, -⟩, -⟩
          · exact .inl ⟨.inr hseen, hresult⟩
          · cases hfalse
      · rw [if_neg hmatch] at hnone ⊢
        have hsame : Seen hashing host ((name, .host record) :: rest) ↔
            Seen hashing host rest := by
          constructor
          · rintro ⟨other, found, hmem, hfound⟩
            rcases mem_cons.mp hmem with heq | hmem
            · obtain ⟨-, heq⟩ := Prod.mk.inj heq
              obtain rfl := KnownHostLine.host.inj heq
              exact absurd hfound hmatch
            · exact ⟨other, found, hmem, hfound⟩
          · rintro ⟨other, found, hmem, hfound⟩
            exact ⟨other, found, mem_cons_of_mem _ hmem, hfound⟩
        rw [hsame]
        exact ih hrest hnone

/-- The host is seen exactly if it has a key. -/
theorem seen_iff :
    Seen hashing host table.entries ↔
      ∃ keyType key, GivesKey hashing table host keyType key := by
  constructor
  · rintro ⟨name, record, hmem, hmatch⟩
    exact ⟨record.keyType, record.keyBase64, name, record, hmem, hmatch, rfl,
      rfl⟩
  · rintro ⟨keyType, key, name, record, hmem, hmatch, -⟩
    exact ⟨name, record, hmem, hmatch⟩

/-- All answers for a host are the same exactly if its keys are. -/
theorem checkKnownHost_congr {before after : KnownHosts}
    (hbefore : before.Named) (hafter : after.Named) :
    (∀ keyType key, after.checkKnownHost hashing host keyType key =
        before.checkKnownHost hashing host keyType key) ↔
      ∀ keyType key, GivesKey hashing after host keyType key ↔
        GivesKey hashing before host keyType key := by
  constructor
  · intro hsame keyType key
    rw [← checkKnownHost_matched hafter, ← checkKnownHost_matched hbefore,
      hsame]
  · intro hkeys keyType key
    have hmatched : after.checkKnownHost hashing host keyType key =
          .ok .matched ↔
        before.checkKnownHost hashing host keyType key = .ok .matched := by
      rw [checkKnownHost_matched hafter, checkKnownHost_matched hbefore, hkeys]
    have hseen : Seen hashing host after.entries ↔
        Seen hashing host before.entries := by
      simp only [seen_iff, hkeys]
    by_cases hmatch : before.checkKnownHost hashing host keyType key =
        .ok .matched
    · rw [hmatched.mpr hmatch, hmatch]
    · have hnot := mt hmatched.mp hmatch
      unfold KnownHosts.checkKnownHost at hmatch hnot ⊢
      rw [listRaw_of_named hbefore] at hmatch ⊢
      rw [listRaw_of_named hafter] at hnot ⊢
      rcases checkRecords_of_not_matched hafter.named hnot with
        ⟨hthere, hresult⟩ | ⟨⟨-, hthere⟩, hresult⟩
      · rcases checkRecords_of_not_matched hbefore.named hmatch with
          ⟨-, hresult'⟩ | ⟨⟨-, hnone⟩, -⟩
        · rw [hresult, hresult']
        · have hsome := hthere.resolve_left Bool.false_ne_true
          exact absurd (hseen.mp hsome) hnone
      · rcases checkRecords_of_not_matched hbefore.named hmatch with
          ⟨hsome, -⟩ | ⟨-, hresult'⟩
        · have hsome := hsome.resolve_left Bool.false_ne_true
          exact absurd (hseen.mpr hsome) hthere
        · rw [hresult, hresult']

theorem keysOfHost_spec (hashing : Hashing) (host : Str)
    {records : List (Str × KnownHostLine)}
    (hnamed : ∀ entry ∈ records, WellNamed entry) :
    ∃ keys, keysOfHost hashing host records = .ok keys ∧
      ∀ key, key ∈ keys ↔ ∃ record, (key, KnownHostLine.host record) ∈ records ∧
        knownHostRecordMatches hashing record host = true := by
  induction records with
  | nil => exact ⟨[], rfl, fun key => by simp⟩
  | cons entry rest ih =>
    obtain ⟨hentry, hrest⟩ := forall_mem_cons.mp hnamed
    obtain ⟨keys, hkeys, hspec⟩ := ih hrest
    obtain ⟨name, value⟩ := entry
    rw [keysOfHost]
    cases value with
    | raw line =>
      have hname : knownHostRawPrefix.isPrefixOf name = true := hentry
      rw [if_pos hname]
      refine ⟨keys, hkeys, fun key => ?_⟩
      rw [hspec]
      simp
    | host record =>
      have hname : knownHostRawPrefix.isPrefixOf name = false := hentry
      simp only [hname, Bool.false_eq_true, ↓reduceIte,
        KnownHostLine.deserialize, hkeys, Except.map]
      refine ⟨_, rfl, fun key => ?_⟩
      by_cases hmatch : knownHostRecordMatches hashing record host = true
      · rw [if_pos hmatch, mem_cons, hspec]
        constructor
        · rintro (rfl | ⟨found, hmem, hfound⟩)
          · exact ⟨record, mem_cons_self, hmatch⟩
          · exact ⟨found, mem_cons_of_mem _ hmem, hfound⟩
        · rintro ⟨found, hmem, hfound⟩
          rcases mem_cons.mp hmem with heq | hmem
          · exact .inl (Prod.mk.inj heq).1
          · exact .inr ⟨found, hmem, hfound⟩
      · rw [if_neg hmatch, hspec]
        constructor
        · rintro ⟨found, hmem, hfound⟩
          exact ⟨found, mem_cons_of_mem _ hmem, hfound⟩
        · rintro ⟨found, hmem, hfound⟩
          rcases mem_cons.mp hmem with heq | hmem
          · obtain rfl := KnownHostLine.host.inj (Prod.mk.inj heq).2
            exact absurd hfound hmatch
          · exact ⟨found, hmem, hfound⟩

theorem mem_removeAll {keys : List Str} {entry : Str × KnownHostLine} :
    entry ∈ (keys.foldl remove table).entries ↔
      entry ∈ table.entries ∧ entry.1 ∉ keys := by
  induction keys generalizing table with
  | nil => simp
  | cons key rest ih =>
    rw [foldl_cons, ih, mem_remove, mem_cons, not_or, and_assoc]

/-- The records of the host are gone, and nothing else. -/
theorem removeForHost_spec (h : table.Named) (hashing : Hashing) (host : Str) :
    ∃ left, table.removeForHost hashing host = .ok left ∧ left.Named ∧
      ∀ name record, (name, KnownHostLine.host record) ∈ left.entries ↔
        (name, KnownHostLine.host record) ∈ table.entries ∧
          knownHostRecordMatches hashing record host = false := by
  obtain ⟨keys, hkeys, hspec⟩ := keysOfHost_spec hashing host h.named
  refine ⟨_, by rw [KnownHosts.removeForHost, hkeys]; rfl, ⟨?_, ?_⟩, ?_⟩
  · exact fun entry hmem => h.named entry (mem_removeAll.mp hmem).1
  · exact fun entry hmem => h.front entry (mem_removeAll.mp hmem).1
  · intro name record
    rw [mem_removeAll]
    refine and_congr_right fun hmem => ?_
    rw [hspec, Bool.eq_false_iff]
    refine not_congr ⟨?_, fun hmatch => ⟨record, hmem, hmatch⟩⟩
    rintro ⟨other, hother, hmatch⟩
    obtain rfl := KnownHostLine.host.inj (value_unique hmem hother)
    exact hmatch

/-- A record that is gone after the replacement, with its name. -/
def Lost (table : KnownHosts) (host : Str) (new old : KnownHostRecord) : Prop :=
  ∃ name, (name, KnownHostLine.host old) ∈ table.entries ∧
    (knownHostRecordMatches digests.toHashing old host = true ∨
      name = knownHostKey digests new)

/-- A record that is there after the replacement. -/
def Remains (table : KnownHosts) (host : Str)
    (new record : KnownHostRecord) : Prop :=
  record = new ∨ ∃ name, (name, KnownHostLine.host record) ∈ table.entries ∧
    knownHostRecordMatches digests.toHashing record host = false ∧
    name ≠ knownHostKey digests new

theorem replaceForHost_spec {digests : Digests}
    (h : table.Named) (host : Str) {line : Str} {new : KnownHostRecord}
    (hline : parseKnownHostLine (RustStr.trim line) = some new) :
    ∃ after, table.replaceForHost digests host line = .ok after ∧
      after.Named ∧ ∀ record,
        (∃ name, (name, KnownHostLine.host record) ∈ after.entries) ↔
          Remains digests table host new record := by
  obtain ⟨left, hleft, hnamed, hspec⟩ :=
    removeForHost_spec h digests.toHashing host
  refine ⟨left.saveLine digests line,
    by rw [KnownHosts.replaceForHost, hleft]; rfl, hnamed.saveLine _ _,
    fun record => ?_⟩
  rw [KnownHosts.saveLine, storedLine_host hline]
  simp only [mem_insert, hspec]
  constructor
  · rintro ⟨name, heq | ⟨hne, hmem, hmatch⟩⟩
    · exact .inl (KnownHostLine.host.inj (Prod.mk.inj heq).2)
    · exact .inr ⟨name, hmem, hmatch, hne⟩
  · rintro (rfl | ⟨name, hmem, hmatch, hne⟩)
    · exact ⟨_, .inl rfl⟩
    · exact ⟨name, .inr ⟨hne, hmem, hmatch⟩⟩

/-- No key of another host goes with a removed line alone, and the new line
brings no other host a key. -/
structure SparesOthers (digests : Digests) (table : KnownHosts) (host : Str)
    (new : KnownHostRecord) : Prop where
  kept : ∀ old, Lost digests table host new old → ∀ other, other ≠ host →
    knownHostRecordMatches digests.toHashing old other = true →
    ∃ record, Remains digests table host new record ∧
      Answers digests.toHashing other old.keyType old.keyBase64 record
  added : ∀ other, other ≠ host →
    knownHostRecordMatches digests.toHashing new other = true →
    GivesKey digests.toHashing table other new.keyType new.keyBase64

/-- What the host and the others are told after the replacement. -/
structure Replaces (hashing : Hashing) (before after : KnownHosts)
    (host : Str) (new : KnownHostRecord) : Prop where
  others : ∀ other, other ≠ host → ∀ keyType key,
    after.checkKnownHost hashing other keyType key =
      before.checkKnownHost hashing other keyType key
  host : ∀ keyType key,
    after.checkKnownHost hashing host keyType key = .ok .matched ↔
      keyType = new.keyType ∧ key = new.keyBase64

theorem replaces_iff {digests : Digests}
    (h : table.Named) {line : Str} {new : KnownHostRecord}
    (hline : parseKnownHostLine (RustStr.trim line) = some new)
    (hnames : knownHostRecordMatches digests.toHashing new host = true) :
    ∃ after, table.replaceForHost digests host line = .ok after ∧
      (Replaces digests.toHashing table after host new ↔
        SparesOthers digests table host new) := by
  obtain ⟨after, hafter, hnamed, hspec⟩ := replaceForHost_spec h host hline
  refine ⟨after, hafter, ?_⟩
  have hgives : ∀ other keyType key,
      GivesKey digests.toHashing after other keyType key ↔
        ∃ record, Remains digests table host new record ∧
          Answers digests.toHashing other keyType key record := by
    intro other keyType key
    constructor
    · rintro ⟨name, record, hmem, hanswers⟩
      exact ⟨record, (hspec record).mp ⟨name, hmem⟩, hanswers⟩
    · rintro ⟨record, hremains, hanswers⟩
      obtain ⟨name, hmem⟩ := (hspec record).mpr hremains
      exact ⟨name, record, hmem, hanswers⟩
  constructor
  · intro hreplaces
    have hsame : ∀ other, other ≠ host → ∀ keyType key, _ :=
      fun other hother =>
        (checkKnownHost_congr h hnamed).mp (hreplaces.others other hother)
    constructor
    · rintro old ⟨name, hmem, -⟩ other hother hmatch
      rw [← hgives, hsame other hother]
      exact ⟨name, old, hmem, hmatch, rfl, rfl⟩
    · intro other hother hmatch
      rw [← hsame other hother, hgives]
      exact ⟨new, .inl rfl, hmatch, rfl, rfl⟩
  · intro hspares
    constructor
    · intro other hother
      refine (checkKnownHost_congr h hnamed).mpr fun keyType key => ?_
      rw [hgives]
      constructor
      · rintro ⟨record, rfl | ⟨name, hmem, -⟩, hanswers⟩
        · obtain ⟨hmatch, rfl, rfl⟩ := hanswers
          exact hspares.added other hother hmatch
        · exact ⟨name, record, hmem, hanswers⟩
      · rintro ⟨name, old, hmem, hanswers⟩
        by_cases hlost : Lost digests table host new old
        · obtain ⟨hmatch, rfl, rfl⟩ := hanswers
          exact hspares.kept old hlost other hother hmatch
        · refine ⟨old, .inr ⟨name, hmem, ?_, ?_⟩, hanswers⟩
          · rw [Bool.eq_false_iff]
            exact fun hmatch => hlost ⟨name, hmem, .inl hmatch⟩
          · exact fun hname => hlost ⟨name, hmem, .inr hname⟩
    · intro keyType key
      rw [checkKnownHost_matched hnamed, hgives]
      constructor
      · rintro ⟨record, rfl | ⟨name, hmem, hmatch, -⟩, hanswers⟩
        · exact ⟨hanswers.2.1.symm, hanswers.2.2.symm⟩
        · rw [hanswers.1] at hmatch
          cases hmatch
      · rintro ⟨rfl, rfl⟩
        exact ⟨new, .inl rfl, hnames, rfl, rfl⟩

/-- A line of a known hosts text is replaced for one host. -/
theorem replacement_spares_iff (digests : Digests) (text host : Str)
    {line : Str} {new : KnownHostRecord}
    (hline : parseKnownHostLine (RustStr.trim line) = some new)
    (hnames : knownHostRecordMatches digests.toHashing new host = true) :
    ∃ after, (KnownHosts.load digests text).replaceForHost digests host line =
        .ok after ∧
      (Replaces digests.toHashing (KnownHosts.load digests text) after host
          new ↔
        SparesOthers digests (KnownHosts.load digests text) host new) :=
  replaces_iff (KnownHosts.load_named digests text) hline hnames

def sharedDigests : Digests :=
  knownDigests [
    ("|a,b|ssh-ed25519", [0x7f, 0x56, 0xdd, 0xb5, 0x44, 0x92, 0x84, 0x65,
      0xe2, 0xb7, 0xc2, 0x98, 0x5a, 0x4e, 0xdf, 0xdb]),
    ("|a|ssh-ed25519", [0x62, 0xea, 0x2f, 0xd3, 0x92, 0x22, 0x27, 0xf7, 0x4a,
      0x74, 0x2e, 0x88, 0x70, 0x5a, 0x8c, 0x15]),
    ("|b|ssh-ed25519", [0x22, 0xc2, 0x90, 0x03, 0x7e, 0xa1, 0x37, 0xaf, 0x46,
      0x40, 0x34, 0x5f, 0x73, 0x61, 0xa0, 0x21])]

def newRecord : KnownHostRecord where
  marker := none
  hostIdentifier := "a".toList
  hostPatterns := ["a".toList]
  keyType := "ssh-ed25519".toList
  keyBase64 := "BBBB".toList
  comment := none
  rawLine := some "a ssh-ed25519 BBBB".toList

def sharedLine : Str := "a,b ssh-ed25519 AAAA".toList
def newLine : Str := "a ssh-ed25519 BBBB".toList

theorem parse_newLine :
    parseKnownHostLine (RustStr.trim newLine) = some newRecord := by
  decide +kernel

/-- The key of `b` goes with the line that names `a`, too. -/
theorem shared_line_removed :
    ∃ after, (KnownHosts.load sharedDigests sharedLine).replaceForHost
        sharedDigests "a".toList newLine = .ok after ∧
      ¬ Replaces sharedDigests.toHashing
        (KnownHosts.load sharedDigests sharedLine) after "a".toList
        newRecord := by
  have hbefore : (KnownHosts.load sharedDigests sharedLine).checkKnownHost
      sharedDigests.toHashing "b".toList "ssh-ed25519".toList "AAAA".toList =
        .ok .matched := by
    decide +kernel
  have hcheck : ((KnownHosts.load sharedDigests sharedLine).replaceForHost
      sharedDigests "a".toList newLine).bind (fun after =>
        after.checkKnownHost sharedDigests.toHashing "b".toList
          "ssh-ed25519".toList "AAAA".toList) = .ok .unknownHost := by
    decide +kernel
  cases hafter : (KnownHosts.load sharedDigests sharedLine).replaceForHost
      sharedDigests "a".toList newLine with
  | error error =>
    rw [hafter] at hcheck
    cases hcheck
  | ok after =>
    refine ⟨after, rfl, fun hreplaces => ?_⟩
    have hsame := hreplaces.others "b".toList (by decide)
      "ssh-ed25519".toList "AAAA".toList
    rw [hafter] at hcheck
    change after.checkKnownHost _ _ _ _ = _ at hcheck
    rw [hcheck, hbefore] at hsame
    cases hsame

def spareRecord : KnownHostRecord :=
  { newRecord with
    hostIdentifier := "b".toList
    hostPatterns := ["b".toList]
    keyBase64 := "AAAA".toList
    rawLine := some "b ssh-ed25519 AAAA".toList }

def sharedRecord : KnownHostRecord :=
  { spareRecord with
    hostIdentifier := "a".toList
    hostPatterns := ["a".toList, "b".toList]
    rawLine := some sharedLine }

/-- The key of `b` is given in a line of its own, too. -/
def sparedText : Str :=
  sharedLine ++ "\nb ssh-ed25519 AAAA".toList

theorem sparedText_entries :
    (KnownHosts.load sharedDigests sparedText).entries =
      [(knownHostKey sharedDigests spareRecord, .host spareRecord),
        (knownHostKey sharedDigests sharedRecord, .host sharedRecord)] := by
  decide +kernel

theorem spareRecord_remains :
    Remains sharedDigests (KnownHosts.load sharedDigests sparedText)
      "a".toList newRecord spareRecord := by
  refine .inr ⟨knownHostKey sharedDigests spareRecord, ?_, by decide,
    by decide +kernel⟩
  rw [sparedText_entries]
  exact mem_cons_self

/-- The shared line goes, and `b` keeps its key. -/
theorem spare_line_kept :
    ∃ after, (KnownHosts.load sharedDigests sparedText).replaceForHost
        sharedDigests "a".toList newLine = .ok after ∧
      Replaces sharedDigests.toHashing
        (KnownHosts.load sharedDigests sparedText) after "a".toList
        newRecord := by
  obtain ⟨after, hafter, hreplaces⟩ := replacement_spares_iff sharedDigests
    sparedText "a".toList parse_newLine (by decide +kernel)
  refine ⟨after, hafter, hreplaces.mpr ⟨?_, ?_⟩⟩
  · rintro old ⟨name, hmem, hlost⟩ other hother hmatch
    simp only [sparedText_entries, mem_cons, not_mem_nil, or_false,
      Prod.mk.injEq, KnownHostLine.host.injEq] at hmem
    rcases hmem with ⟨rfl, rfl⟩ | ⟨rfl, rfl⟩
    · have hkept : ¬ (knownHostRecordMatches sharedDigests.toHashing
          spareRecord "a".toList = true ∨
          knownHostKey sharedDigests spareRecord =
            knownHostKey sharedDigests newRecord) := by decide +kernel
      exact absurd hlost hkept
    · have hnamed : ((false || (['a'] == other || false)) ||
          (['b'] == other || false)) = true := hmatch
      simp only [Bool.false_or, Bool.or_false, Bool.or_eq_true,
        beq_iff_eq] at hnamed
      obtain rfl := hnamed.resolve_left (Ne.symm hother)
      exact ⟨spareRecord, spareRecord_remains, by decide⟩
  · intro other hother hmatch
    have hnamed : (false || (['a'] == other || false)) = true := hmatch
    simp only [Bool.false_or, Bool.or_false, beq_iff_eq] at hnamed
    exact absurd hnamed.symm hother

end NiceTerm.Storage
