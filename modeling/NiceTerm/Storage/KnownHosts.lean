/-
The table of known hosts: a text is stored line by line under digests of the
lines, and a host key is looked up among the records.
-/
import Mathlib.Data.Char
import Mathlib.Data.List.Lex
import NiceTerm.Lib.KnownHostsFile
import NiceTerm.Lib.Table
import NiceTerm.Snapshot.Entities

namespace NiceTerm.Storage

open List Option
open KnownHostsFile (Bytes Hashing LineTrusts Trusts)
open RustStr (Str)
open Snapshot (AppError)
open Table (Latest writeAll mem_writeAll)

def knownHostPrefix : Str := "known_hosts/".toList
def knownHostRawPrefix : Str := "known_hosts/raw/".toList

structure KnownHostRecord where
  marker : Option Str
  hostIdentifier : Str
  hostPatterns : List Str
  keyType : Str
  keyBase64 : Str
  comment : Option Str
  rawLine : Option Str
deriving Repr, DecidableEq

structure KnownHostRawRecord where
  line : Str
deriving Repr, DecidableEq

/-- A value of the table. -/
inductive KnownHostLine where
  | host (record : KnownHostRecord)
  | raw (record : KnownHostRawRecord)
deriving Repr, DecidableEq

abbrev KnownHosts := Table Str KnownHostLine

inductive KnownHostCheck where
  | matched
  | hostSeen
  | unknownHost
deriving Repr, DecidableEq

def hexChar (digit : Nat) : Char :=
  if digit < 10 then Char.ofNat (48 + digit) else Char.ofNat (87 + digit)

def hexEncode (bytes : Bytes) : Str :=
  bytes.flatMap fun byte =>
    [hexChar (byte.toNat / 16), hexChar (byte.toNat % 16)]

/-- The base64, HMAC and SHA-256 implementations. -/
structure Digests extends Hashing where
  sha256 : Bytes → Bytes

def Digests.historyId (digests : Digests) (command : Str) : Str :=
  hexEncode ((digests.sha256 (RustStr.utf8 command)).take 16)

def parseKnownHostLine (line : Str) : Option KnownHostRecord := do
  if line.head? = some '#' then none
  let parts := RustStr.splitWhitespace line
  let first ← parts.head?
  let (marker, hostList, parts) ←
    if first.head? = some '@' then
      parts.tail.head?.map fun hosts => (some first, hosts, parts.tail.tail)
    else some (none, first, parts.tail)
  let keyType ← parts.head?
  let keyBase64 ← parts.tail.head?
  let rest := [' '].intercalate parts.tail.tail
  let comment := if rest.isEmpty then none else some rest
  let hostPatterns := (hostList.splitOn ',').filter fun pattern =>
    !pattern.isEmpty
  let hostIdentifier ← hostPatterns.head?
  some { marker, hostIdentifier, hostPatterns, keyType, keyBase64, comment,
         rawLine := some line }

variable (hashing : Hashing)

def hashedKnownHostMatches (pattern hostIdentifier : Str) : Bool :=
  match pattern.splitOn '|' with
  | [[], ['1'], saltB64, hashB64] =>
    match hashing.decode saltB64 with
    | none => false
    | some salt =>
      match hashing.decode hashB64 with
      | none => false
      | some expected =>
        match hashing.hmacSha1 salt with
        | none => false
        | some mac => expected == mac (RustStr.utf8 hostIdentifier)
  | _ => false

def knownHostPatternMatches (pattern hostIdentifier : Str) : Bool :=
  pattern == hostIdentifier || ("|1|".toList.isPrefixOf pattern &&
      hashedKnownHostMatches hashing pattern hostIdentifier)

def knownHostRecordMatches (record : KnownHostRecord)
    (hostIdentifier : Str) : Bool :=
  let patterns :=
    if record.hostPatterns.isEmpty then [record.hostIdentifier]
    else record.hostPatterns
  Pattern.scan (knownHostPatternMatches hashing) hostIdentifier false patterns

def knownHostKey (digests : Digests) (record : KnownHostRecord) : Str :=
  knownHostPrefix ++ digests.historyId (record.marker.getD [] ++ ['|'] ++
      [','].intercalate record.hostPatterns ++ ['|'] ++ record.keyType)

/-- The key of a value and the value, or nothing for an empty line. -/
def storedLine (digests : Digests) (line : Str) :
    Option (Str × KnownHostLine) :=
  let trimmed := RustStr.trim line
  if trimmed.isEmpty then none
  else
    match parseKnownHostLine trimmed with
    | some record => some (knownHostKey digests record, .host record)
    | none =>
      some (knownHostRawPrefix ++ digests.historyId trimmed,
        .raw { line := trimmed })

def KnownHosts.saveLine (digests : Digests) (table : KnownHosts) (line : Str) :
    KnownHosts :=
  match storedLine digests line with
  | none => table
  | some (key, value) => table.insert key value

variable (table : KnownHosts)

def KnownHosts.clearPrefix (front : Str) : KnownHosts :=
  table.removeIf fun key _ => front.isPrefixOf key

open KnownHosts

def KnownHosts.replaceText (digests : Digests) (table : KnownHosts)
    (content : Str) : KnownHosts :=
  (RustStr.lines content).foldl (saveLine digests)
    (table.clearPrefix knownHostPrefix)

def KnownHosts.listRawByPrefix (front : Str) : List (Str × KnownHostLine) :=
  table.entries.filter fun entry => front.isPrefixOf entry.1

/-- Reading a value as a record fails if it is a raw line. -/
def KnownHostLine.deserialize : KnownHostLine → Except AppError KnownHostRecord
  | .host record => .ok record
  | .raw _ => .error .json

def checkRecords (hashing : Hashing) (hostIdentifier keyType keyBase64 : Str) :
    Bool → List (Str × KnownHostLine) → Except AppError KnownHostCheck
  | hostSeen, [] => .ok (if hostSeen then .hostSeen else .unknownHost)
  | hostSeen, (key, value) :: records =>
    if knownHostRawPrefix.isPrefixOf key then
      checkRecords hashing hostIdentifier keyType keyBase64 hostSeen records
    else
      match value.deserialize with
      | .error error => .error error
      | .ok host =>
        if knownHostRecordMatches hashing host hostIdentifier then
          if host.keyType = keyType ∧ host.keyBase64 = keyBase64 then
            .ok .matched
          else
            checkRecords hashing hostIdentifier keyType keyBase64 true records
        else
          checkRecords hashing hostIdentifier keyType keyBase64 hostSeen
            records

def KnownHosts.checkKnownHost
    (hostIdentifier keyType keyBase64 : Str) : Except AppError KnownHostCheck :=
  checkRecords hashing hostIdentifier keyType keyBase64 false
    (table.listRawByPrefix knownHostPrefix)

/-- The identifier that `check_server_key` looks up. -/
def hostIdentifier (host : Str) (port : Nat) : Str :=
  if port ≠ 22 then
    "[".toList ++ host ++ "]:".toList ++ RustStr.decimal port
  else host

/-! A host key is matched exactly if the file trusts it, unless a marked or an
excluded line answers for it, or the line that trusts it is replaced by another
one or names the host in a way that is not looked for. -/

theorem hexChar_ne {digit : Nat} (h : digit < 16) : hexChar digit ≠ 'r' := by
  revert digit
  decide

theorem not_mem_hexEncode (bytes : KnownHostsFile.Bytes) :
    'r' ∉ hexEncode bytes := by
  intro hmem
  obtain ⟨byte, -, hbyte⟩ := mem_flatMap.mp hmem
  have hlow : byte.toNat % 16 < 16 := Nat.mod_lt _ (by decide)
  have hhigh : byte.toNat / 16 < 16 := by
    have hbound := byte.toNat_lt
    omega
  simp only [mem_cons, not_mem_nil, or_false] at hbyte
  rcases hbyte with heq | heq
  · exact hexChar_ne hhigh heq.symm
  · exact hexChar_ne hlow heq.symm

theorem isPrefixOf_append (front back : Str) :
    front.isPrefixOf (front ++ back) = true :=
  isPrefixOf_iff_prefix.mpr (prefix_append front back)

/-- No digest looks like the name of a raw line. -/
theorem knownHostKey_not_raw (digests : Digests) (record : KnownHostRecord) :
    knownHostRawPrefix.isPrefixOf (knownHostKey digests record) = false := by
  rw [Bool.eq_false_iff, ne_eq, isPrefixOf_iff_prefix]
  have hraw : knownHostRawPrefix = knownHostPrefix ++ "raw/".toList := by decide
  rw [hraw, knownHostKey, prefix_append_right_inj]
  intro hfront
  exact not_mem_hexEncode _ (hfront.subset (by decide))

/-- A value stands under a raw name exactly if it is a raw line. -/
def WellNamed (entry : Str × KnownHostLine) : Prop :=
  match entry.2 with
  | .host _ => knownHostRawPrefix.isPrefixOf entry.1 = false
  | .raw _ => knownHostRawPrefix.isPrefixOf entry.1 = true

variable {digests : Digests} {entry : Str × KnownHostLine}

theorem storedLine_host {line : Str} {record : KnownHostRecord}
    (h : parseKnownHostLine (RustStr.trim line) = some record) :
    storedLine digests line =
      some (knownHostKey digests record, .host record) := by
  have hempty : ¬ (RustStr.trim line).isEmpty = true := by
    intro hempty
    rw [isEmpty_iff.mp hempty] at h
    cases h
  simp only [storedLine, hempty, h, Bool.false_eq_true, ↓reduceIte]

theorem storedLine_wellNamed {line : Str}
    (h : storedLine digests line = some entry) : WellNamed entry := by
  rw [storedLine] at h
  by_cases hempty : (RustStr.trim line).isEmpty
  · simp [hempty] at h
  · cases hparse : parseKnownHostLine (RustStr.trim line) with
    | none =>
      simp only [hempty, hparse, Bool.false_eq_true, ↓reduceIte,
        some.injEq] at h
      subst h
      exact isPrefixOf_append _ _
    | some record =>
      simp only [hempty, hparse, Bool.false_eq_true, ↓reduceIte,
        some.injEq] at h
      subst h
      exact knownHostKey_not_raw digests record

theorem storedLine_prefix {line : Str}
    (h : storedLine digests line = some entry) :
    knownHostPrefix.isPrefixOf entry.1 = true := by
  rw [storedLine] at h
  by_cases hempty : (RustStr.trim line).isEmpty
  · simp [hempty] at h
  · cases hparse : parseKnownHostLine (RustStr.trim line) with
    | none =>
      simp only [hempty, hparse, Bool.false_eq_true, ↓reduceIte,
        some.injEq] at h
      subst h
      have hraw : knownHostRawPrefix = knownHostPrefix ++ "raw/".toList := by
        decide
      rw [hraw, append_assoc]
      exact isPrefixOf_append _ _
    | some record =>
      simp only [hempty, hparse, Bool.false_eq_true, ↓reduceIte,
        some.injEq] at h
      subst h
      exact isPrefixOf_append _ _

/-- What a text is stored as, line by line. -/
def storedLines (digests : Digests) (text : Str) : List (Str × KnownHostLine) :=
  (RustStr.lines text).filterMap (storedLine digests)

theorem foldl_saveLine (digests : Digests) (lines : List Str)
    (table : KnownHosts) :
    lines.foldl (saveLine digests) table =
      writeAll Prod.fst Prod.snd (lines.filterMap (storedLine digests))
        table := by
  induction lines generalizing table with
  | nil => rfl
  | cons line rest ih =>
    rw [foldl_cons, ih, saveLine]
    cases hstored : storedLine digests line with
    | none => rw [filterMap_cons_none hstored]
    | some entry => rw [filterMap_cons_some hstored]; rfl

/-- After a text has been loaded, the table lists its lines, of those with one
name the last. -/
theorem mem_listRaw_replaceText {table : KnownHosts} {text : Str} :
    entry ∈ (table.replaceText digests text).listRawByPrefix knownHostPrefix ↔
      Latest Prod.fst (storedLines digests text) entry := by
  rw [listRawByPrefix, replaceText, foldl_saveLine, mem_filter, mem_writeAll]
  constructor
  · rintro ⟨⟨stored, hlatest, hkey, hvalue⟩ | ⟨-, hold⟩, hfront⟩
    · have heq : stored = entry := Prod.ext hkey hvalue
      exact heq ▸ hlatest
    · rw [clearPrefix, Table.mem_removeIf] at hold
      rw [hfront] at hold
      exact absurd hold.2 (by decide)
  · intro hlatest
    obtain ⟨line, -, hstored⟩ := mem_filterMap.mp hlatest.mem
    exact ⟨.inl ⟨entry, hlatest, rfl, rfl⟩, storedLine_prefix hstored⟩

theorem hostIdentifier_eq (host : Str) (port : Nat) :
    hostIdentifier host port = KnownHostsFile.hostName host port := by
  rw [hostIdentifier, KnownHostsFile.hostName]
  by_cases hport : port = 22 <;> simp [hport]

/-- The record is of the host and carries the key. -/
def Answers (host keyType key : Str) (record : KnownHostRecord) : Prop :=
  knownHostRecordMatches hashing record host = true ∧
    record.keyType = keyType ∧ record.keyBase64 = key

instance (host keyType key : Str) (record : KnownHostRecord) :
    Decidable (Answers hashing host keyType key record) :=
  inferInstanceAs (Decidable (_ ∧ _))

theorem checkRecords_eq_matched {hashing : Hashing} {host keyType key : Str}
    {hostSeen : Bool} {records : List (Str × KnownHostLine)}
    (hnamed : ∀ entry ∈ records, WellNamed entry) :
    checkRecords hashing host keyType key hostSeen records = .ok .matched ↔
      ∃ record name, (name, KnownHostLine.host record) ∈ records ∧
        Answers hashing host keyType key record := by
  induction records generalizing hostSeen with
  | nil => cases hostSeen <;> simp [checkRecords]
  | cons entry rest ih =>
    obtain ⟨hentry, hrest⟩ := forall_mem_cons.mp hnamed
    obtain ⟨name, value⟩ := entry
    rw [checkRecords]
    cases value with
    | raw line =>
      have hname : knownHostRawPrefix.isPrefixOf name = true := hentry
      rw [if_pos hname, ih hrest]
      simp
    | host record =>
      have hname : knownHostRawPrefix.isPrefixOf name = false := hentry
      have hmem : ∀ other stored, (stored, KnownHostLine.host other) ∈
            (name, KnownHostLine.host record) :: rest ↔
          stored = name ∧ other = record ∨
            (stored, KnownHostLine.host other) ∈ rest := by simp
      simp only [hname, Bool.false_eq_true, ↓reduceIte,
        KnownHostLine.deserialize, hmem]
      by_cases hmatch : knownHostRecordMatches hashing record host = true
      · by_cases hkey : record.keyType = keyType ∧ record.keyBase64 = key
        · rw [if_pos hmatch, if_pos hkey]
          exact iff_of_true rfl
            ⟨record, name, .inl ⟨rfl, rfl⟩, hmatch, hkey⟩
        · rw [if_pos hmatch, if_neg hkey, ih hrest]
          grind [Answers]
      · rw [if_neg hmatch, ih hrest]
        grind [Answers]

/-- The record of a line behind which no line is stored under its name. -/
def Kept (digests : Digests) (text : Str) (record : KnownHostRecord) : Prop :=
  Latest Prod.fst (storedLines digests text)
    (knownHostKey digests record, .host record)

theorem host_mem_storedLines {text name : Str} {record : KnownHostRecord}
    (h : (name, KnownHostLine.host record) ∈ storedLines digests text) :
    name = knownHostKey digests record ∧ ∃ line ∈ RustStr.lines text,
        parseKnownHostLine (RustStr.trim line) = some record := by
  obtain ⟨line, hline, hstored⟩ := mem_filterMap.mp h
  rw [storedLine] at hstored
  by_cases hempty : (RustStr.trim line).isEmpty
  · simp [hempty] at hstored
  · cases hparse : parseKnownHostLine (RustStr.trim line) with
    | none => simp [hempty, hparse] at hstored
    | some other =>
      simp only [hempty, hparse, Bool.false_eq_true, ↓reduceIte,
        some.injEq, Prod.mk.injEq, KnownHostLine.host.injEq]
        at hstored
      obtain ⟨rfl, rfl⟩ := hstored
      exact ⟨rfl, line, hline, hparse⟩

/-- A key is matched exactly if a kept record answers. -/
theorem checkKnownHost_eq_matched {table : KnownHosts}
    {text host keyType key : Str} :
    (table.replaceText digests text).checkKnownHost digests.toHashing host
        keyType key = .ok .matched ↔
      ∃ record, Kept digests text record ∧
        Answers digests.toHashing host keyType key record := by
  have hnamed : ∀ entry ∈ (table.replaceText digests text).listRawByPrefix
      knownHostPrefix, WellNamed entry := by
    intro entry hmem
    have hlatest := mem_listRaw_replaceText.mp hmem
    obtain ⟨line, -, hstored⟩ := mem_filterMap.mp hlatest.mem
    exact storedLine_wellNamed hstored
  rw [checkKnownHost, checkRecords_eq_matched hnamed]
  constructor
  · rintro ⟨record, name, hmem, hanswers⟩
    have hlatest := mem_listRaw_replaceText.mp hmem
    obtain ⟨rfl, -⟩ := host_mem_storedLines hlatest.mem
    exact ⟨record, hlatest, hanswers⟩
  · rintro ⟨record, hkept, hanswers⟩
    exact ⟨record, _, mem_listRaw_replaceText.mpr hkept, hanswers⟩

open KnownHostsFile
open Pattern (bare Matches)

section Lines

variable {hashing : Hashing} {hosts host line : Str}

/-- A host name as it is looked up: in lower case, and no hashed name. -/
structure PlainHost (host : Str) : Prop where
  nonempty : host ≠ []
  lower : lowercase host = host
  unhashed : host.head? ≠ some '|'

/-- Every pattern that matches the host spells it out, and a hashed name stands
alone. -/
structure SpelledOut (hosts host : Str) : Prop where
  hashed : '|' ∈ hosts → hosts.head? = some '|' ∧ ',' ∉ hosts
  literal : hosts.head? ≠ some '|' → ∀ pattern ∈ hosts.splitOn ',',
    Matches (lowercase (bare pattern)) host → bare pattern = host

/-- The patterns that a record keeps of a host list. -/
def keptPatterns (hosts : Str) : List Str :=
  (hosts.splitOn ',').filter fun pattern => !pattern.isEmpty

theorem hashNames_of_not
    (h : ∀ salt hash, hosts.splitOn '|' ≠ [[], ['1'], salt, hash]) :
    hashNames hashing hosts host = false := by
  unfold hashNames
  split
  · next salt hash hparts => exact absurd hparts (h salt hash)
  · rfl

theorem hashedKnownHostMatches_of_not
    (h : ∀ salt hash, hosts.splitOn '|' ≠ [[], ['1'], salt, hash]) :
    hashedKnownHostMatches hashing hosts host = false := by
  unfold hashedKnownHostMatches
  split
  · next salt hash hparts => exact absurd hparts (h salt hash)
  · rfl

theorem hashed_eq_hashNames :
    ("|1|".toList.isPrefixOf hosts &&
        hashedKnownHostMatches hashing hosts host) =
      hashNames hashing hosts host := by
  by_cases h : ∃ salt hash, hosts.splitOn '|' = [[], ['1'], salt, hash]
  · obtain ⟨salt, hash, hparts⟩ := h
    have hfront : "|1|".toList.isPrefixOf hosts = true := by
      have hjoin : ['|'].intercalate (hosts.splitOn '|') = hosts :=
        intercalate_splitOn '|'
      rw [List.isPrefixOf_iff_prefix, ← hjoin, hparts]
      exact ⟨salt ++ ['|'] ++ hash, by simp [intercalate]⟩
    simp only [hashedKnownHostMatches, hashNames, hfront, hparts, Bool.true_and]
    cases hashing.decode salt with
    | none => rfl
    | some salt =>
      cases hashing.decode hash with
      | none => cases hmac : hashing.hmacSha1 salt <;> simp [hmac]
      | some expected =>
        cases hmac : hashing.hmacSha1 salt with
        | none => simp [hmac]
        | some mac => simp [hmac]
  · have hother : ∀ salt hash, hosts.splitOn '|' ≠ [[], ['1'], salt, hash] :=
      fun salt hash hparts => h ⟨salt, hash, hparts⟩
    rw [hashedKnownHostMatches_of_not hother, hashNames_of_not hother,
      Bool.and_false]

theorem pattern_subset {pattern : Str} (h : pattern ∈ hosts.splitOn ',') :
    pattern ⊆ hosts := by
  rw [splitOn_eq_splitOnP] at h
  cases hpieces : hosts.splitOnP (· == ',') with
  | nil => exact absurd hpieces (splitOnP_ne_nil _ hosts)
  | cons first others =>
    obtain ⟨hfirst, hothers⟩ := RustStr.splitOnP_pieces hpieces
    rw [hpieces] at h
    rcases mem_cons.mp h with rfl | h
    · exact hfirst.subset
    · exact (hothers pattern h).subset

theorem bare_of_head {pattern : Str} (h : pattern.head? ≠ some '!') :
    bare pattern = pattern := by
  rw [bare, Pattern.negated_eq_none.mpr h, getD_none]

theorem head_lowercase {pattern : Str} :
    (lowercase pattern).head? = some '!' ↔ pattern.head? = some '!' := by
  cases pattern with
  | nil => exact Iff.rfl
  | cons c rest =>
    change some c.toLower = some '!' ↔ some c = some '!'
    rw [some.injEq, some.injEq]
    exact ⟨toLower_eq (by decide), by rintro rfl; decide⟩

/-- A host that is spelled out is named by the patterns that are the host. -/
theorem names_iff_equal (hhost : PlainHost host) (h : SpelledOut hosts host)
    (hplain : hosts.head? ≠ some '|') :
    Pattern.Names Eq (keptPatterns hosts) host ↔
      Pattern.Names Matches ((lowercase hosts).splitOn ',')
        (lowercase host) := by
  have hmatches : Matches (lowercase host) host := by
    rw [hhost.lower]
    exact Pattern.matches_self host
  have hkept : ∀ pattern, pattern ≠ [] → (pattern ∈ keptPatterns hosts ↔
      pattern ∈ hosts.splitOn ',') := by
    intro pattern hne
    simp [keptPatterns, hne]
  rw [lowercase_splitOn, hhost.lower]
  constructor
  · rintro ⟨⟨pattern, hmem, hhead, rfl⟩, hallowed⟩
    refine ⟨⟨_, mem_map_of_mem (mem_filter.mp hmem).1,
      fun hneg => hhead (head_lowercase.mp hneg), hmatches⟩, ?_⟩
    intro inner hneg hinner
    obtain ⟨pattern, hmem, hlower⟩ := mem_map.mp hneg
    obtain ⟨rest, rfl⟩ := head?_eq_some_iff.mp (head_lowercase.mp
      (show (lowercase pattern).head? = some '!' by rw [hlower]; rfl))
    obtain rfl : lowercase rest = inner := (cons.inj hlower).2
    exact hallowed rest ((hkept _ (cons_ne_nil _ _)).mpr hmem)
      (h.literal hplain _ hmem hinner)
  · rintro ⟨⟨_, hlower, hhead, hnamed⟩, hallowed⟩
    obtain ⟨pattern, hmem, rfl⟩ := mem_map.mp hlower
    have hbare : bare pattern = pattern :=
      bare_of_head fun hneg => hhead (head_lowercase.mpr hneg)
    obtain rfl : pattern = host := by
      have hspelled := h.literal hplain pattern hmem
      rw [hbare] at hspelled
      exact hspelled hnamed
    refine ⟨⟨pattern, (hkept _ hhost.nonempty).mpr hmem,
      fun hneg => hhead (head_lowercase.mpr hneg), rfl⟩, ?_⟩
    rintro inner hneg rfl
    exact hallowed (lowercase inner)
      (mem_map_of_mem ((hkept _ (cons_ne_nil _ _)).mp hneg)) hmatches

/-- The record of a host list that spells out the host matches exactly the
hosts that the list names. -/
theorem scan_iff_names (hhost : PlainHost host) {entry : Entry}
    (h : SpelledOut entry.hosts host) :
    Pattern.scan (knownHostPatternMatches hashing) host false
        (keptPatterns entry.hosts) = true ↔ entry.Names hashing host := by
  rw [Entry.Names]
  by_cases hhashed : entry.hosts.head? = some '|'
  · obtain ⟨-, hcomma⟩ := h.hashed (mem_of_head? hhashed)
    have hkept : keptPatterns entry.hosts = [entry.hosts] := by
      rw [keptPatterns, splitOn_eq_singleton hcomma]
      cases hhosts : entry.hosts with
      | nil => rw [hhosts] at hhashed; cases hhashed
      | cons c rest => rfl
    have hneg : Pattern.negated entry.hosts = none :=
      Pattern.negated_eq_none.mpr (by rw [hhashed]; decide)
    have hother : (entry.hosts == host) = false := by
      rw [beq_eq_false_iff_ne]
      rintro rfl
      exact hhost.unhashed hhashed
    rw [if_pos hhashed, hkept, hhost.lower, Pattern.scan, hneg]
    simp only [Pattern.scan, Bool.false_or, knownHostPatternMatches, hother]
    rw [hashed_eq_hashNames]
  · have hbar : '|' ∉ entry.hosts := fun hmem => hhashed (h.hashed hmem).1
    rw [if_neg hhashed, ← names_iff_equal hhost h hhashed,
      @Pattern.scan_congr _ _ (fun pattern text => pattern == text)]
    · exact Pattern.scan_eq_names fun _ _ => beq_iff_eq
    · intro pattern hmem
      have hsubset := pattern_subset (mem_filter.mp hmem).1
      have hfront : "|1|".toList.isPrefixOf (bare pattern) = false := by
        rw [Bool.eq_false_iff, ne_eq, isPrefixOf_iff_prefix]
        intro hfront
        have hin : '|' ∈ bare pattern := hfront.subset (by decide)
        refine hbar (hsubset ?_)
        rw [bare] at hin
        cases hneg : Pattern.negated pattern with
        | none => rwa [hneg] at hin
        | some inner =>
          rw [hneg] at hin
          rw [Pattern.negated_eq_some.mp hneg]
          exact mem_cons_of_mem _ hin
      rw [knownHostPatternMatches, hfront, Bool.false_and, Bool.or_false]

theorem parse_unmarked_eq_some {record : KnownHostRecord}
    (h : parseKnownHostLine line = some record)
    (hmarker : record.marker = none) :
    ∃ hosts rest, RustStr.splitWhitespace line =
        hosts :: record.keyType :: record.keyBase64 :: rest ∧
      record.hostPatterns = keptPatterns hosts ∧ keptPatterns hosts ≠ [] ∧
      line.head? ≠ some '#' ∧ hosts.head? ≠ some '@' := by
  rw [parseKnownHostLine] at h
  by_cases hcomment : line.head? = some '#'
  · simp [hcomment] at h
  cases hwords : RustStr.splitWhitespace line with
  | nil => simp [hcomment, hwords] at h
  | cons first rest =>
    by_cases hat : first.head? = some '@'
    · simp only [hcomment, hwords, hat, ↓reduceIte, bind_eq_bind, head?_cons,
        bind_some, bind_eq_some_iff, map_eq_some_iff, tail_cons] at h
      obtain ⟨_, ⟨_, -, rfl⟩, _, -, _, -, _, -, hrecord⟩ := h
      rw [← some.inj hrecord] at hmarker
      cases hmarker
    · match rest with
      | [] => simp [hcomment, hwords] at h
      | [_] => simp [hcomment, hwords] at h
      | keyType :: key :: rest =>
        simp only [hcomment, hwords, hat, ↓reduceIte, bind_eq_bind, head?_cons,
          bind_some, bind_eq_some_iff, tail_cons] at h
        obtain ⟨_, hfirst, hrecord⟩ := h
        rw [← some.inj hrecord]
        exact ⟨first, rest, rfl, rfl, ne_nil_of_mem (mem_of_head? hfirst),
          hcomment, hat⟩

theorem parse_of_words {keyType key : Str} {rest : List Str}
    (hwords : RustStr.splitWhitespace line = hosts :: keyType :: key :: rest)
    (hcomment : line.head? ≠ some '#') (hat : hosts.head? ≠ some '@')
    (hkept : keptPatterns hosts ≠ []) :
    ∃ record, parseKnownHostLine line = some record ∧
      record.hostPatterns = keptPatterns hosts ∧ record.keyType = keyType ∧
      record.keyBase64 = key := by
  cases hpatterns : keptPatterns hosts with
  | nil => exact absurd hpatterns hkept
  | cons first others =>
    rw [keptPatterns] at hpatterns
    simp only [parseKnownHostLine, hcomment, hwords, hat, ↓reduceIte,
      bind_eq_bind, head?_cons, bind_some, tail_cons, hpatterns]
    exact ⟨_, rfl, rfl, rfl, rfl⟩

/-- A line as the table reads it for a host and a key. -/
structure PlainLine (hashing : Hashing) (host keyType key line : Str) :
    Prop where
  blanks : ∀ c ∈ line, RustStr.isWhitespace c = true → c = ' ' ∨ c = '\t'
  unmarked : ∀ record ∈ parseKnownHostLine (RustStr.trim line),
    Answers hashing host keyType key record → record.marker = none
  spelled : ∀ entry ∈ parseEntry line, entry.marker = none →
    entry.keyType = keyType → entry.key = key → SpelledOut entry.hosts host

instance (hosts host : Str) : Decidable (SpelledOut hosts host) :=
  decidable_of_iff (_ ∧ _) ⟨fun h => ⟨h.1, h.2⟩, fun h => ⟨h.1, h.2⟩⟩

instance (hashing : Hashing) (host keyType key line : Str) :
    Decidable (PlainLine hashing host keyType key line) :=
  -- the characters of the line, and not all that there are
  letI : Decidable (∀ c ∈ line, RustStr.isWhitespace c = true →
      c = ' ' ∨ c = '\t') := List.decidableBAll _ _
  decidable_of_iff (_ ∧ _ ∧ _)
    ⟨fun h => ⟨h.1, h.2.1, h.2.2⟩, fun h => ⟨h.1, h.2, h.3⟩⟩

theorem words_eq_fields
    (h : ∀ c ∈ line, RustStr.isWhitespace c = true → c = ' ' ∨ c = '\t') :
    RustStr.splitWhitespace (RustStr.trim line) = fields line := by
  rw [RustStr.splitWhitespace_trim, RustStr.splitWhitespace, fields,
    RustStr.splitOnP_congr fun c hc => ?_]
  rw [Bool.eq_iff_iff, Bool.or_eq_true, beq_iff_eq, beq_iff_eq]
  exact ⟨h c hc, by rintro (rfl | rfl) <;> rfl⟩

theorem recordMatches_of_patterns {record : KnownHostRecord}
    (hpatterns : record.hostPatterns = keptPatterns hosts)
    (hkept : keptPatterns hosts ≠ []) :
    knownHostRecordMatches hashing record host = Pattern.scan
      (knownHostPatternMatches hashing) host false (keptPatterns hosts) := by
  have hsome : record.hostPatterns.isEmpty = false := by
    rw [hpatterns, isEmpty_eq_false_iff]
    exact hkept
  rw [knownHostRecordMatches, hsome, hpatterns]
  rfl

/-- On a plain line, the record answers exactly if the line trusts the key. -/
theorem answers_iff_lineTrusts {keyType key : Str} (hhost : PlainHost host)
    (h : PlainLine hashing host keyType key line) :
    (∃ record, parseKnownHostLine (RustStr.trim line) = some record ∧
        Answers hashing host keyType key record) ↔
      LineTrusts hashing host keyType key line := by
  have hwords := words_eq_fields h.blanks
  have hhead : (fields line).head?.bind List.head? =
      (RustStr.trim line).head? := by
    rw [← hwords, RustStr.head_splitWhitespace fun _ => RustStr.head_trim]
  constructor
  · rintro ⟨record, hparse, hanswers⟩
    obtain ⟨hosts, rest, hline, hpatterns, hkept, hcomment, hat⟩ :=
      parse_unmarked_eq_some hparse (h.unmarked record hparse hanswers)
    rw [hwords] at hline
    rw [hline] at hhead
    have hfirst : hosts.head? = (RustStr.trim line).head? := hhead
    have hentry := parseEntry_of_fields hline (hfirst ▸ hcomment) hat
    obtain ⟨hmatch, rfl, rfl⟩ := hanswers
    rw [recordMatches_of_patterns hpatterns hkept] at hmatch
    exact ⟨_, hentry, rfl,
      (scan_iff_names hhost (h.spelled _ hentry rfl rfl rfl)).mp hmatch,
      rfl, rfl⟩
  · rintro ⟨entry, hentry, hmarker, hnames, rfl, rfl⟩
    obtain ⟨rest, hline, hcomment, hat⟩ :=
      parseEntry_unmarked_eq_some hentry hmarker
    rw [hline] at hhead hwords
    have hfirst : entry.hosts.head? = (RustStr.trim line).head? := hhead
    have hscan : Pattern.scan (knownHostPatternMatches hashing) host false
        (keptPatterns entry.hosts) = true :=
      (scan_iff_names hhost (h.spelled entry hentry hmarker rfl rfl)).mpr
        hnames
    have hkept : keptPatterns entry.hosts ≠ [] := by
      intro hnone
      rw [hnone, Pattern.scan] at hscan
      cases hscan
    obtain ⟨record, hparse, hpatterns, hkeyType, hkey⟩ :=
      parse_of_words hwords (hfirst ▸ hcomment) hat hkept
    refine ⟨record, hparse, ?_, hkeyType, hkey⟩
    rw [recordMatches_of_patterns hpatterns hkept]
    exact hscan

end Lines

/-- If the later record is stored in the place of the other one, it gives the
same hosts the same key. -/
def Keeps (digests : Digests) (record later : KnownHostRecord) : Prop :=
  knownHostKey digests later = knownHostKey digests record →
    later.hostIdentifier = record.hostIdentifier ∧
      later.hostPatterns = record.hostPatterns ∧
      later.keyType = record.keyType ∧ later.keyBase64 = record.keyBase64

instance (digests : Digests) (record later : KnownHostRecord) :
    Decidable (Keeps digests record later) :=
  inferInstanceAs (Decidable (_ = _ → _))

def recordsOf (text : Str) : List KnownHostRecord :=
  (RustStr.lines text).filterMap fun line =>
    parseKnownHostLine (RustStr.trim line)

/-- A file whose lines are plain for a host and a key, and in which no record
takes the place of one of the key but one that says the same. -/
structure PlainFor (digests : Digests) (text host keyType key : Str) :
    Prop where
  name : PlainHost host
  lines : ∀ line ∈ RustStr.lines text,
    PlainLine digests.toHashing host keyType key line
  single : ∀ record ∈ recordsOf text,
    Answers digests.toHashing host keyType key record →
    ∀ later ∈ recordsOf text, Keeps digests record later

/-- Digests that are known, by the first halves, which the table sees. -/
def knownDigests (known : List (String × Bytes)) : Digests where
  decode := fun _ => none
  hmacSha1 := fun _ => none
  sha256 := fun bytes =>
    ((known.find? fun entry =>
      RustStr.utf8 entry.1.toList == bytes).map Prod.snd).getD []

def fileDigests : Digests :=
  knownDigests [
    ("@revoked|c|ed25519", [0xc4, 0x5f, 0xcb, 0x90, 0xde, 0x2c, 0xcd, 0x91,
      0xe1, 0x20, 0xc0, 0x05, 0x03, 0xd3, 0x84, 0x6a]),
    ("|!b,a|ed25519", [0xf5, 0x48, 0x3c, 0xff, 0x00, 0x61, 0x5e, 0xe1, 0x3f,
      0x77, 0xc4, 0x0a, 0x95, 0x7c, 0x41, 0xcf]),
    ("|a|rsa", [0x04, 0xe8, 0x46, 0x9a, 0x52, 0x20, 0x78, 0xd8, 0x0f, 0x6f,
      0x50, 0x9b, 0xec, 0x62, 0xd8, 0x6c])]

def fileText : Str :=
  "@revoked c ed25519 K\n!b,a ed25519 K me\na rsa L\n".toList

def sampleDigests : Digests :=
  knownDigests [
    ("@revoked|example.com|ssh-ed25519", [0x66, 0x0d, 0xae, 0xc9, 0x06, 0xd5,
      0x36, 0xde, 0x2e, 0xe2, 0xfc, 0x76, 0xb7, 0xbf, 0xc9, 0x6d]),
    ("|example.com|ssh-ed25519", [0xfd, 0xcc, 0x6c, 0x6d, 0x2e, 0x09, 0x71,
      0x8a, 0xa1, 0x6f, 0x57, 0x5c, 0x03, 0xa5, 0xfa, 0xfc])]

/-- The answer after the text has been loaded into an empty table. -/
def sampleCheck (text host keyType key : Str) :
    Except AppError KnownHostCheck :=
  (replaceText sampleDigests Table.empty text).checkKnownHost
    sampleDigests.toHashing host keyType key

end NiceTerm.Storage
