/-
What a known hosts file says, after sshd(8): which lines name a host, and
which keys are trusted for it.
-/
import NiceTerm.Lib.Pattern
import NiceTerm.Lib.RustSplit

namespace KnownHostsFile

open RustStr (Str)

abbrev Bytes := List UInt8

/-- Base64 and the hash of hashed host names. -/
structure Hashing where
  decode : Str → Option Bytes
  hmacSha1 : Bytes → Option (Bytes → Bytes)

inductive Marker where
  | certAuthority
  | revoked
deriving Repr, DecidableEq

def Marker.parse (word : Str) : Option Marker :=
  if word = "@cert-authority".toList then some .certAuthority
  else if word = "@revoked".toList then some .revoked
  else none

structure Entry where
  marker : Option Marker
  hosts : Str
  keyType : Str
  key : Str
deriving Repr, DecidableEq

/-- The fields of a line are separated by blanks and tabs. -/
def fields (line : Str) : List Str :=
  (line.splitOnP fun c => c == ' ' || c == '\t').filter fun field =>
    !field.isEmpty

def entryOf (marker : Option Marker) : List Str → Option Entry
  | hosts :: keyType :: key :: _ =>
    if hosts.head? = some '@' then none
    else some { marker, hosts, keyType, key }
  | _ => none

/-- Comments, lines with an unknown marker and lines without a key say
nothing. -/
def parseEntry (line : Str) : Option Entry :=
  match fields line with
  | [] => none
  | first :: rest =>
    if first.head? = some '#' then none
    else if first.head? = some '@' then
      (Marker.parse first).bind fun marker => entryOf (some marker) rest
    else entryOf none (first :: rest)

def lowercase (text : Str) : Str := text.map Char.toLower

variable {hosts line : Str}

theorem parseEntry_unmarked_eq_some {entry : Entry}
    (h : parseEntry line = some entry) (hmarker : entry.marker = none) :
    ∃ rest, fields line = entry.hosts :: entry.keyType :: entry.key :: rest ∧
      entry.hosts.head? ≠ some '#' ∧ entry.hosts.head? ≠ some '@' := by
  rw [parseEntry] at h
  cases hfields : fields line with
  | nil => rw [hfields] at h; cases h
  | cons first rest =>
    simp only [hfields] at h
    split at h
    · cases h
    · next hcomment =>
      split at h
      · obtain ⟨marker, -, hentry⟩ := Option.bind_eq_some_iff.mp h
        unfold entryOf at hentry
        split at hentry
        · split at hentry
          · cases hentry
          · rw [← Option.some.inj hentry] at hmarker
            cases hmarker
        · cases hentry
      · next hat =>
        unfold entryOf at h
        split at h
        · next hwords =>
          rw [if_neg (by rwa [(List.cons.inj hwords).1] at hat)] at h
          obtain rfl := Option.some.inj h
          obtain ⟨rfl, rfl⟩ := List.cons.inj hwords
          exact ⟨_, rfl, hcomment, hat⟩
        · cases h

theorem parseEntry_of_fields {keyType key : Str} {rest : List Str}
    (hfields : fields line = hosts :: keyType :: key :: rest)
    (hcomment : hosts.head? ≠ some '#') (hat : hosts.head? ≠ some '@') :
    parseEntry line = some ⟨none, hosts, keyType, key⟩ := by
  rw [parseEntry, hfields]
  simp only [hcomment, hat, ↓reduceIte, entryOf]

theorem toLower_eq {c d : Char} (hd : d.toNat < 65) (h : c.toLower = d) :
    c = d := by
  by_cases hupper : c.val ≥ 'A'.val ∧ c.val ≤ 'Z'.val
  · have hlow : 65 ≤ c.val.toNat := UInt32.le_iff_toNat_le.mp hupper.1
    have hhigh : c.val.toNat ≤ 90 := UInt32.le_iff_toNat_le.mp hupper.2
    have hlower : c.toLower.val = c.val + 32 :=
      congrArg Char.val (dif_pos hupper)
    have hsum : d.val.toNat = c.val.toNat + 32 := by
      rw [← h, hlower, UInt32.toNat_add]
      change (c.val.toNat + 32) % _ = _
      omega
    have : d.val.toNat < 65 := hd
    omega
  · exact (dif_neg hupper).symm.trans h

theorem lowercase_splitOn (hosts : Str) :
    (lowercase hosts).splitOn ',' = (hosts.splitOn ',').map lowercase := by
  induction hosts with
  | nil => rfl
  | cons c rest ih =>
    have hcomma : (c.toLower == ',') = (c == ',') := by
      rw [Bool.eq_iff_iff, beq_iff_eq, beq_iff_eq]
      exact ⟨toLower_eq (by decide), by rintro rfl; decide⟩
    change (c.toLower :: lowercase rest).splitOn ',' = _
    rw [List.splitOn_cons_eq_if_modifyHead,
      List.splitOn_cons_eq_if_modifyHead, hcomma, ih]
    split
    · rfl
    · cases hpieces : rest.splitOn ',' with
      | nil => exact absurd hpieces (List.splitOn_ne_nil ',' rest)
      | cons first others => rfl

/-- A hashed host name: the salt and the hash of the name. -/
def hashNames (hashing : Hashing) (hosts host : Str) : Bool :=
  match hosts.splitOn '|' with
  | [[], ['1'], salt, hash] =>
    ((hashing.decode salt).bind hashing.hmacSha1).any fun mac =>
      hashing.decode hash == some (mac (RustStr.utf8 host))
  | _ => false

/-- The host is named by a hash or by a list of patterns, without regard to
the case of letters. -/
def Entry.Names (hashing : Hashing) (entry : Entry) (host : Str) : Prop :=
  if entry.hosts.head? = some '|' then
    hashNames hashing entry.hosts (lowercase host) = true
  else
    Pattern.Names Pattern.Matches ((lowercase entry.hosts).splitOn ',')
      (lowercase host)

instance (hashing : Hashing) (entry : Entry) (host : Str) :
    Decidable (entry.Names hashing host) :=
  inferInstanceAs (Decidable (ite _ _ _))

/-- The name under which a host is looked up; ports other than the standard
one are part of it. -/
def hostName (host : Str) (port : Nat) : Str :=
  if port = 22 then host
  else ['['] ++ host ++ [']', ':'] ++ RustStr.decimal port

/-- A line without a marker that names the host and carries the key. -/
def LineTrusts (hashing : Hashing) (host keyType key line : Str) : Prop :=
  ∃ entry, parseEntry line = some entry ∧ entry.marker = none ∧
    entry.Names hashing host ∧ entry.keyType = keyType ∧ entry.key = key

instance (hashing : Hashing) (host keyType key line : Str) :
    Decidable (LineTrusts hashing host keyType key line) :=
  match h : parseEntry line with
  | none => isFalse fun ⟨entry, hentry, _⟩ => by rw [h] at hentry; cases hentry
  | some entry =>
    decidable_of_iff (entry.marker = none ∧ entry.Names hashing host ∧
      entry.keyType = keyType ∧ entry.key = key)
      ⟨fun hentry => ⟨entry, h, hentry⟩, fun ⟨other, hother, hrest⟩ =>
        Option.some.inj (h.symm.trans hother) ▸ hrest⟩

def Trusts (hashing : Hashing) (text host keyType key : Str) : Prop :=
  ∃ line ∈ RustStr.lines text, LineTrusts hashing host keyType key line

instance (hashing : Hashing) (text host keyType key : Str) :
    Decidable (Trusts hashing text host keyType key) :=
  inferInstanceAs (Decidable (∃ line ∈ RustStr.lines text, _))

end KnownHostsFile
