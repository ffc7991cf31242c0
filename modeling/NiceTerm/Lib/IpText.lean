/-
Addresses as texts: the dotted form of four bytes and the colon form of eight
groups, as the standard library writes them, and a reader for both.
-/
import NiceTerm.Lib.RustSplit

namespace IpText

open List Option RustStr
open RustStr (Str)

/-- `Ipv4Addr::to_string`. -/
def dotted (octets : List UInt8) : Str :=
  ['.'].intercalate (octets.map fun octet => decimal octet.toNat)

def hexChar (digit : Nat) : Char :=
  if digit < 10 then Char.ofNat ('0'.toNat + digit)
  else Char.ofNat ('a'.toNat + (digit - 10))

/-- The digits of `{:x}`. -/
def hex (value : Nat) : Str :=
  if value < 16 then [hexChar value]
  else hex (value / 16) ++ [hexChar (value % 16)]
termination_by value

/-- Groups from `start` on. -/
structure Run where
  start : Nat
  length : Nat
deriving DecidableEq, Repr

/-- The longest run of zero groups, the first one of those as long; `i` is the
place of the next group and `current` the run that may go on there. -/
def zeroRun (i : Nat) (longest current : Run) : List Nat → Run
  | [] => longest
  | segment :: rest =>
    if segment = 0 then
      let current : Run :=
        ⟨if current.length = 0 then i else current.start, current.length + 1⟩
      zeroRun (i + 1)
        (if longest.length < current.length then current else longest)
        current rest
    else zeroRun (i + 1) longest ⟨0, 0⟩ rest

def joined (segments : List Nat) : Str :=
  [':'].intercalate (segments.map hex)

/-- The groups of sixteen bytes. -/
def segmentsOf : List UInt8 → List Nat
  | high :: low :: rest => (high.toNat * 256 + low.toNat) :: segmentsOf rest
  | _ => []

/-- `Ipv6Addr::to_string`. -/
def ipv6 (octets : List UInt8) : Str :=
  let segments := segmentsOf octets
  if segments.take 6 = [0, 0, 0, 0, 0, 0xffff] then
    "::ffff:".toList ++ dotted (octets.drop 12)
  else
    let zeroes := zeroRun 0 ⟨0, 0⟩ ⟨0, 0⟩ segments
    if 1 < zeroes.length then
      joined (segments.take zeroes.start) ++ "::".toList ++
        joined (segments.drop (zeroes.start + zeroes.length))
    else joined segments

/-! The reader. -/

variable (text : Str)

def readOctet : Option Nat :=
  if text.isEmpty then none
  else
    match parseDigits 0 text with
    | some value => if value < 256 then some value else none
    | none => none

def readDotted : Option (List Nat) :=
  match (text.splitOn '.').mapM readOctet with
  | some octets => if octets.length = 4 then some octets else none
  | none => none

def hexValue (c : Char) : Option Nat :=
  if isAsciiDigit c then some (c.toNat - '0'.toNat)
  else if 'a'.toNat ≤ c.toNat && c.toNat ≤ 'f'.toNat then
    some (c.toNat - 'a'.toNat + 10)
  else if 'A'.toNat ≤ c.toNat && c.toNat ≤ 'F'.toNat then
    some (c.toNat - 'A'.toNat + 10)
  else none

def readHexDigits (value : Nat) : Str → Option Nat
  | [] => some value
  | c :: rest =>
    match hexValue c with
    | some digit => readHexDigits (value * 16 + digit) rest
    | none => none

/-- One group, or the two of four bytes in dotted form. -/
def readGroup : Option (List Nat) :=
  if text.contains '.' then
    match readDotted text with
    | some [a, b, c, d] => some [a * 256 + b, c * 256 + d]
    | _ => none
  else if text.isEmpty then none
  else
    match readHexDigits 0 text with
    | some value => if value < 65536 then some [value] else none
    | none => none

def readGroups : Option (List Nat) :=
  if text.isEmpty then some []
  else ((text.splitOn ':').mapM readGroup).map List.flatten

/-- The eight groups of an address; `::` stands for the zero groups left
out. -/
def readIpv6 : Option (List Nat) :=
  match find [':', ':'] text with
  | none =>
    match readGroups text with
    | some segments => if segments.length = 8 then some segments else none
    | none => none
  | some n =>
    match readGroups (text.take n), readGroups (text.drop (n + 2)) with
    | some front, some back =>
      let given := front.length + back.length
      if given < 8 then
        some (front ++ replicate (8 - given) 0 ++ back)
      else none
    | _, _ => none

theorem mapM_eq_some {α β γ : Type} (f : β → Option γ) (text : α → β)
    (value : α → γ) {items : List α}
    (h : ∀ item ∈ items, f (text item) = some (value item)) :
    (items.map text).mapM f = some (items.map value) := by
  induction items with
  | nil => rfl
  | cons item rest ih =>
    rw [forall_mem_cons] at h
    rw [map_cons, mapM_cons, h.1, ih h.2]
    rfl

/-! The dotted form is read back. -/

theorem not_mem_decimal {c : Char} (hc : isAsciiDigit c = false)
    (value : Nat) : c ∉ decimal value := by
  intro hmem
  have hdigit := isAsciiDigit_of_mem_decimal value c hmem
  rw [hc] at hdigit
  exact Bool.false_ne_true hdigit

theorem readOctet_decimal {value : Nat} (h : value < 256) :
    readOctet (decimal value) = some value := by
  rw [readOctet, if_neg, parseDigits_decimal]
  · simp only
    exact if_pos h
  · rw [List.isEmpty_iff]
    exact decimal_ne_nil value

variable {octets : List UInt8}

theorem readDotted_dotted (h : octets.length = 4) :
    readDotted (dotted octets) = some (octets.map UInt8.toNat) := by
  have hsplit : (dotted octets).splitOn '.' =
      octets.map fun octet => decimal octet.toNat := by
    apply splitOn_intercalate
    · intro part hpart
      obtain ⟨octet, -, rfl⟩ := mem_map.mp hpart
      exact not_mem_decimal rfl octet.toNat
    · intro hnil
      rw [map_eq_nil_iff] at hnil
      rw [hnil] at h
      exact absurd h (by decide)
  have hread := mapM_eq_some readOctet
    (fun octet => decimal octet.toNat) UInt8.toNat
    fun octet (_ : octet ∈ octets) => readOctet_decimal octet.toNat_lt
  have hlength : (octets.map UInt8.toNat).length = 4 := by
    rw [length_map, h]
  rw [readDotted, hsplit, hread]
  exact if_pos hlength

/-! The groups are read back. -/

theorem hexChar_spec {digit : Nat} (h : digit < 16) :
    hexValue (hexChar digit) = some digit ∧ hexChar digit ≠ ':' ∧
      hexChar digit ≠ '.' := by
  have hall : ∀ digit < 16, hexValue (hexChar digit) = some digit ∧
      hexChar digit ≠ ':' ∧ hexChar digit ≠ '.' := by
    decide
  exact hall digit h

theorem mem_hex {value : Nat} {c : Char} (h : c ∈ hex value) :
    c ≠ ':' ∧ c ≠ '.' := by
  fun_induction hex value with
  | case1 value hsmall =>
    rw [mem_singleton.mp h]
    exact (hexChar_spec hsmall).2
  | case2 value hlarge ih =>
    rcases mem_append.mp h with hfront | hlast
    · exact ih hfront
    · rw [mem_singleton.mp hlast]
      exact (hexChar_spec (Nat.mod_lt value (by decide))).2

theorem hex_ne_nil (value : Nat) : hex value ≠ [] := by
  fun_induction hex value with
  | case1 value => exact cons_ne_nil _ _
  | case2 value => exact concat_ne_nil _ _

theorem readHexDigits_append {value middle : Nat} {front back : Str}
    (h : readHexDigits value front = some middle) :
    readHexDigits value (front ++ back) = readHexDigits middle back := by
  induction front generalizing value with
  | nil =>
    obtain rfl := some.inj h
    rfl
  | cons c rest ih =>
    rw [readHexDigits] at h
    rw [cons_append, readHexDigits]
    split at h
    next digit hdigit =>
      exact ih h
    next => exact absurd h.symm (some_ne_none middle)

theorem readHexDigits_hex (value : Nat) :
    readHexDigits 0 (hex value) = some value := by
  fun_induction hex value with
  | case1 value hsmall =>
    rw [readHexDigits, (hexChar_spec hsmall).1]
    simp only [readHexDigits, Nat.zero_mul, Nat.zero_add]
  | case2 value hlarge ih =>
    have hdigit := (hexChar_spec (Nat.mod_lt value (by decide))).1
    rw [readHexDigits_append ih, readHexDigits, hdigit]
    simp only [readHexDigits, some.injEq]
    omega

theorem readGroup_hex {value : Nat} (h : value < 65536) :
    readGroup (hex value) = some [value] := by
  rw [readGroup, if_neg, if_neg, readHexDigits_hex]
  · simp only
    exact if_pos h
  · rw [List.isEmpty_iff]
    exact hex_ne_nil value
  · rw [contains_iff_mem]
    exact fun hmem => (mem_hex hmem).2 rfl

theorem not_mem_hex (value : Nat) : ':' ∉ hex value :=
  fun hmem => (mem_hex hmem).1 rfl

theorem joined_cons (segment : Nat) (rest : List Nat) :
    ∃ more, joined (segment :: rest) = hex segment ++ more := by
  cases rest with
  | nil =>
    refine ⟨[], ?_⟩
    rw [joined, map_singleton, intercalate_singleton, append_nil]
  | cons next rest =>
    refine ⟨[':'] ++ joined (next :: rest), ?_⟩
    rw [joined, map_cons, map_cons, intercalate_cons_cons, append_assoc]
    rfl

variable {segments : List Nat}

theorem joined_ne_nil (h : segments ≠ []) : joined segments ≠ [] := by
  cases segments with
  | nil => exact absurd rfl h
  | cons segment rest =>
    obtain ⟨more, hmore⟩ := joined_cons segment rest
    rw [hmore]
    exact fun hnil => hex_ne_nil segment (append_eq_nil_iff.mp hnil).1

theorem readGroups_joined (h : ∀ segment ∈ segments, segment < 65536) :
    readGroups (joined segments) = some segments := by
  by_cases hnil : segments = []
  · subst hnil
    rfl
  · have hsplit : (joined segments).splitOn ':' = segments.map hex := by
      apply splitOn_intercalate
      · intro part hpart
        obtain ⟨segment, -, rfl⟩ := mem_map.mp hpart
        exact not_mem_hex segment
      · rw [ne_eq, map_eq_nil_iff]
        exact hnil
    have hread := mapM_eq_some readGroup hex (fun segment => [segment])
      fun segment hmem => readGroup_hex (h segment hmem)
    have hflat : (segments.map fun segment => [segment]).flatten =
        segments := by
      rw [← flatMap_def, flatMap_singleton']
    rw [readGroups, if_neg, hsplit, hread, map_some, hflat]
    · rw [List.isEmpty_iff]
      exact joined_ne_nil hnil

/-! The two colons stand where groups were left out. -/

theorem find_colons_skip {word : Str} (h : ':' ∉ word) (rest : Str) :
    find [':', ':'] (word ++ rest) =
      (find [':', ':'] rest).map (· + word.length) := by
  induction word with
  | nil => simp
  | cons c word ih =>
    rw [mem_cons, not_or] at h
    rw [cons_append, find, if_neg, ih h.2, Option.map_map]
    · rfl
    · rw [List.isPrefixOf_iff_prefix]
      intro hfront
      exact h.1 (cons_prefix_cons.mp hfront).1

theorem not_colon_joined (segment : Nat) (more : List Nat) (rest : Str) :
    ¬ [':'] <+: joined (segment :: more) ++ rest := by
  obtain ⟨tail, htail⟩ := joined_cons segment more
  rw [htail]
  cases hfirst : hex segment with
  | nil => exact absurd hfirst (hex_ne_nil segment)
  | cons c word =>
    intro hcolon
    have hc : ':' = c := (cons_prefix_cons.mp hcolon).1
    apply not_mem_hex segment
    rw [hfirst, hc]
    exact mem_cons_self

theorem find_colons_joined (segments : List Nat) (rest : Str) :
    find [':', ':'] (joined segments ++ rest) =
      (find [':', ':'] rest).map (· + (joined segments).length) := by
  induction segments with
  | nil => simp [joined]
  | cons segment more ih =>
    cases more with
    | nil =>
      rw [joined, map_singleton, intercalate_singleton]
      exact find_colons_skip (not_mem_hex segment) rest
    | cons next more =>
      have hjoined : joined (segment :: next :: more) =
          hex segment ++ ':' :: joined (next :: more) := by
        rw [joined, map_cons, map_cons, intercalate_cons_cons, append_assoc]
        rfl
      have hlength : (hex segment ++ ':' :: joined (next :: more)).length =
          (joined (next :: more)).length + 1 + (hex segment).length := by
        rw [length_append, length_cons, Nat.add_comm]
      rw [hjoined, hlength, append_assoc,
        find_colons_skip (not_mem_hex segment), cons_append,
        find, if_neg, ih, Option.map_map, Option.map_map]
      · refine Option.map_congr fun n _ => ?_
        change n + _ + 1 + _ = _
        omega
      · intro hfront
        rw [List.isPrefixOf_iff_prefix, cons_prefix_cons] at hfront
        exact not_colon_joined next more rest hfront.2

/-! The groups left out are zero. -/

/-- Every group of the run is zero. -/
def Run.Zeros (run : Run) (segments : List Nat) : Prop :=
  ∀ k, run.start ≤ k → k < run.start + run.length → segments[k]? = some 0

theorem Run.zeros_empty (segments : List Nat) : Run.Zeros ⟨0, 0⟩ segments :=
  fun k _ hk => absurd hk (Nat.not_lt_zero k)

/-- The longest run and the one that may go on are runs of zero groups; the
second one ends where the next group stands. -/
theorem zeroRun_zeros (front : List Nat) {rest : List Nat}
    {longest current : Run}
    (hlongest : longest.Zeros (front ++ rest))
    (hcurrent : current.Zeros (front ++ rest))
    (hends : current.length = 0 ∨
      current.start + current.length = front.length) :
    (zeroRun front.length longest current rest).Zeros (front ++ rest) := by
  induction rest generalizing front longest current with
  | nil => exact hlongest
  | cons segment rest ih =>
    have hall : front ++ segment :: rest = front ++ [segment] ++ rest := by
      rw [append_assoc]
      rfl
    have hcount : (front ++ [segment]).length = front.length + 1 :=
      length_append
    by_cases hzero : segment = 0
    · rw [zeroRun, if_pos hzero]
      have hnext : Run.Zeros
          ⟨if current.length = 0 then front.length else current.start,
            current.length + 1⟩ (front ++ segment :: rest) := by
        intro k hstart hend
        by_cases hk : k = front.length
        · rw [hk, getElem?_append_right (Nat.le_refl _), Nat.sub_self, hzero]
          rfl
        · apply hcurrent k <;> split at hstart <;> split at hend <;>
            simp only at hstart hend <;> omega
      simp only
      rw [hall, ← hcount]
      rw [hall] at hlongest hcurrent hnext
      apply ih (front ++ [segment])
      · split
        · exact hnext
        · exact hlongest
      · exact hnext
      · right
        rw [hcount]
        simp only
        split <;> omega
    · rw [zeroRun, if_neg hzero, hall, ← hcount]
      rw [hall] at hlongest
      exact ih (front ++ [segment]) hlongest (Run.zeros_empty _) (.inl rfl)

theorem Run.Zeros.eq_replicate {run : Run} (h : run.Zeros segments)
    (hbound : run.start + run.length ≤ segments.length) :
    segments = segments.take run.start ++ replicate run.length 0 ++
      segments.drop (run.start + run.length) := by
  apply ext_getElem?
  intro k
  have htake : (segments.take run.start).length = run.start := by
    rw [length_take]
    omega
  by_cases hfront : k < run.start
  · rw [append_assoc, getElem?_append_left (by omega),
      getElem?_take_of_lt hfront]
  · by_cases hmiddle : k < run.start + run.length
    · rw [h k (by omega) hmiddle, append_assoc,
        getElem?_append_right (by omega), getElem?_append_left
          (by rw [length_replicate]; omega),
        getElem?_replicate_of_lt (by omega)]
    · have hboth : (segments.take run.start ++
          replicate run.length 0).length = run.start + run.length := by
        rw [length_append, htake, length_replicate]
      rw [getElem?_append_right (by omega), hboth, getElem?_drop]
      congr 1
      omega

theorem Run.Zeros.le_length {run : Run} (h : run.Zeros segments)
    (hpos : 0 < run.length) : run.start + run.length ≤ segments.length := by
  have hlast := h (run.start + run.length - 1) (by omega) (by omega)
  obtain ⟨hlt, -⟩ := List.getElem?_eq_some_iff.mp hlast
  omega

/-! The groups of an address. -/

theorem segmentsOf_length (octets : List UInt8) :
    (segmentsOf octets).length = octets.length / 2 := by
  fun_induction segmentsOf octets with
  | case1 high low rest ih =>
    simp only [length_cons, ih]
    omega
  | case2 octets hshort =>
    cases octets with
    | nil => rfl
    | cons high rest =>
      cases rest with
      | nil => simp
      | cons low rest => exact absurd rfl (hshort high low rest)

theorem segmentsOf_lt (octets : List UInt8) :
    ∀ segment ∈ segmentsOf octets, segment < 65536 := by
  fun_induction segmentsOf octets with
  | case1 high low rest ih =>
    rw [forall_mem_cons]
    have hhigh := high.toNat_lt
    have hlow := low.toNat_lt
    exact ⟨by omega, ih⟩
  | case2 => exact fun _ hmem => absurd hmem not_mem_nil

theorem segmentsOf_drop (n : Nat) (octets : List UInt8) :
    segmentsOf (octets.drop (2 * n)) = (segmentsOf octets).drop n := by
  induction n generalizing octets with
  | zero => rfl
  | succ n ih =>
    have htwo : 2 * (n + 1) = 2 * n + 2 := by omega
    rw [htwo]
    cases octets with
    | nil => rfl
    | cons high rest =>
      cases rest with
      | nil => rw [drop_succ_cons, drop_nil]; rfl
      | cons low rest =>
        rw [drop_succ_cons, drop_succ_cons, ih, segmentsOf, drop_succ_cons]

theorem readGroup_dotted (h : octets.length = 4) :
    readGroup (dotted octets) = some (segmentsOf octets) := by
  cases octets with
  | nil => exact absurd h (by simp)
  | cons a rest =>
    rw [length_cons, Nat.succ_inj] at h
    obtain ⟨b, c, d, rfl⟩ := length_eq_three.mp h
    have hdot : '.' ∈ dotted [a, b, c, d] := by
      rw [dotted, map_cons, map_cons, intercalate_cons_cons, append_assoc]
      exact mem_append_right _ mem_cons_self
    rw [readGroup, if_pos (contains_iff_mem.mpr hdot), readDotted_dotted rfl]
    rfl

theorem colon_not_mem_dotted :
    ':' ∉ dotted octets := by
  induction octets with
  | nil => exact not_mem_nil
  | cons octet rest ih =>
    cases rest with
    | nil =>
      rw [dotted, map_singleton, intercalate_singleton]
      exact not_mem_decimal rfl octet.toNat
    | cons next rest =>
      rw [dotted, map_cons] at ih
      rw [dotted, map_cons, map_cons, intercalate_cons_cons,
        mem_append, mem_append, not_or, not_or]
      exact ⟨⟨not_mem_decimal rfl octet.toNat, by decide⟩, ih⟩

theorem readGroups_mapped (h : octets.length = 4) :
    readGroups ("ffff:".toList ++ dotted octets) =
      some (0xffff :: segmentsOf octets) := by
  have hsplit : ("ffff:".toList ++ dotted octets).splitOn ':' =
      ["ffff".toList, dotted octets] := by
    have hjoin : "ffff:".toList ++ dotted octets =
        [':'].intercalate ["ffff".toList, dotted octets] := by
      rw [intercalate_cons_cons, intercalate_singleton]
      rfl
    rw [hjoin]
    apply splitOn_intercalate
    · intro part hpart
      rw [mem_cons, mem_singleton] at hpart
      rcases hpart with rfl | rfl
      · decide
      · exact colon_not_mem_dotted
    · exact cons_ne_nil _ _
  have hfirst : readGroup "ffff".toList = some [0xffff] := by decide
  rw [readGroups, if_neg, hsplit, mapM_cons, hfirst, mapM_cons,
    readGroup_dotted h]
  · simp
  · simp

/-- Groups with a gap are read as those given and zeros between them. -/
theorem readIpv6_gap {front back : List Nat}
    (hfront : ∀ segment ∈ front, segment < 65536)
    (hback : ∀ segment ∈ back, segment < 65536)
    (hgap : front.length + back.length < 8) :
    readIpv6 (joined front ++ "::".toList ++ joined back) =
      some (front ++ replicate (8 - (front.length + back.length)) 0 ++
        back) := by
  have hfind := find_colons_joined front ("::".toList ++ joined back)
  have hstart : find [':', ':'] ("::".toList ++ joined back) = some 0 := rfl
  rw [hstart, map_some, Nat.zero_add] at hfind
  have hdrop : (joined front ++ ("::".toList ++ joined back)).drop
      ((joined front).length + 2) = joined back := by
    rw [drop_length_add_append]
    rfl
  rw [append_assoc, readIpv6, hfind]
  simp only [take_left, hdrop, readGroups_joined hfront,
    readGroups_joined hback]
  rw [if_pos hgap]

/-- What the standard library writes is read as the address it was. -/
theorem readIpv6_ipv6 (h : octets.length = 16) :
    readIpv6 (ipv6 octets) = some (segmentsOf octets) := by
  have hcount : (segmentsOf octets).length = 8 := by
    rw [segmentsOf_length, h]
  have hlt := segmentsOf_lt octets
  rw [ipv6]
  simp only
  by_cases hmapped : (segmentsOf octets).take 6 = [0, 0, 0, 0, 0, 0xffff]
  · rw [if_pos hmapped]
    have hlast := segmentsOf_drop 6 octets
    have hfour : (octets.drop 12).length = 4 := by
      rw [length_drop, h]
    have htwo : (segmentsOf (octets.drop 12)).length = 2 := by
      rw [segmentsOf_length, hfour]
    have htext : "::ffff:".toList ++ dotted (octets.drop 12) =
        ':' :: ':' :: ("ffff:".toList ++ dotted (octets.drop 12)) := rfl
    have hfind : find [':', ':']
        (':' :: ':' :: ("ffff:".toList ++ dotted (octets.drop 12))) =
        some 0 := rfl
    rw [htext, readIpv6, hfind]
    simp only [take_zero, Nat.zero_add, drop_succ_cons,
      drop_zero, readGroups_mapped hfour]
    rw [← take_append_drop 6 (segmentsOf octets), hmapped, ← hlast]
    simp [readGroups, htwo]
  · rw [if_neg hmapped]
    have hzeros : Run.Zeros (zeroRun 0 ⟨0, 0⟩ ⟨0, 0⟩ (segmentsOf octets))
        ([] ++ segmentsOf octets) :=
      zeroRun_zeros [] (Run.zeros_empty _) (Run.zeros_empty _) (.inl rfl)
    rw [nil_append] at hzeros
    generalize zeroRun 0 ⟨0, 0⟩ ⟨0, 0⟩ (segmentsOf octets) = run at hzeros
    by_cases hlong : 1 < run.length
    · rw [if_pos hlong]
      have hbound := hzeros.le_length (by omega)
      have hfront : ∀ segment ∈ (segmentsOf octets).take run.start,
          segment < 65536 :=
        fun segment hmem => hlt segment (mem_of_mem_take hmem)
      have hback : ∀ segment ∈ (segmentsOf octets).drop
          (run.start + run.length), segment < 65536 :=
        fun segment hmem => hlt segment (mem_of_mem_drop hmem)
      have htotal : ((segmentsOf octets).take run.start).length +
          ((segmentsOf octets).drop (run.start + run.length)).length +
          run.length = 8 := by
        rw [length_take, length_drop]
        omega
      have hgap := readIpv6_gap hfront hback (by omega)
      have hzeroes : 8 - (((segmentsOf octets).take run.start).length +
          ((segmentsOf octets).drop (run.start + run.length)).length) =
          run.length := by omega
      rw [hzeroes, ← hzeros.eq_replicate hbound] at hgap
      exact hgap
    · rw [if_neg hlong]
      have hfind := find_colons_joined (segmentsOf octets) []
      rw [append_nil] at hfind
      have hnone : find [':', ':'] [] = none := rfl
      rw [readIpv6, hfind, hnone, map_none]
      simp only [readGroups_joined hlt, hcount, if_true]

end IpText
