/-
Which names survive a listing: the columns of `ls` keep plain names only, the
fields of `find` keep all.
-/
import Mathlib.Data.List.Forall2
import NiceTerm.Sftp.Listing

namespace NiceTerm.Sftp.Listing

open List Option RustStr ScpNormal
open RustStr (Str stripCarriageReturn)

theorem skipBlanks_replicate (n : Nat) (line : Str) :
    skipBlanks (replicate n ' ' ++ line) = skipBlanks line := by
  apply dropWhile_append_of_pos
  intro c hc
  rw [eq_of_mem_replicate hc]
  rfl

theorem skipBlanks_of_head {line : Str}
    (h : ∀ c, line.head? = some c → blank c = false) :
    skipBlanks line = line := by
  cases line with
  | nil => rfl
  | cons c rest =>
    rw [skipBlanks, dropWhile_cons_of_neg]
    simp [h c rfl]

theorem blank_head_skipBlanks {line : Str} {c : Char}
    (h : (skipBlanks line).head? = some c) : blank c = false := by
  have hnot := head?_dropWhile_not blank line
  rw [← skipBlanks, h] at hnot
  simpa using hnot

theorem Column.head_solid (column : Column) (rest : Str) :
    ∀ c, (column.text ++ rest).head? = some c → blank c = false := by
  intro c hc
  obtain ⟨first, others, htext⟩ :=
    exists_cons_of_ne_nil column.nonempty
  rw [htext, cons_append, head?_cons, some.injEq] at hc
  apply column.solid
  rw [htext, ← hc]
  exact mem_cons_self

/-- A column is the next field of the line that it begins. -/
theorem splitFields_column (n : Nat) (column : Column) (rest : Str) :
    splitFields (n + 1) (column.text ++ ' ' :: rest) =
      (splitFields n (' ' :: rest)).map fun split =>
        (column.text :: split.1, split.2) := by
  have hall : ∀ c ∈ column.text, (!blank c) = true := by
    intro c hc
    rw [column.solid c hc]
    rfl
  have htake : (column.text ++ ' ' :: rest).takeWhile (fun c => !blank c) =
      column.text := by
    rw [takeWhile_append_of_pos hall]
    exact append_nil _
  have hdrop : (column.text ++ ' ' :: rest).dropWhile (fun c => !blank c) =
      ' ' :: rest := dropWhile_append_of_pos hall
  have hne : column.text.isEmpty = false :=
    isEmpty_eq_false_iff.mpr column.nonempty
  rw [splitFields, skipBlanks_of_head (column.head_solid _), htake, hdrop]
  simp only [hne, Bool.false_eq_true, ↓reduceIte]
  cases splitFields n (' ' :: rest) with
  | none => rfl
  | some split => rfl

theorem splitFields_blanks (n k : Nat) (line : Str) :
    splitFields (n + 1) (replicate k ' ' ++ line) =
      splitFields (n + 1) line := by
  rw [splitFields, splitFields, skipBlanks_replicate]

/-- The columns of a row are its fields; what is left differs from the rest of
the line in blanks only. -/
theorem splitFields_row (columns : List Column) (tail : Str) (k : Nat) :
    ∃ after, splitFields columns.length (replicate k ' ' ++ row columns tail) =
          some (columns.map Column.text, after) ∧
      skipBlanks after = skipBlanks tail := by
  induction columns generalizing k with
  | nil => exact ⟨_, rfl, skipBlanks_replicate k tail⟩
  | cons column rest ih =>
    obtain ⟨after, hsplit, hafter⟩ := ih (column.padding + 1)
    refine ⟨after, ?_, hafter⟩
    rw [replicate_succ, cons_append] at hsplit
    rw [length_cons, splitFields_blanks, row, append_assoc,
      replicate_succ, cons_append, splitFields_column, hsplit]
    rfl

theorem splitLsFields_row {columns : List Column} (h : columns.length = 8)
    (tail : Str) :
    splitLsFields (row columns tail) =
      if (skipBlanks tail).isEmpty then none
      else some (columns.map Column.text, skipBlanks tail) := by
  obtain ⟨after, hsplit, hafter⟩ := splitFields_row columns tail 0
  rw [h, replicate_zero, nil_append] at hsplit
  rw [splitLsFields, hsplit]
  simp only [hafter]

/-- The name that is read from what stands behind the columns. -/
def readName (isSymlink : Bool) (tail : Str) : Option Str :=
  let name := nameField isSymlink (skipBlanks tail)
  if (skipBlanks tail).isEmpty || isDots name then none else some name

/-- The entry that columns and a name make. -/
def rowEntry (columns : List Column) (name : Str) : FileEntry :=
  let parts := columns.map Column.text
  { name := name
    isDir := (parts.getD 0 []).head? == some 'd'
    isSymlink := (parts.getD 0 []).head? == some 'l'
    size := parseU64 (parts.getD 4 [])
    permissions := parts.getD 0 []
    owner := parts.getD 2 []
    group := parts.getD 3 []
    mtime := 0 }

theorem length_le_len (text : Str) : text.length ≤ len text := by
  induction text with
  | nil => exact Nat.le_refl 0
  | cons c rest ih =>
    have hc := c.utf8Size_pos
    rw [length_cons, len_cons]
    omega

theorem Kind.letter_facts (kind : Kind) :
    isWhitespace kind.letter = false ∧ kind.letter ≠ 't' := by
  rcases kind with _ | _ | _ | ⟨_ | _, _, _⟩ <;> simp [Kind.letter] <;> rfl

theorem trimEnd_cons_ne_nil {c : Char} (rest : Str)
    (h : isWhitespace c = false) :
    (trimEnd (c :: rest)).isEmpty = false := by
  rw [isEmpty_eq_false_iff, trimEnd, ne_eq,
    reverse_eq_nil_iff, dropWhile_eq_nil_iff]
  intro hall
  have hc := hall c (by simp)
  rw [h] at hc
  exact Bool.noConfusion hc

theorem parseLsLine_row (kind : Kind) {mode : Column}
    (hmode : 9 ≤ mode.text.length) {others : List Column}
    (hothers : others.length = 7) (tail : Str) :
    parseLsLine (row (.perms kind mode :: others) tail) =
      (readName (kind.letter == 'l') tail).map
        (rowEntry (.perms kind mode :: others)) := by
  obtain ⟨hspace, ht⟩ := kind.letter_facts
  have hline : row (.perms kind mode :: others) tail =
      kind.letter :: (mode.text ++ replicate (mode.padding + 1) ' ' ++
        row others tail) := rfl
  have htrim : trimStart (row (.perms kind mode :: others) tail) =
      row (.perms kind mode :: others) tail := by
    rw [hline, trimStart, dropWhile_cons_of_neg]
    simp [hspace]
  have hnot : ((trimEnd (row (.perms kind mode :: others) tail)).isEmpty ||
      totalPrefix.isPrefixOf (row (.perms kind mode :: others) tail)) =
        false := by
    have ht' : ('t' == kind.letter) = false :=
      beq_eq_false_iff_ne.mpr (Ne.symm ht)
    have hstart : totalPrefix = 't' :: "otal ".toList := rfl
    rw [hline, trimEnd_cons_ne_nil _ hspace, hstart, isPrefixOf_cons_cons, ht']
    rfl
  have hlen : ¬ len (kind.letter :: mode.text) < 10 := by
    have hle := length_le_len (kind.letter :: mode.text)
    rw [length_cons] at hle
    omega
  have hcount : (Column.perms kind mode :: others).length = 8 := by
    rw [length_cons, hothers]
  rw [parseLsLine, htrim]
  simp only [hnot, Bool.false_eq_true, ↓reduceIte, splitLsFields_row hcount]
  by_cases hempty : (skipBlanks tail).isEmpty = true
  · simp [hempty, readName]
  · simp only [hempty, Bool.false_eq_true, ↓reduceIte, readName, Bool.false_or]
    simp only [map_cons, getD_cons_zero, Column.perms, hlen,
      ↓reduceIte, head?_cons, some_beq_some]
    split
    · rfl
    · rfl

/-- An arrow is found in front of a name's end only if it stands in the name,
or begins with its last characters. -/
theorem nameField_link (name rest : Str) :
    nameField true (name ++ arrow ++ rest) = name ↔
      ¬ arrow <:+: name ++ [' '] := by
  have hnil : ¬ arrow <:+: ([] ++ [' '] : Str) := by decide
  induction name with
  | nil =>
    refine iff_of_true ?_ hnil
    have hfind : find arrow (arrow ++ rest) = some 0 := rfl
    simp only [nameField, ↓reduceIte, nil_append, hfind, take_zero]
  | cons c name ih =>
    have hstart : arrow.isPrefixOf (c :: (name ++ arrow ++ rest)) = true ↔
        arrow <+: c :: (name ++ [' ']) := by
      rw [List.isPrefixOf_iff_prefix]
      have harrow : arrow = [' ', '-', '>', ' '] := rfl
      rcases name with _ | ⟨a, _ | ⟨b, _ | ⟨d, name⟩⟩⟩ <;>
        simp [harrow, cons_prefix_cons]
    rw [cons_append, cons_append, cons_append,
      infix_cons_iff, not_or, ← hstart]
    refine Iff.trans ?_ (and_congr_right' ih)
    by_cases hhere :
        arrow.isPrefixOf (c :: (name ++ arrow ++ rest)) = true
    · simp only [nameField, ↓reduceIte, find, hhere, take_zero,
        not_true_eq_false, false_and, iff_false]
      exact (cons_ne_nil c name).symm
    · simp only [nameField, ↓reduceIte, find, hhere,
        Bool.false_eq_true, not_false_eq_true, true_and]
      cases find arrow (name ++ arrow ++ rest) with
      | none => simp
      | some pos => simp

theorem nameField_false (rawName : Str) : nameField false rawName = rawName :=
  rfl

theorem nameField_prefix (isSymlink : Bool) (rawName : Str) :
    nameField isSymlink rawName <+: rawName := by
  cases isSymlink with
  | false => exact prefix_rfl
  | true =>
    simp only [nameField, ↓reduceIte]
    split
    · exact take_prefix _ rawName
    · exact prefix_rfl

theorem blank_head_readName {isSymlink : Bool} {tail name : Str}
    (h : readName isSymlink tail = some name) :
    ∀ c, name.head? = some c → blank c = false := by
  intro c hc
  rw [readName] at h
  split at h
  · exact absurd h.symm (some_ne_none _)
  · rw [some.injEq] at h
    obtain ⟨rest, hrest⟩ := nameField_prefix isSymlink (skipBlanks tail)
    have hhead : (skipBlanks tail).head? = some c := by
      rw [← hrest, h, head?_append, hc]
      rfl
    exact blank_head_skipBlanks hhead

theorem Name.isEmpty_append (name : Name) (rest : Str) :
    List.isEmpty (name.text ++ rest) = false := by
  rw [isEmpty_eq_false_iff]
  exact append_ne_nil_of_left_ne_nil name.nonempty rest

/-- The name of an entry does not begin with a blank. -/
def Name.Fronted (name : Name) : Prop :=
  ∀ c, name.text.head? = some c → blank c = false

theorem Name.Fronted.append {name : Name} (h : name.Fronted) (rest : Str) :
    skipBlanks (name.text ++ rest) = name.text ++ rest := by
  apply skipBlanks_of_head
  intro c hc
  obtain ⟨first, others, htext⟩ := exists_cons_of_ne_nil name.nonempty
  apply h
  rw [htext, cons_append] at hc
  rw [htext]
  exact hc

/-- The name of a link is read back if it neither begins with a blank nor
holds an arrow. -/
theorem readName_link (name : Name) (rest : Str) :
    readName true (name.text ++ arrow ++ rest) = some name.text ↔
      name.Fronted ∧ ¬ arrow <:+: name.text ++ [' '] := by
  rw [← nameField_link name.text rest]
  constructor
  · intro h
    have hfront : name.Fronted := blank_head_readName h
    refine ⟨hfront, ?_⟩
    rw [append_assoc, readName, hfront.append] at h
    split at h
    · exact absurd h.symm (some_ne_none _)
    · rw [append_assoc]
      exact some.inj h
  · rintro ⟨hfront, hname⟩
    rw [append_assoc] at hname ⊢
    rw [readName, hfront.append, hname, name.notDots, name.isEmpty_append]
    rfl

theorem stripCarriageReturn_append (front : Str) {text : Str} (h : text ≠ []) :
    stripCarriageReturn (front ++ text) =
      front ++ stripCarriageReturn text := by
  rw [stripCarriageReturn, stripCarriageReturn,
    getLast?_append_of_ne_nil _ h, dropLast_append_of_ne_nil h]
  split <;> rfl

theorem stripCarriageReturn_eq_self {text : Str} :
    stripCarriageReturn text = text ↔ text.getLast? ≠ some '\r' := by
  rw [stripCarriageReturn]
  constructor
  · intro h hlast
    rw [if_pos hlast] at h
    have hlen := congrArg List.length h
    rw [length_dropLast] at hlen
    cases text with
    | nil => exact absurd hlast.symm (some_ne_none _)
    | cons c rest =>
      rw [length_cons] at hlen
      omega
  · exact fun h => if_neg h

theorem length_stripCarriageReturn (text : Str) :
    text.length ≤ (stripCarriageReturn text).length + 1 ∧
      (stripCarriageReturn text).length ≤ text.length := by
  rw [stripCarriageReturn]
  split
  · rw [length_dropLast]
    omega
  · omega

/-- Another name is read back if it neither begins with a blank nor ends with
a carriage return. -/
theorem readName_plain (name : Name) :
    readName false (stripCarriageReturn name.text) = some name.text ↔
      name.Fronted ∧ name.text.getLast? ≠ some '\r' := by
  rw [← stripCarriageReturn_eq_self]
  constructor
  · intro h
    refine ⟨blank_head_readName h, ?_⟩
    rw [readName, nameField_false] at h
    split at h
    · exact absurd h.symm (some_ne_none _)
    · rw [some.injEq] at h
      have hle : name.text.length ≤ (stripCarriageReturn name.text).length :=
        calc name.text.length
            = (skipBlanks (stripCarriageReturn name.text)).length := by rw [h]
          _ ≤ (stripCarriageReturn name.text).length :=
            (dropWhile_sublist _).length_le
      rw [stripCarriageReturn]
      split
      · rename_i hlast
        rw [stripCarriageReturn, if_pos hlast, length_dropLast] at hle
        have hpos := length_pos_of_ne_nil name.nonempty
        omega
      · rfl
  · rintro ⟨hfront, hstrip⟩
    have hskip := hfront.append []
    have hempty := name.isEmpty_append []
    rw [append_nil] at hskip hempty
    rw [hstrip, readName, nameField_false, hskip, hempty, name.notDots]
    rfl

/-- The name of a device is never read back: the time stands in front. -/
theorem readName_device (name : Name) (clock : Column) :
    readName false (clock.text ++ ' ' :: stripCarriageReturn name.text) ≠
      some name.text := by
  intro h
  rw [readName, nameField_false, skipBlanks_of_head (clock.head_solid _)] at h
  split at h
  · exact absurd h.symm (some_ne_none _)
  · have hlen := congrArg (List.length ∘ fun text => Option.getD text []) h
    have hclock := length_pos_of_ne_nil clock.nonempty
    have hstrip := (length_stripCarriageReturn name.text).1
    simp only [Function.comp_apply, getD_some, length_append,
      length_cons] at hlen
    omega

/-- What each line that `ls` prints for a node is read as. -/
def readings (testDir : TestDir) (path : Str) (node : Node) :
    List (Option FileEntry) :=
  (lines (node.line ++ ['\n'])).map fun line =>
    (parseLsLine line).map (followLink testDir path)

/-- The line of the node is read as its entry, and nothing else is read from
what `ls` prints for it. -/
def ReadBack (testDir : TestDir) (path : Str) (node : Node) : Prop :=
  ∃ entry others, readings testDir path node = some entry :: others ∧
    (∀ other ∈ others, other = none) ∧
    Describes testDir (remoteChildPath path) node entry

/-- What a name and a kind must be like for `ls` to be read back. -/
def Node.Plain (node : Node) : Prop :=
  node.name.Fronted ∧
    match node.kind with
    | .link target => ¬ arrow <:+: node.name.text ++ [' '] ∧
        ∀ line ∈ (target.text.splitOn '\n').tail,
          parseLsLine (stripCarriageReturn line) = none
    | .device _ _ _ => False
    | _ => node.name.text.getLast? ≠ some '\r'

theorem row_append (columns : List Column) (tail rest : Str) :
    row columns (tail ++ rest) = row columns tail ++ rest := by
  induction columns with
  | nil => rfl
  | cons column others ih => rw [row, row, ih, ← append_assoc]

theorem newline_not_mem_row (columns : List Column) :
    '\n' ∉ row columns [] := by
  induction columns with
  | nil => exact not_mem_nil
  | cons column others ih =>
    simp only [row, mem_append, not_or]
    refine ⟨⟨fun hmem => ?_, fun hmem => ?_⟩, ih⟩
    · exact absurd (column.solid '\n' hmem) (by decide)
    · exact absurd (eq_of_mem_replicate hmem) (by decide)

theorem splitOn_front {separator : Char} {front : Str}
    (h : separator ∉ front) (text : Str) :
    (front ++ text).splitOn separator =
      (text.splitOn separator).modifyHead (front ++ ·) := by
  induction front with
  | nil =>
    rw [nil_append]
    cases text.splitOn separator <;> rfl
  | cons c rest ih =>
    have hc : (c == separator) = false := by
      rw [beq_eq_false_iff_ne]
      exact fun heq => h (heq ▸ mem_cons_self)
    have hrest := ih fun hmem => h (mem_cons_of_mem c hmem)
    rw [cons_append, splitOn_cons_eq_if_modifyHead, hc, hrest]
    cases text.splitOn separator <;> rfl

/-- The lines of a row: the columns stand in front of the first. -/
theorem lines_row (columns : List Column) (tail : Str) {first : Str}
    {others : List Str} (h : tail.splitOn '\n' = first :: others) :
    lines (row columns tail ++ ['\n']) =
      stripCarriageReturn (row columns first) ::
        others.map stripCarriageReturn := by
  have hrow : ∀ text, row columns text = row columns [] ++ text :=
    fun text => row_append columns [] text
  rw [lines_append_newline, lines_nil, append_nil, hrow,
    splitOn_front (newline_not_mem_row columns), h, hrow first]
  rfl

theorem stripCarriageReturn_row (columns : List Column) {tail : Str}
    (h : tail ≠ []) :
    stripCarriageReturn (row columns tail) =
      row columns (stripCarriageReturn tail) := by
  have hrow : ∀ text, row columns text = row columns [] ++ text :=
    fun text => row_append columns [] text
  rw [hrow, stripCarriageReturn_append _ h, ← hrow]

theorem parseU64_decimal {size : Nat} (h : size < 18446744073709551616) :
    parseU64 (decimal size) = size := by
  obtain ⟨c, rest, hcons⟩ :=
    exists_cons_of_ne_nil (decimal_ne_nil size)
  have hdigit : isAsciiDigit c = true :=
    isAsciiDigit_of_mem_decimal size c (hcons ▸ mem_cons_self)
  have hplus : c ≠ '+' := by
    rintro rfl
    exact absurd hdigit (by decide)
  have hparse := parseDigits_decimal size
  rw [hcons] at hparse
  have hfits : (some size).filter (fun value =>
      decide (value < 18446744073709551616)) = some size := by
    rw [filter_some, if_pos (decide_eq_true h)]
  simp [parseU64, hcons, parseUsize, hplus, hparse, hfits]

theorem Kind.letter_link (kind : Kind) :
    (kind.letter == 'l') = kind.isSymlink := by
  rcases kind with _ | _ | _ | ⟨_ | _, _, _⟩ <;> rfl

theorem sizeColumns_eq {kind : Kind}
    (h : ∀ block major minor, kind ≠ .device block major minor)
    (padding : Nat) : sizeColumns kind padding = [.number kind.size padding] := by
  cases kind with
  | device block major minor => exact absurd rfl (h block major minor)
  | regular | directory | link => rfl

/-- What the line of a node other than a device is read as. -/
theorem parseLsLine_columns {kind : Kind}
    (h : ∀ block major minor, kind ≠ .device block major minor)
    (attributes : Attributes) (tail : Str) :
    parseLsLine (row (columns kind attributes) tail) =
      (readName kind.isSymlink tail).map
        (rowEntry (columns kind attributes)) := by
  rw [← kind.letter_link, columns, sizeColumns_eq h]
  exact parseLsLine_row kind attributes.wholeMode rfl tail

theorem parseLsLine_device (block : Bool) (major minor : Nat)
    (attributes : Attributes) (tail : Str) :
    ∃ entryOf : Str → FileEntry, (∀ name, (entryOf name).name = name) ∧
      parseLsLine (row (columns (.device block major minor) attributes) tail) =
        (readName false (attributes.clock.text ++ ' ' :: tail)).map entryOf := by
  have hsplit : row (columns (.device block major minor) attributes) tail =
      row (.perms (.device block major minor) attributes.mode ::
          [attributes.links, attributes.owner, attributes.group,
            .numberComma major 0, .number minor attributes.sizePadding,
            attributes.month, attributes.day])
        (attributes.clock.text ++ ' ' :: tail) := by
    simp [columns, sizeColumns, row]
  have hletter : ((Kind.device block major minor).letter == 'l') = false :=
    Kind.letter_link _
  have hothers : [attributes.links, attributes.owner, attributes.group,
      .numberComma major 0, .number minor attributes.sizePadding,
      attributes.month, attributes.day].length = 7 := rfl
  have hparse := parseLsLine_row (.device block major minor)
    attributes.wholeMode hothers (attributes.clock.text ++ ' ' :: tail)
  rw [← hsplit, hletter] at hparse
  exact ⟨_, fun name => rfl, hparse⟩

variable {node : Node}

section

variable (testDir : TestDir) (path : Str)
include testDir path

/-- The entry read under the name of the node describes it. -/
theorem describes_rowEntry
    (h : ∀ block major minor, node.kind ≠ .device block major minor) :
    Describes testDir (remoteChildPath path) node (followLink testDir path
        (rowEntry (columns node.kind node.attributes) node.name.text)) := by
  obtain ⟨name, kind, attributes⟩ := node
  cases kind with
  | regular size fits =>
    refine ⟨rfl, rfl, rfl, fun size' _ hkind => ?_⟩
    rw [Kind.regular.injEq] at hkind
    rw [← hkind]
    exact parseU64_decimal fits
  | directory size =>
    exact ⟨rfl, rfl, rfl, fun _ _ hkind => Kind.noConfusion hkind⟩
  | link target =>
    exact ⟨rfl, rfl, rfl, fun _ _ hkind => Kind.noConfusion hkind⟩
  | device block major minor => exact absurd rfl (h block major minor)

/-- A node that is not a device is read back if its name is, and if the other
lines are read as nothing. -/
theorem readBack_iff_readName
    (hkind : ∀ block major minor, node.kind ≠ .device block major minor)
    {first : Str} {others : List Str} (hfirst : first ≠ [])
    (hsplit : (node.name.text ++ node.kind.suffix).splitOn '\n' =
      first :: others) :
    ReadBack testDir path node ↔
      readName node.kind.isSymlink (stripCarriageReturn first) =
          some node.name.text ∧
        ∀ line ∈ others, parseLsLine (stripCarriageReturn line) = none := by
  have hlines : readings testDir path node =
      ((readName node.kind.isSymlink (stripCarriageReturn first)).map
        (rowEntry (columns node.kind node.attributes))).map
          (followLink testDir path) ::
      others.map fun line => (parseLsLine (stripCarriageReturn line)).map
        (followLink testDir path) := by
    rw [readings, Node.line, lines_row _ _ hsplit, stripCarriageReturn_row _
      hfirst, map_cons, parseLsLine_columns hkind, List.map_map]
    rfl
  have hname : ∀ entry, (followLink testDir path entry).name =
      entry.name := by
    intro entry
    rw [followLink]
    split <;> rfl
  rw [ReadBack, hlines]
  constructor
  · rintro ⟨entry, rest, hcons, hrest, hdescribes⟩
    obtain ⟨hhead, htail⟩ := cons.inj hcons
    rw [Option.map_map, map_eq_some_iff] at hhead
    obtain ⟨name, hread, hentry⟩ := hhead
    constructor
    · rw [hread, ← hdescribes.name, ← hentry, Function.comp_apply, hname]
      rfl
    · intro line hline
      have hnone := hrest _ (htail ▸ mem_map_of_mem hline)
      exact map_eq_none_iff.mp hnone
  · rintro ⟨hread, hothers⟩
    refine ⟨_, _, by rw [hread]; rfl, fun other hother => ?_,
      describes_rowEntry testDir path hkind⟩
    obtain ⟨line, hline, rfl⟩ := mem_map.mp hother
    rw [hothers line hline]
    rfl

/-- A node that neither is a link nor a device has its name at the end of its
line. -/
theorem readBack_iff_file
    (hkind : ∀ block major minor, node.kind ≠ .device block major minor)
    (hlink : node.kind.isSymlink = false) (hsuffix : node.kind.suffix = []) :
    ReadBack testDir path node ↔
      node.name.Fronted ∧ node.name.text.getLast? ≠ some '\r' := by
  have hsplit : (node.name.text ++ node.kind.suffix).splitOn '\n' =
      [node.name.text] := by
    rw [hsuffix, append_nil]
    exact splitOn_eq_singleton node.name.noNewline
  rw [readBack_iff_readName testDir path hkind node.name.nonempty hsplit,
    hlink, readName_plain]
  simp only [not_mem_nil, false_implies, implies_true, and_true]

/-- The target of a link may bring lines of its own. -/
theorem readBack_iff_link
    {target : Printed} (hkind : node.kind = .link target) :
    ReadBack testDir path node ↔
      (node.name.Fronted ∧ ¬ arrow <:+: node.name.text ++ [' ']) ∧
        ∀ line ∈ (target.text.splitOn '\n').tail,
          parseLsLine (stripCarriageReturn line) = none := by
  obtain ⟨first, others, htarget⟩ := exists_cons_of_ne_nil
    (splitOn_ne_nil '\n' target.text)
  have hnewline : '\n' ∉ node.name.text ++ arrow := by
    rw [mem_append, not_or]
    exact ⟨node.name.noNewline, by decide⟩
  have hsplit : (node.name.text ++ node.kind.suffix).splitOn '\n' =
      (node.name.text ++ arrow ++ first) :: others := by
    rw [hkind, Kind.suffix, ← append_assoc, splitOn_front hnewline, htarget]
    rfl
  have hne : node.name.text ++ arrow ++ first ≠ [] :=
    append_ne_nil_of_left_ne_nil
      (append_ne_nil_of_left_ne_nil node.name.nonempty _) _
  obtain ⟨rest, hrest⟩ : ∃ rest,
      stripCarriageReturn (node.name.text ++ arrow ++ first) =
        node.name.text ++ arrow ++ rest := by
    by_cases hfirst : first = []
    · refine ⟨[], ?_⟩
      rw [hfirst, append_nil, stripCarriageReturn_append _ (by decide)]
      rfl
    · exact ⟨_, stripCarriageReturn_append _ hfirst⟩
  rw [readBack_iff_readName testDir path (by rw [hkind]; simp) hne hsplit,
    hrest, hkind, Kind.isSymlink, readName_link, htarget, tail_cons]

theorem not_readBack_device {block : Bool}
    {major minor : Nat} (hkind : node.kind = .device block major minor) :
    ¬ ReadBack testDir path node := by
  rintro ⟨entry, rest, hcons, -, hdescribes⟩
  have hsplit : (node.name.text ++ node.kind.suffix).splitOn '\n' =
      [node.name.text] := by
    have hsuffix : (Kind.device block major minor).suffix = [] := rfl
    rw [hkind, hsuffix, append_nil]
    exact splitOn_eq_singleton node.name.noNewline
  obtain ⟨entryOf, hentryOf, hparse⟩ := parseLsLine_device block major minor
    node.attributes (stripCarriageReturn node.name.text)
  rw [readings, Node.line, lines_row _ _ hsplit, stripCarriageReturn_row _
    node.name.nonempty, map_cons, hkind, hparse] at hcons
  have hhead := (cons.inj hcons).1
  rw [Option.map_map, map_eq_some_iff] at hhead
  obtain ⟨name, hread, hentry⟩ := hhead
  apply readName_device node.name node.attributes.clock
  rw [hread, ← hdescribes.name, ← hentry, Function.comp_apply, followLink]
  split <;> simp only [hentryOf]

/-- Exactly the plain nodes are read back. -/
theorem readBack_iff_plain (node : Node) :
    ReadBack testDir path node ↔ node.Plain := by
  obtain ⟨name, kind, attributes⟩ := node
  cases kind with
  | regular size fits =>
    exact readBack_iff_file testDir path (fun _ _ _ => Kind.noConfusion)
      rfl rfl
  | directory size =>
    exact readBack_iff_file testDir path (fun _ _ _ => Kind.noConfusion)
      rfl rfl
  | link target =>
    rw [readBack_iff_link testDir path rfl, and_assoc]
    exact Iff.rfl
  | device block major minor =>
    exact iff_of_false (not_readBack_device testDir path rfl)
      fun hplain => hplain.2

end

theorem parseLsLine_dots (parent : Bool) (size : Nat)
    (attributes : Attributes) :
    ∃ line, lines ((Row.dots parent size attributes).line ++ ['\n']) = [line] ∧
      parseLsLine line = none := by
  have hkind : ∀ block major minor,
      Kind.directory size ≠ .device block major minor :=
    fun _ _ _ => Kind.noConfusion
  have hread : ∀ tail, readName false tail = none →
      parseLsLine (row (columns (.directory size) attributes) tail) =
        none := by
    intro tail htail
    have hlink : (Kind.directory size).isSymlink = false := rfl
    rw [parseLsLine_columns hkind, hlink, htail, map_none]
  refine ⟨_, lines_row _ _ (splitOn_eq_singleton ?_), ?_⟩
  · cases parent <;> decide
  · cases parent with
    | false =>
      rw [if_neg Bool.false_ne_true, stripCarriageReturn_row _ (by decide)]
      exact hread ['.'] (by decide)
    | true =>
      rw [if_pos rfl, stripCarriageReturn_row _ (by decide)]
      exact hread ['.', '.'] (by decide)

theorem digits_newline (value : Nat) : '\n' ∉ decimal value :=
  fun hmem => absurd (isAsciiDigit_of_mem_decimal value _ hmem) (by decide)

theorem parseLsLine_total (total : Nat) :
    parseLsLine (stripCarriageReturn (totalPrefix ++ decimal total)) =
      none := by
  have hstart : ∀ rest : Str, parseLsLine (totalPrefix ++ rest) = none := by
    intro rest
    have htrim : trimStart (totalPrefix ++ rest) = totalPrefix ++ rest := rfl
    have htotal : totalPrefix.isPrefixOf (totalPrefix ++ rest) = true :=
      isPrefixOf_iff_prefix.mpr (prefix_append _ _)
    rw [parseLsLine, htrim]
    simp only [htotal, Bool.or_true, ↓reduceIte]
  rw [stripCarriageReturn_append _ (decimal_ne_nil total)]
  exact hstart _

/-- The listing is what is read from the lines of each node, in order. -/
theorem listDir_lsOutput (testDir : TestDir) (path : Str) (dir : Directory) :
    ScpNormal.listDir testDir path (lsOutput dir) =
      dir.nodes.flatMap fun node =>
        (readings testDir path node).filterMap id := by
  have htotal : '\n' ∉ totalPrefix ++ decimal dir.total := by
    rw [mem_append, not_or]
    exact ⟨by decide, digits_newline dir.total⟩
  have hrows : ∀ rows : List Row,
      (lines (rows.flatMap fun row => row.line ++ ['\n'])).filterMap
          (fun line => (parseLsLine line).map (followLink testDir path)) =
        (rows.filterMap Row.node?).flatMap fun node =>
          (readings testDir path node).filterMap id := by
    intro rows
    induction rows with
    | nil => rfl
    | cons row rest ih =>
      rw [flatMap_cons, append_assoc, singleton_append,
        lines_append_newline, filterMap_append, ih]
      have hrow : (row.line.splitOn '\n').map stripCarriageReturn =
          lines (row.line ++ ['\n']) := by
        rw [lines_append_newline, lines_nil, append_nil]
      rw [hrow]
      cases row with
      | dots parent size attributes =>
        obtain ⟨line, hline, hnone⟩ :=
          parseLsLine_dots parent size attributes
        rw [hline, filterMap_cons_none (by rw [hnone]; rfl)]
        rfl
      | node listed =>
        have hlisted : (Row.node listed :: rest).filterMap Row.node? =
            listed :: rest.filterMap Row.node? := rfl
        rw [hlisted, flatMap_cons, readings, filterMap_map]
        rfl
  rw [ScpNormal.listDir, lsOutput, lines_append_newline,
    splitOn_eq_singleton htotal, map_singleton,
    singleton_append, filterMap_cons_none, hrows, Directory.nodes]
  rw [parseLsLine_total]
  rfl

/-- Fields that a separator ends are the pieces between the separators. -/
theorem splitOn_terminated {separator : Char} {fields : List Str}
    (h : ∀ field ∈ fields, separator ∉ field) :
    (fields.flatMap fun field => field ++ [separator]).splitOn separator =
      fields ++ [[]] := by
  induction fields with
  | nil => rfl
  | cons field rest ih =>
    rw [forall_mem_cons] at h
    rw [flatMap_cons, append_assoc, singleton_append,
      splitOn_append_cons_self_of_not_mem h.1, ih h.2]
    rfl

theorem nul_not_mem_findPath (path : DirPath) (name : Name) :
    '\x00' ∉ findPath path.text name.text := by
  have hlisting : '\x00' ∉ remoteDirListingPath path.text := by
    rw [remoteDirListingPath]
    split
    · exact path.noNul
    · rw [mem_append, not_or]
      exact ⟨path.noNul, by decide⟩
  rw [findPath, mem_append, not_or]
  exact ⟨hlisting, name.noNul⟩

theorem nul_not_mem_fields (path : DirPath) (node : Node) :
    ∀ field ∈ node.fields path, '\x00' ∉ field := by
  have hletter : '\x00' ∉ [node.kind.findLetter] := by
    rcases node.kind with _ | _ | _ | ⟨_ | _, _, _⟩ <;>
      simp [Kind.findLetter, Kind.letter]
  have hdigits : '\x00' ∉ decimal node.kind.size :=
    fun hmem => absurd (isAsciiDigit_of_mem_decimal _ _ hmem) (by decide)
  simp only [Node.fields, forall_mem_cons]
  exact ⟨node.name.noNul, hletter, hdigits, node.attributes.time.noNul,
    node.attributes.permissions.noNul, node.attributes.user.noNul,
    node.attributes.groupName.noNul, nul_not_mem_findPath path node.name,
    fun _ hmem => absurd hmem not_mem_nil⟩

/-- Eight fields of a node are one entry, and it describes the node. -/
theorem entries_fields (testDir : TestDir) (path : DirPath) (node : Node)
    (rest : List Str) :
    ∃ entry, ScpEnhanced.entries testDir (node.fields path ++ rest) =
        entry :: ScpEnhanced.entries testDir rest ∧
      Describes testDir (findPath path.text) node entry := by
  obtain ⟨name, kind, attributes⟩ := node
  have hname : name.text.isEmpty = false :=
    isEmpty_eq_false_iff.mpr name.nonempty
  simp only [Node.fields, cons_append, ScpEnhanced.entries, hname,
    Bool.false_eq_true, ↓reduceIte, nil_append]
  refine ⟨_, rfl, ?_⟩
  cases kind with
  | regular size fits =>
    refine ⟨rfl, rfl, rfl, fun size' _ hkind => ?_⟩
    rw [Kind.regular.injEq] at hkind
    rw [← hkind]
    exact parseU64_decimal fits
  | directory size =>
    exact ⟨rfl, rfl, rfl, fun _ _ hkind => Kind.noConfusion hkind⟩
  | link target =>
    exact ⟨rfl, rfl, rfl, fun _ _ hkind => Kind.noConfusion hkind⟩
  | device block major minor =>
    cases block <;>
      exact ⟨rfl, rfl, rfl, fun _ _ hkind => Kind.noConfusion hkind⟩

/-- Every name survives the fields of `find`. -/
theorem listDir_findOutput (testDir : TestDir) (path : DirPath)
    (dir : Directory) :
    ∃ entries, ScpEnhanced.listDir testDir true (findOutput path dir) = some
      entries ∧ Forall₂ (Describes testDir (findPath path.text)) dir.nodes
        entries := by
  have hsplit : (findOutput path dir).splitOn '\x00' =
      dir.nodes.flatMap (Node.fields path) ++ [[]] := by
    rw [findOutput, ← flatMap_assoc]
    apply splitOn_terminated
    intro field hfield
    obtain ⟨node, -, hmem⟩ := mem_flatMap.mp hfield
    exact nul_not_mem_fields path node field hmem
  have hentries : ∀ nodes : List Node,
      Forall₂ (Describes testDir (findPath path.text)) nodes
        (ScpEnhanced.entries testDir
          (nodes.flatMap (Node.fields path) ++ [[]])) := by
    intro nodes
    induction nodes with
    | nil => exact Forall₂.nil
    | cons node rest ih =>
      obtain ⟨entry, hentry, hdescribes⟩ := entries_fields testDir path node
        (rest.flatMap (Node.fields path) ++ [[]])
      rw [flatMap_cons, append_assoc, hentry]
      exact Forall₂.cons hdescribes ih
  refine ⟨_, rfl, ?_⟩
  rw [hsplit]
  exact hentries dir.nodes

/-- A node that is read back gives the one entry that describes it. -/
theorem forall₂_of_readBack {testDir : TestDir} {path : Str}
    {nodes : List Node} (h : ∀ node ∈ nodes, ReadBack testDir path node) :
    Forall₂ (Describes testDir (remoteChildPath path)) nodes
      (nodes.flatMap fun node =>
        (readings testDir path node).filterMap id) := by
  induction nodes with
  | nil => exact Forall₂.nil
  | cons node rest ih =>
    rw [forall_mem_cons] at h
    obtain ⟨⟨entry, others, hlines, hothers, hdescribes⟩, hrest⟩ := h
    have hnone : others.filterMap id = [] := by
      rw [filterMap_eq_nil_iff]
      exact hothers
    have hone : (some entry :: others).filterMap id = [entry] :=
      congrArg (entry :: ·) hnone
    rw [flatMap_cons, hlines, hone]
    exact Forall₂.cons hdescribes (ih hrest)

/-- What `ls` prints is read back, node by node, exactly for plain names and
kinds, and then the listing is the directory.  What `find` prints always is. -/
theorem listed_exactly_iff (testDir : TestDir) (path : DirPath)
    (dir : Directory) :
    (ScpNormal.listDir testDir path.text (lsOutput dir) =
        dir.nodes.flatMap fun node =>
          (readings testDir path.text node).filterMap id) ∧
      ((∀ node ∈ dir.nodes, ReadBack testDir path.text node) ↔
        ∀ node ∈ dir.nodes, node.Plain) ∧
      ((∀ node ∈ dir.nodes, node.Plain) →
        Forall₂ (Describes testDir (remoteChildPath path.text)) dir.nodes
          (ScpNormal.listDir testDir path.text (lsOutput dir))) ∧
      ∃ entries, ScpEnhanced.listDir testDir true (findOutput path dir) =
          some entries ∧
        List.Forall₂ (Describes testDir (findPath path.text)) dir.nodes
          entries := by
  have hlisting := listDir_lsOutput testDir path.text dir
  have hiff : (∀ node ∈ dir.nodes, ReadBack testDir path.text node) ↔
      ∀ node ∈ dir.nodes, node.Plain :=
    forall₂_congr fun node _ => readBack_iff_plain testDir path.text node
  refine ⟨hlisting, hiff, fun hplain => ?_,
    listDir_findOutput testDir path dir⟩
  rw [hlisting]
  exact forall₂_of_readBack (hiff.mpr hplain)

/-- A text without blanks, as a computation. -/
theorem solid_text {text : Str}
    (h : (!text.isEmpty && text.all fun c => !blank c) = true) :
    text ≠ [] ∧ ∀ c ∈ text, blank c = false := by
  rw [Bool.and_eq_true, List.all_eq_true] at h
  refine ⟨by simpa using h.1, fun c hmem => by simpa using h.2 c hmem⟩

def sampleColumn (text : String) (h : text.toList ≠ [] ∧
    ∀ c ∈ text.toList, blank c = false) : Column :=
  ⟨text.toList, 0, h.1, h.2⟩

def samplePrinted (text : String) (h : '\x00' ∉ text.toList) : Printed :=
  ⟨text.toList, h⟩

def sampleAttributes : Attributes where
  mode := sampleColumn "rw-r--r--" (solid_text (by decide))
  wholeMode := by decide
  links := sampleColumn "1" (solid_text (by decide))
  owner := sampleColumn "1000" (solid_text (by decide))
  group := sampleColumn "1000" (solid_text (by decide))
  sizePadding := 0
  month := sampleColumn "Sep" (solid_text (by decide))
  day := sampleColumn "1" (solid_text (by decide))
  clock := sampleColumn "09:31" (solid_text (by decide))
  time := samplePrinted "1756718060.5" (by decide)
  permissions := samplePrinted "-rw-r--r--" (by decide)
  user := samplePrinted "user" (by decide)
  groupName := samplePrinted "user" (by decide)

/-- A directory with the files ` a` and `a`. -/
def sampleDirectory : Directory where
  total := 8
  rows := [ .dots false 4096 sampleAttributes, .dots true 4096
    sampleAttributes, .node {
      name := ⟨" a".toList, by decide, by decide, by decide, by decide,
        by decide⟩
      kind := .regular 5 (by decide)
      attributes := sampleAttributes },
    .node {
      name := ⟨"a".toList, by decide, by decide, by decide, by decide,
        by decide⟩
      kind := .regular 7 (by decide)
      attributes := sampleAttributes }]

/-- Both files are listed as `a`. -/
theorem leading_blank_lost :
    (ScpNormal.listDir (fun _ => none) ['/'] (lsOutput sampleDirectory)).map
        FileEntry.name = [['a'], ['a']] ∧
      ¬ Forall₂ (Describes (fun _ => none) (remoteChildPath ['/']))
        sampleDirectory.nodes (ScpNormal.listDir (fun _ => none) ['/']
          (lsOutput sampleDirectory)) := by
  have hnames : (ScpNormal.listDir (fun _ => none) ['/']
      (lsOutput sampleDirectory)).map FileEntry.name = [['a'], ['a']] := by
    decide +kernel
  refine ⟨hnames, fun hall => ?_⟩
  obtain ⟨entry, rest, hdescribes, _, heq⟩ :=
    forall₂_cons_left_iff.mp hall
  rw [heq, map_cons] at hnames
  have hname := (cons.inj hnames).1
  rw [hdescribes.name] at hname
  exact absurd hname (by decide)

end NiceTerm.Sftp.Listing
