/-
Directory listings over SCP.  One backend reads the columns that `ls -la -n`
prints, the other the fields that `find -printf` ends with NUL.
-/
import NiceTerm.Lib.RustSplit

namespace NiceTerm.Sftp.Listing

open RustStr
open RustStr (Str)

structure FileEntry where
  name : Str
  isDir : Bool
  isSymlink : Bool
  size : Nat
  permissions : Str
  owner : Str
  group : Str
  mtime : Nat
deriving DecidableEq, Repr

def blank (c : Char) : Bool := isAsciiWhitespace c

def skipBlanks (line : Str) : Str := line.dropWhile blank

/-- The next fields of a line and what stands behind them. -/
def splitFields : Nat → Str → Option (List Str × Str)
  | 0, line => some ([], line)
  | n + 1, line =>
    let field := (skipBlanks line).takeWhile fun c => !blank c
    let rest := (skipBlanks line).dropWhile fun c => !blank c
    if field.isEmpty then none
    else
      match splitFields n rest with
      | none => none
      | some (fields, rest) => some (field :: fields, rest)

def splitLsFields (line : Str) : Option (List Str × Str) :=
  match splitFields 8 line with
  | none => none
  | some (fields, rest) =>
    if (skipBlanks rest).isEmpty then none
    else some (fields, skipBlanks rest)

def arrow : Str := " -> ".toList

def totalPrefix : Str := "total ".toList

/-- The name up to the arrow, for a link. -/
def nameField (isSymlink : Bool) (rawName : Str) : Str :=
  if isSymlink then
    match find arrow rawName with
    | some pos => rawName.take pos
    | none => rawName
  else rawName

def isDots (name : Str) : Bool := name == ['.'] || name == ['.', '.']

def parseU64 (text : Str) : Nat := (parseUsize text).getD 0

def parseLsLine (line : Str) : Option FileEntry :=
  let line := trimStart line
  if (trimEnd line).isEmpty || totalPrefix.isPrefixOf line then none
  else
    match splitLsFields line with
    | none => none
    | some (parts, rawName) =>
      let perms := parts.getD 0 []
      if len perms < 10 then none
      else
        let isDir := perms.head? == some 'd'
        let isSymlink := perms.head? == some 'l'
        if rawName.isEmpty then none
        else
          let name := nameField isSymlink rawName
          if isDots name then none
          else
            some {
              name := name
              isDir := isDir
              isSymlink := isSymlink
              size := parseU64 (parts.getD 4 [])
              permissions := perms
              owner := parts.getD 2 []
              group := parts.getD 3 []
              mtime := 0 }

def remoteDirListingPath (path : Str) : Str :=
  if path = ['/'] ∨ path.getLast? = some '/' then path else path ++ ['/']

def remoteChildPath (parent name : Str) : Str :=
  if parent = ['/'] then '/' :: name
  else trimEndMatches '/' parent ++ '/' :: name

/-- How `test -d` on a path ended; `none` if it could not be run. -/
abbrev TestDir := Str → Option Bool

namespace ScpNormal

/-- An entry of a link is a directory if its target is one. -/
def followLink (testDir : TestDir) (path : Str) (entry : FileEntry) :
    FileEntry :=
  if entry.isSymlink then
    { entry with
      isDir :=
        (testDir (remoteChildPath path entry.name)).getD entry.isDir }
  else entry

/-- What the output of `ls` is read as. -/
def listDir (testDir : TestDir) (path output : Str) : List FileEntry :=
  (lines output).filterMap fun line =>
    (parseLsLine line).map (followLink testDir path)

end ScpNormal

namespace ScpEnhanced

/-- Eight fields at a time; what is left over is dropped. -/
def entries (testDir : TestDir) : List Str → List FileEntry
  | name :: typeChar :: size :: time :: permissions :: owner :: group ::
      fullPath :: fields =>
      let isSymlink := typeChar == ['l']
      let isSymlinkToDir := isSymlink && (testDir fullPath).getD false
      if name.isEmpty then entries testDir fields
      else
        { name := name
          isDir := typeChar == ['d'] || isSymlinkToDir
          isSymlink := isSymlink
          size := parseU64 size
          permissions := permissions
          owner := owner
          group := group
          mtime := parseU64 (time.takeWhile (· != '.')) } ::
          entries testDir fields
  | _ => []

/-- `none` when `find` fails with no output at all. -/
def listDir (testDir : TestDir) (succeeded : Bool) (output : Str) :
    Option (List FileEntry) :=
  if !succeeded && output.isEmpty then none
  else some (entries testDir (output.splitOn '\x00'))

end ScpEnhanced

/-- The name of a directory entry other than `.` and `..`. -/
structure Name where
  text : Str
  nonempty : text ≠ []
  noNewline : '\n' ∉ text
  noNul : '\x00' ∉ text
  noSlash : '/' ∉ text
  notDots : isDots text = false

/-- A column of `ls`: a text without blanks, and how many blanks more than one
stand behind it. -/
structure Column where
  text : Str
  padding : Nat
  nonempty : text ≠ []
  solid : ∀ c ∈ text, blank c = false

/-- A column that `find` prints. -/
structure Printed where
  text : Str
  noNul : '\x00' ∉ text

inductive Kind where
  | regular (size : Nat) (fits : size < 18446744073709551616)
  | directory (size : Nat)
  | link (target : Printed)
  | device (block : Bool) (major minor : Nat)

/-- What both commands print of an entry beside its name and kind. -/
structure Attributes where
  mode : Column
  wholeMode : 9 ≤ mode.text.length
  links : Column
  owner : Column
  group : Column
  sizePadding : Nat
  month : Column
  day : Column
  clock : Column
  time : Printed
  permissions : Printed
  user : Printed
  groupName : Printed

structure Node where
  name : Name
  kind : Kind
  attributes : Attributes

def Kind.letter : Kind → Char
  | .regular _ _ => '-'
  | .directory _ => 'd'
  | .link _ => 'l'
  | .device block _ _ => if block then 'b' else 'c'

/-- The type as `find` writes it: a regular file is `f`. -/
def Kind.findLetter : Kind → Char
  | .regular _ _ => 'f'
  | kind => kind.letter

def Kind.isSymlink : Kind → Bool
  | .link _ => true
  | _ => false

def Kind.size : Kind → Nat
  | .regular size _ => size
  | .directory size => size
  | .link target => len target.text
  | .device _ _ _ => 0

/-- What is printed behind the name. -/
def Kind.suffix : Kind → Str
  | .link target => arrow ++ target.text
  | _ => []

def row : List Column → Str → Str
  | [], tail => tail
  | column :: rest, tail =>
    column.text ++ List.replicate (column.padding + 1) ' ' ++ row rest tail

theorem blank_eq_false_of_digit {c : Char}
    (h : isAsciiDigit c = true) : blank c = false := by
  have hne : ∀ d : Char, isAsciiDigit d = false → (c == d) = false := by
    intro d hd
    rw [beq_eq_false_iff_ne]
    rintro rfl
    rw [h] at hd
    exact Bool.noConfusion hd
  simp only [blank, isAsciiWhitespace, hne ' ' rfl, hne '\t' rfl,
    hne '\n' rfl, hne '\x0c' rfl, hne '\r' rfl, Bool.or_self]

/-- A number, and a comma behind it. -/
def Column.number (value padding : Nat) : Column where
  text := decimal value
  padding := padding
  nonempty := decimal_ne_nil value
  solid c hc :=
    blank_eq_false_of_digit (isAsciiDigit_of_mem_decimal value c hc)

def Column.numberComma (value padding : Nat) : Column where
  text := decimal value ++ [',']
  padding := padding
  nonempty := List.append_ne_nil_of_right_ne_nil _ (List.cons_ne_nil _ _)
  solid c hc := by
    rcases List.mem_append.mp hc with hdigit | hcomma
    · exact blank_eq_false_of_digit
        (isAsciiDigit_of_mem_decimal value c hdigit)
    · rw [List.mem_singleton.mp hcomma]
      rfl

variable (kind : Kind)

theorem Kind.blank_letter : blank kind.letter = false := by
  rcases kind with _ | _ | _ | ⟨_ | _, _, _⟩ <;> rfl

/-- The mode with the letter of the kind in front. -/
def Column.perms (mode : Column) : Column where
  text := kind.letter :: mode.text
  padding := mode.padding
  nonempty := List.cons_ne_nil _ _
  solid := List.forall_mem_cons.mpr ⟨kind.blank_letter, mode.solid⟩

/-- The size, or the two numbers of a device. -/
def sizeColumns (padding : Nat) : List Column :=
  match kind with
  | .device _ major minor => [.numberComma major 0, .number minor padding]
  | kind => [.number kind.size padding]

def columns (attributes : Attributes) : List Column :=
  [.perms kind attributes.mode, attributes.links, attributes.owner,
    attributes.group] ++ sizeColumns kind attributes.sizePadding ++
    [attributes.month, attributes.day,
      { attributes.clock with padding := 0 }]

/-- What `ls` lists: `.`, `..` and the entries, in its order. -/
inductive Row where
  | dots (parent : Bool) (size : Nat) (attributes : Attributes)
  | node (listed : Node)

def Node.line (node : Node) : Str :=
  row (columns node.kind node.attributes) (node.name.text ++ node.kind.suffix)

def Row.line : Row → Str
  | .dots parent size attributes =>
    row (columns (.directory size) attributes)
      (if parent then ['.', '.'] else ['.'])
  | .node listed => listed.line

def Row.node? : Row → Option Node
  | .dots _ _ _ => none
  | .node listed => some listed

structure Directory where
  total : Nat
  rows : List Row

def Directory.nodes (dir : Directory) : List Node :=
  dir.rows.filterMap Row.node?

/-- The output of `ls -la -n`. -/
def lsOutput (dir : Directory) : Str :=
  (totalPrefix ++ decimal dir.total) ++ '\n' ::
    dir.rows.flatMap fun row => row.line ++ ['\n']

/-- A path with no NUL in it, as every path of a command line is. -/
structure DirPath where
  text : Str
  noNul : '\x00' ∉ text

def findPath (path name : Str) : Str := remoteDirListingPath path ++ name

/-- The fields that `find` prints of an entry. -/
def Node.fields (path : DirPath) (node : Node) : List Str :=
  [node.name.text, [node.kind.findLetter], decimal node.kind.size,
    node.attributes.time.text, node.attributes.permissions.text,
    node.attributes.user.text, node.attributes.groupName.text,
    findPath path.text node.name.text]

/-- The output of `find`. -/
def findOutput (path : DirPath) (dir : Directory) : Str :=
  dir.nodes.flatMap fun node =>
    (node.fields path).flatMap fun field => field ++ ['\x00']

/-- The entry is the one of this node: its name, its kind and, of a regular
file, its size. -/
structure Describes (testDir : TestDir) (childPath : Str → Str) (node : Node)
    (entry : FileEntry) : Prop where
  name : entry.name = node.name.text
  isSymlink : entry.isSymlink = node.kind.isSymlink
  isDir : entry.isDir =
    match node.kind with
    | .directory _ => true
    | .link _ => (testDir (childPath node.name.text)).getD false
    | _ => false
  size : ∀ size fits, node.kind = .regular size fits → entry.size = size

end NiceTerm.Sftp.Listing
