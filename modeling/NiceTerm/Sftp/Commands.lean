/-
The commands that the SFTP and SCP helpers build with `sh_quote`: what a shell
makes of their texts, whatever the paths are.
-/
import NiceTerm.Lib.RustSplit
import NiceTerm.Lib.ShellWords

namespace NiceTerm.Sftp.Commands

open RustStr
open RustStr (Str)
open ShellWords

def shQuote (input : Str) : Str :=
  if input.isEmpty then "''".toList else quote input

def fixed (text : String) : Piece := .text text.toList

/-- A long text in parts. -/
def script (parts : List String) : List Piece := parts.map fixed

/-- `input.replace` and the quotes around it give the empty text as well. -/
theorem shQuote_eq (input : Str) : shQuote input = quote input := by
  cases input with
  | nil => rfl
  | cons c rest => rfl

/-! ## Modes and owners -/

structure FileProperties where
  permissions : Str
  owner : Str
  group : Str
  uid : Str
  gid : Str
  deriving DecidableEq, Repr

/-- `{:04o}` of a number below 4096. -/
def formatOctal (value : Nat) : Str :=
  [value / 512 % 8, value / 64 % 8, value / 8 % 8, value % 8].map digitChar

/-- The bits of one of the three groups of a permissions string. -/
def classBits (read write execute : Char) (special : Char × Char)
    (unit specialBit : Nat) : Nat :=
  (if read = 'r' then 4 * unit else 0) + (if write = 'w' then 2 * unit else 0) +
    if execute = 'x' then unit
    else if execute = special.1 then specialBit + unit
    else if execute = special.2 then specialBit
    else 0

/-- Fewer than ten characters are no permissions; more are not read. -/
def permissionsStringToOctalMode : Str → Option Str
  | _ :: c1 :: c2 :: c3 :: c4 :: c5 :: c6 :: c7 :: c8 :: c9 :: _ =>
    some (formatOctal (classBits c1 c2 c3 ('s', 'S') 64 2048 + classBits c4 c5
      c6 ('s', 'S') 8 1024 + classBits c7 c8 c9 ('t', 'T') 1 512))
  | _ => none

example : permissionsStringToOctalMode "-rwsr-x--t".toList =
    some "5751".toList := by decide

def isNumericId (value : Str) : Bool :=
  !value.isEmpty && value.all isAsciiDigit

def scpOwnerGroupSpec (props : FileProperties) : Option Str :=
  let uid := trim props.uid
  let gid := trim props.gid
  let owner := trim props.owner
  let group := trim props.group
  if isNumericId uid && isNumericId gid then some (uid ++ ':' :: gid)
  else if !owner.isEmpty && !group.isEmpty then some (owner ++ ':' :: group)
  else none

/-! ## The texts -/

/-- `chown {} -- {}` and `chmod {} -- {}` -/
def changeTemplate (utility : String) (value path : Nat) : List Piece :=
  [fixed utility, fixed " ", .quoted value, fixed " -- ", .quoted path]

/-- The slots are the temporary path, the target, the owner and the mode. -/
def finalizeTemplate (hasOwner hasMode : Bool) : List Piece :=
  (if hasOwner then changeTemplate "chown" 2 0 ++ [fixed " && "] else []) ++
    (if hasMode then changeTemplate "chmod" 3 0 ++ [fixed " && "] else []) ++
    [fixed "mv -f -- ", .quoted 0, fixed " ", .quoted 1]

def preflight : List Piece :=
  script ["case \"$(uname -s ", "2>/dev/null)\" in ", "CYGWIN*|MINGW*|",
    "MSYS*|Windows*) ", "exit 97;; esac; ", "command -v cp ",
    ">/dev/null 2>&1 ", "|| exit 98;"]

/-- The slots are the source and the target. -/
def copyTemplate (isDirectory : Bool) : List Piece :=
  preflight ++
    if isDirectory then
      [fixed " if [ -d ", .quoted 1, fixed " ]; then cp -a -- ", .quoted 0,
        fixed "/. ", .quoted 1, fixed "/; else cp -a -- ", .quoted 0,
        fixed " ", .quoted 1, fixed "; fi"]
    else [fixed " cp -a -- ", .quoted 0, fixed " ", .quoted 1]

def remoteDirListingPath (path : Str) : Str :=
  if path = ['/'] ∨ path.getLast? = some '/' then path else path ++ ['/']

/-- The attributes that `update_attrs` changes. -/
inductive RemoteAttribute where
  | mode
  | owner
  | group
  deriving DecidableEq, Repr

def RemoteAttribute.utility : RemoteAttribute → String
  | .mode => "chmod"
  | .owner => "chown"
  | .group => "chgrp"

/-- Every command of the helpers that has a path in it, with its arguments. -/
inductive RemoteCommand where
  | countRemoteFiles (path : Str)
  | createDirectory (path : Str)
  | statSize (path : Str)
  | readFile (path : Str)
  | writeFile (path : Str)
  | removeTemporary (path : Str)
  | listDir (path : Str)
  | testDirectory (path : Str)
  | testExists (path : Str)
  | stat (path : Str)
  | readLink (path : Str)
  | chmod (mode path : Str)
  | chmodNumber (permissions : Fin 4096) (path : Str)
  | removeFile (path : Str)
  | rename (oldPath newPath : Str)
  | createFile (path : Str)
  | symlink (targetPath linkPath : Str)
  | update (changed : RemoteAttribute) (recursive : Bool) (value path : Str)
  | readHead (bytes : Nat) (path : Str)
  | readBlocks (bytes : Nat) (path : Str)
  | listLong (path : Str)
  | listEntry (path : Str)
  | scpFinalizeReplace (tmpPath targetPath : Str)
      (original : Option FileProperties)
  | writeText (tmpPath targetPath : Str) (original : Option FileProperties)
  | remoteSameEndpointCopy (sourcePath targetPath : Str) (isDirectory : Bool)

def ownerOf (original : Option FileProperties) : Option Str :=
  original.bind scpOwnerGroupSpec

def modeOf (original : Option FileProperties) : Option Str :=
  original.bind fun props => permissionsStringToOctalMode props.permissions

namespace RemoteCommand

/-- The argument of each slot. -/
def arguments : RemoteCommand → List Str
  | countRemoteFiles path | createDirectory path | statSize path
  | readFile path | writeFile path | removeTemporary path | testDirectory path
  | testExists path | stat path | readLink path | removeFile path
  | createFile path | listLong path | listEntry path => [path]
  | listDir path => [remoteDirListingPath path]
  | chmod mode path => [mode, path]
  | chmodNumber permissions path => [formatOctal permissions, path]
  | rename oldPath newPath => [oldPath, newPath]
  | symlink targetPath linkPath => [targetPath, linkPath]
  | update _ _ value path => [value, path]
  | readHead bytes path => [decimal bytes, path]
  | readBlocks bytes path => [decimal bytes, path]
  | scpFinalizeReplace tmpPath targetPath original =>
    [tmpPath, targetPath, (ownerOf original).getD [],
      (modeOf original).getD []]
  | writeText tmpPath targetPath original =>
    [tmpPath, targetPath, (ownerOf original).getD [],
      (modeOf original).getD []]
  | remoteSameEndpointCopy sourcePath targetPath _ => [sourcePath, targetPath]

def slot (command : RemoteCommand) (slot : Nat) : Str :=
  command.arguments.getD slot []

/-- The format string of each command. -/
def template : RemoteCommand → List Piece
  | countRemoteFiles _ => [fixed "find ", .quoted 0, fixed " -type f | wc -l"]
  | createDirectory _ => [fixed "mkdir -p -- ", .quoted 0]
  | statSize _ => [fixed "LC_ALL=C stat -c '%s' -- ", .quoted 0]
  | readFile _ => [fixed "cat -- ", .quoted 0]
  | writeFile _ => [fixed "cat > ", .quoted 0]
  | removeTemporary _ => [fixed "rm -f -- ", .quoted 0]
  | listDir _ =>
    [fixed "LC_ALL=C find ", .quoted 0, fixed " -mindepth 1 -maxdepth 1 ",
      fixed "-printf '%f\\0%y\\0%s\\0", fixed "%T@\\0%M\\0%u\\0%g\\0%p\\0'"]
  | testDirectory _ => [fixed "test -d ", .quoted 0]
  | testExists _ => [fixed "test -e ", .quoted 0]
  | stat _ =>
    [fixed "LC_ALL=C stat -c '%n\\0%F\\0%s", fixed "\\0%Y\\0%X\\0%a\\0%U",
      fixed "\\0%G\\0%u\\0%g' -- ", .quoted 0]
  | readLink _ =>
    [fixed "LC_ALL=C find ", .quoted 0, fixed " -maxdepth 0 ",
      fixed "-printf '%l\\0'"]
  | chmod _ _ => changeTemplate "chmod" 0 1
  | chmodNumber _ _ =>
    [fixed "chmod ", .number 0, fixed " -- ", .quoted 1]
  | removeFile _ => [fixed "rm -rf -- ", .quoted 0]
  | rename _ _ => [fixed "mv -- ", .quoted 0, fixed " ", .quoted 1]
  | createFile _ => [fixed "touch -- ", .quoted 0]
  | symlink _ _ => [fixed "ln -s -- ", .quoted 0, fixed " ", .quoted 1]
  | update changed recursive _ _ =>
    [fixed changed.utility, fixed " ",
      fixed (if recursive then "-R " else ""), .quoted 0, fixed " -- ",
      .quoted 1]
  | readHead _ _ => [fixed "head -c ", .number 0, fixed " -- ", .quoted 1]
  | readBlocks _ _ =>
    [fixed "dd bs=1 count=", .number 0, fixed " if=", .quoted 1,
      fixed " 2>/dev/null"]
  | listLong _ => [fixed "LC_ALL=C ls -la -n -- ", .quoted 0]
  | listEntry _ => [fixed "LC_ALL=C ls -lad -n -- ", .quoted 0]
  | scpFinalizeReplace _ _ original =>
    finalizeTemplate (ownerOf original).isSome (modeOf original).isSome
  | writeText _ _ original =>
    [fixed "umask 077; cat > ", .quoted 0, fixed " && "] ++
      finalizeTemplate (ownerOf original).isSome (modeOf original).isSome
  | remoteSameEndpointCopy _ _ isDirectory => copyTemplate isDirectory

def part (command : RemoteCommand) : Piece → Str
  | .text fixed => fixed
  | .quoted slot => shQuote (command.slot slot)
  | .number slot => command.slot slot

/-- The text of the command, every argument through `sh_quote`. -/
def text (command : RemoteCommand) : Str :=
  command.template.flatMap command.part

end RemoteCommand

/-! ## The intended tokens -/

/-- A token with slots, marked if the slot in it is a path. -/
abbrev Marked := Token Symbol × Bool

def op (text : String) : Marked := (.operator text.toList, false)

def words (texts : List String) : List Marked :=
  texts.map fun text => (.word (text.toList.map .char), false)

def argument (slot : Nat) : Marked := (.word [.slot slot], false)

def path (slot : Nat) : Marked := (.word [.slot slot], true)

/-- A slot with text around it in one word. -/
def joined (front : String) (slot : Nat) (back : String) (isPath : Bool) :
    Marked :=
  (.word (front.toList.map .char ++ .slot slot :: back.toList.map .char),
    isPath)

def toNull (descriptor : String) : List Marked :=
  [(.ioNumber (descriptor.toList.map .char), false), op ">"] ++
    words ["/dev/null"]

def changeIntended (utility : String) (value slot : Nat) : List Marked :=
  words [utility] ++ [argument value] ++ words ["--"] ++ [path slot]

def finalizeIntended (hasOwner hasMode : Bool) : List Marked :=
  (if hasOwner then changeIntended "chown" 2 0 ++ [op "&&"] else []) ++
    (if hasMode then changeIntended "chmod" 3 0 ++ [op "&&"] else []) ++
    words ["mv", "-f", "--"] ++ [path 0, path 1]

def preflightIntended : List Marked :=
  words ["case", "$(uname -s 2>/dev/null)", "in", "CYGWIN*"] ++ [op "|"] ++
    words ["MINGW*"] ++ [op "|"] ++ words ["MSYS*"] ++ [op "|"] ++
    words ["Windows*"] ++ [op ")"] ++ words ["exit", "97"] ++ [op ";;"] ++
    words ["esac"] ++ [op ";"] ++ words ["command", "-v", "cp"] ++ [op ">"] ++
    words ["/dev/null"] ++ [(.ioNumber [.char '2'], false), op ">&"] ++
    words ["1"] ++ [op "||"] ++ words ["exit", "98"] ++ [op ";"]

def copyIntended (isDirectory : Bool) : List Marked :=
  preflightIntended ++
    if isDirectory then
      words ["if", "[", "-d"] ++ [path 1] ++ words ["]"] ++ [op ";"] ++
        words ["then", "cp", "-a", "--"] ++
        [joined "" 0 "/." true, joined "" 1 "/" true, op ";"] ++
        words ["else", "cp", "-a", "--"] ++ [path 0, path 1, op ";"] ++
        words ["fi"]
    else words ["cp", "-a", "--"] ++ [path 0, path 1]

namespace RemoteCommand

open List

/-- The words and operators that each command is meant to have. -/
def intended : RemoteCommand → List Marked
  | countRemoteFiles _ =>
    words ["find"] ++ [path 0] ++ words ["-type", "f"] ++ [op "|"] ++
      words ["wc", "-l"]
  | createDirectory _ => words ["mkdir", "-p", "--"] ++ [path 0]
  | statSize _ => words ["LC_ALL=C", "stat", "-c", "%s", "--"] ++ [path 0]
  | readFile _ => words ["cat", "--"] ++ [path 0]
  | writeFile _ => words ["cat"] ++ [op ">", path 0]
  | removeTemporary _ => words ["rm", "-f", "--"] ++ [path 0]
  | listDir _ =>
    words ["LC_ALL=C", "find"] ++ [path 0] ++
      words ["-mindepth", "1", "-maxdepth", "1", "-printf",
        "%f\\0%y\\0%s\\0%T@\\0%M\\0%u\\0%g\\0%p\\0"]
  | testDirectory _ => words ["test", "-d"] ++ [path 0]
  | testExists _ => words ["test", "-e"] ++ [path 0]
  | stat _ =>
    words ["LC_ALL=C", "stat", "-c",
      "%n\\0%F\\0%s\\0%Y\\0%X\\0%a\\0%U\\0%G\\0%u\\0%g", "--"] ++ [path 0]
  | readLink _ =>
    words ["LC_ALL=C", "find"] ++ [path 0] ++
      words ["-maxdepth", "0", "-printf", "%l\\0"]
  | chmod _ _ => changeIntended "chmod" 0 1
  | chmodNumber _ _ => changeIntended "chmod" 0 1
  | removeFile _ => words ["rm", "-rf", "--"] ++ [path 0]
  | rename _ _ => words ["mv", "--"] ++ [path 0, path 1]
  | createFile _ => words ["touch", "--"] ++ [path 0]
  | symlink _ _ => words ["ln", "-s", "--"] ++ [path 0, path 1]
  | update changed recursive _ _ =>
    words [changed.utility] ++ words (if recursive then ["-R"] else []) ++
      [argument 0] ++ words ["--"] ++ [path 1]
  | readHead _ _ =>
    words ["head", "-c"] ++ [argument 0] ++ words ["--"] ++ [path 1]
  | readBlocks _ _ =>
    words ["dd", "bs=1"] ++
      [joined "count=" 0 "" false, joined "if=" 1 "" true] ++ toNull "2"
  | listLong _ => words ["LC_ALL=C", "ls", "-la", "-n", "--"] ++ [path 0]
  | listEntry _ => words ["LC_ALL=C", "ls", "-lad", "-n", "--"] ++ [path 0]
  | scpFinalizeReplace _ _ original =>
    finalizeIntended (ownerOf original).isSome (modeOf original).isSome
  | writeText _ _ original =>
    words ["umask", "077"] ++ [op ";"] ++ words ["cat"] ++
      [op ">", path 0, op "&&"] ++
      finalizeIntended (ownerOf original).isSome (modeOf original).isSome
  | remoteSameEndpointCopy _ _ isDirectory => copyIntended isDirectory

variable (command : RemoteCommand)

/-- The intended tokens with the arguments in their slots. -/
def meant : List (Token Char × Bool) :=
  command.intended.map fun marked => (marked.1.fill command.slot, marked.2)

/-- The path that `find` gets, without anything before it. -/
def findOperand : RemoteCommand → Option Str
  | countRemoteFiles path => some path
  | readLink path => some path
  | listDir path => some (remoteDirListingPath path)
  | _ => none

/-- The shell reads the intended tokens, and none of the paths is an option. -/
def Exact : Prop :=
  tokens command.text = some (command.meant.map Prod.fst) ∧
    takesOption .start command.meant = false

/-! ## Every command -/

theorem text_eq_render :
    command.text = render command.slot command.template := by
  apply flatMap_congr
  intro piece _
  cases piece with
  | text fixed => rfl
  | quoted slot => exact shQuote_eq _
  | number slot => rfl

theorem finalizeTemplate_tokens (hasOwner hasMode : Bool) :
    templateTokens (finalizeTemplate hasOwner hasMode) =
      some ((finalizeIntended hasOwner hasMode).map Prod.fst) := by
  revert hasOwner hasMode
  decide +kernel

/-- The tokens of a template do not depend on the arguments. -/
theorem template_tokens :
    templateTokens command.template =
      some (command.intended.map Prod.fst) := by
  cases command with
  | scpFinalizeReplace tmpPath targetPath original =>
    exact finalizeTemplate_tokens _ _
  | writeText tmpPath targetPath original =>
    simp only [template, intended]
    generalize (ownerOf original).isSome = hasOwner
    generalize (modeOf original).isSome = hasMode
    revert hasOwner hasMode
    decide +kernel
  | update changed recursive value path =>
    simp only [template, intended]
    cases changed <;> cases recursive <;> decide +kernel
  | remoteSameEndpointCopy sourcePath targetPath isDirectory =>
    simp only [template, intended]
    cases isDirectory <;> decide +kernel
  | _ =>
    simp only [template, intended]
    decide +kernel

theorem formatOctal_digits (value : Nat) : formatOctal value ≠ [] ∧
    ∀ d ∈ formatOctal value, isAsciiDigit d = true := by
  refine ⟨cons_ne_nil _ _, ?_⟩
  intro d hd
  obtain ⟨digit, hdigit, rfl⟩ := mem_map.mp hd
  have hlt : digit < 10 := by
    simp only [mem_cons, not_mem_nil, or_false] at hdigit
    omega
  exact (digitChar_spec hlt).1

theorem numbersFit :
    NumbersFit command.slot command.template := by
  intro slot hslot
  cases command with
  | chmodNumber permissions path =>
    simp [template, fixed] at hslot
    subst hslot
    exact formatOctal_digits permissions
  | readHead bytes path =>
    simp [template, fixed] at hslot
    subst hslot
    exact ⟨decimal_ne_nil bytes, isAsciiDigit_of_mem_decimal bytes⟩
  | readBlocks bytes path =>
    simp [template, fixed] at hslot
    subst hslot
    exact ⟨decimal_ne_nil bytes, isAsciiDigit_of_mem_decimal bytes⟩
  | scpFinalizeReplace tmpPath targetPath original =>
    simp [template, finalizeTemplate, changeTemplate, fixed] at hslot
  | writeText tmpPath targetPath original =>
    simp [template, finalizeTemplate, changeTemplate, fixed] at hslot
  | remoteSameEndpointCopy sourcePath targetPath isDirectory =>
    cases isDirectory <;>
      simp [template, copyTemplate, preflight, script, fixed] at hslot
  | chmod mode path => simp [template, changeTemplate, fixed] at hslot
  | _ => simp [template, fixed] at hslot

/-- Each quoted argument comes back as its word. -/
theorem tokens_text :
    tokens command.text = some (command.meant.map Prod.fst) := by
  rw [text_eq_render, tokens_render command.numbersFit command.template_tokens,
    meant, map_map, map_map]
  rfl

/-! ## The options -/

theorem change_options {utility : String} (rest : List Marked)
    (h : utility = "chmod" ∨ utility = "chown" ∨ utility = "chgrp")
    (arguments : Nat → Str) (value slot : Nat) :
    takesOption .start ((changeIntended utility value slot ++ rest).map
        fun marked => (marked.1.fill arguments, marked.2)) =
      takesOption ⟨.arguments utility.toList true, false⟩
        (rest.map fun marked => (marked.1.fill arguments, marked.2)) := by
  rcases h with rfl | rfl | rfl
  all_goals
    simp only [changeIntended, words, path, argument, map_cons, map_nil,
      cons_append, nil_append, String.reduceToList, Token.fill, fill,
      flatMap_cons, flatMap_nil, fillSymbol, append_nil]
    exact takesOption_dashes (by decide) false _ _

/-- A `chown` or `chmod` before `&&` leaves the rest a command of its own. -/
theorem before_options {utility : String} (changed : Bool) (rest : List Marked)
    (h : utility = "chmod" ∨ utility = "chown" ∨ utility = "chgrp")
    (arguments : Nat → Str) (value slot : Nat) :
    takesOption .start
        (((if changed then changeIntended utility value slot ++ [op "&&"]
            else []) ++ rest).map
          fun marked => (marked.1.fill arguments, marked.2)) =
      takesOption .start
        (rest.map fun marked => (marked.1.fill arguments, marked.2)) := by
  cases changed with
  | false => rw [if_neg Bool.false_ne_true, nil_append]
  | true =>
    rw [if_pos rfl, append_assoc, change_options _ h]
    rfl

theorem finalize_options (arguments : Nat → Str) (hasOwner hasMode : Bool) :
    takesOption .start ((finalizeIntended hasOwner hasMode).map
        fun marked => (marked.1.fill arguments, marked.2)) = false := by
  rw [finalizeIntended, append_assoc, append_assoc, before_options hasOwner _
    (.inr (.inl rfl)), before_options hasMode _ (.inl rfl)]
  rfl

theorem update_options (changed : RemoteAttribute) (recursive : Bool)
    (value path : Str) :
    takesOption .start (update changed recursive value path).meant =
      false := by
  cases changed <;> cases recursive
  all_goals
    simp only [meant, intended, words, NiceTerm.Sftp.Commands.path, argument,
      RemoteAttribute.utility, map_cons, map_nil, cons_append,
      nil_append, String.reduceToList, Token.fill, fill,
      flatMap_cons, flatMap_nil, fillSymbol, append_nil,
      if_true, Bool.false_eq_true, if_false]
    exact takesOption_dashes (by decide) false _ _

theorem find_options {command : RemoteCommand} {front : List String}
    {rest : List Marked} (hfront : front = [] ∨ front = ["LC_ALL=C"])
    (h : command.intended = words (front ++ ["find"]) ++ path 0 :: rest)
    (hrest : ∀ m ∈ rest, m.2 = false) :
    takesOption .start command.meant = isDashed (command.slot 0) := by
  have hfilled : ∀ m ∈ rest.map fun marked =>
      (marked.1.fill command.slot, marked.2), m.2 = false := by
    intro m hm
    obtain ⟨marked, hmarked, rfl⟩ := mem_map.mp hm
    exact hrest marked hmarked
  rw [meant, h]
  rcases hfront with rfl | rfl
  all_goals
    simp only [words, NiceTerm.Sftp.Commands.path, nil_append, map_cons,
      map_nil, cons_append, String.reduceToList, Token.fill, fill,
      flatMap_cons, flatMap_nil, fillSymbol, append_nil]
    exact takesOption_find _ hfilled

/-- `find` alone gets its path in a place where it may be an option. -/
theorem command_options :
    takesOption .start command.meant = command.findOperand.any isDashed := by
  cases command with
  | countRemoteFiles path => exact find_options (.inl rfl) rfl (by decide)
  | readLink path => exact find_options (.inr rfl) rfl (by decide)
  | listDir path => exact find_options (.inr rfl) rfl (by decide)
  | chmod mode path => exact change_options [] (.inl rfl) _ 0 1
  | chmodNumber permissions path => exact change_options [] (.inl rfl) _ 0 1
  | readHead bytes path =>
    simp only [meant, intended, words, NiceTerm.Sftp.Commands.path, argument,
      map_cons, map_nil, cons_append, nil_append, String.reduceToList,
      Token.fill, fill, flatMap_cons, flatMap_nil, fillSymbol]
    exact takesOption_dashes (by decide) false _ _
  | update changed recursive value path => exact update_options _ _ _ _
  | scpFinalizeReplace tmpPath targetPath original =>
    exact finalize_options _ _ _
  | writeText tmpPath targetPath original =>
    exact finalize_options _ _ _
  | remoteSameEndpointCopy sourcePath targetPath isDirectory =>
    cases isDirectory <;> rfl
  | _ => rfl

/-- The text is read as it is meant for all paths; only the operand of `find`
can be taken as an option, when it starts with a dash. -/
theorem command_exact_iff (command : RemoteCommand) :
    command.Exact ↔ ∀ path, command.findOperand = some path →
      isDashed path = false := by
  rw [Exact, command_options]
  constructor
  · rintro ⟨_, hoption⟩ path hpath
    rw [hpath] at hoption
    exact hoption
  · intro h
    refine ⟨command.tokens_text, ?_⟩
    cases hoperand : command.findOperand with
    | none => rfl
    | some path => exact h path hoperand

/-- `find '-delete' -type f | wc -l` deletes the files. -/
theorem countRemoteFiles_delete :
    ¬ (countRemoteFiles "-delete".toList).Exact := by
  rintro ⟨_, hoption⟩
  exact absurd hoption (by decide +kernel)

end RemoteCommand

end NiceTerm.Sftp.Commands
