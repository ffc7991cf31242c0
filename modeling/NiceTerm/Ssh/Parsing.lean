/-
The hosts of an SSH client configuration and what is resolved for an alias: of
every option the first value in a block that matches, and the hops of its
`ProxyJump`.
-/
import NiceTerm.Lib.Fallible
import NiceTerm.Lib.Pattern
import NiceTerm.Lib.RustSplit
import NiceTerm.Snapshot.Entities

namespace NiceTerm.Ssh

open RustStr
open Snapshot (AppError)
open Fallible

structure ResolvedOptions where
  hostName : Option Str := none
  port : Option Nat := none
  user : Option Str := none
  identityFile : Option Str := none
  proxyJump : Option Str := none
  hostKeyAlias : Option Str := none
deriving Repr, DecidableEq

structure SshConfigHost extends ResolvedOptions where
  patterns : List Str := []
  name : Str := []
deriving Repr, DecidableEq

structure SshConfigHop where
  host : Str
  port : Nat
  user : Str
  isTarget : Bool
deriving Repr, DecidableEq

structure SshConfigEntry where
  hostAlias : Str
  host : Str
  port : Nat
  user : Str
  identityFile : Option Str
  proxyJump : Option Str
  hops : List SshConfigHop
  hostKeyAlias : Option Str
deriving Repr, DecidableEq

structure SshConfig where
  hosts : List SshConfigHost
deriving Repr, DecidableEq

def globMatchInner : Str → Str → Bool
  | [], t => t.isEmpty
  | p :: ps, t =>
    if p = '*' then
      (List.range (t.length + 1)).any fun i => globMatchInner ps (t.drop i)
    else if p = '?' then
      if t.isEmpty then false else globMatchInner ps t.tail
    else if t.head? ≠ some p then false
    else globMatchInner ps t.tail

def globMatch (pattern text : Str) : Bool := globMatchInner pattern text

def patternMatches (patterns : List Str) (hostAlias : Str) : Bool :=
  Pattern.scan globMatch hostAlias false patterns

/-- The values of `other` where there are none. -/
def ResolvedOptions.or (resolved other : ResolvedOptions) :
    ResolvedOptions where
  hostName := resolved.hostName.or other.hostName
  port := resolved.port.or other.port
  user := resolved.user.or other.user
  identityFile := resolved.identityFile.or other.identityFile
  proxyJump := resolved.proxyJump.or other.proxyJump
  hostKeyAlias := resolved.hostKeyAlias.or other.hostKeyAlias

variable (config : SshConfig)

def SshConfig.resolveOptions (hostAlias : Str) : ResolvedOptions :=
  config.hosts.foldl (fun resolved host =>
    if patternMatches host.patterns hostAlias then
      resolved.or host.toResolvedOptions
    else resolved) {}

def invalidHop (spec : Str) : AppError :=
  .config ("Invalid ProxyJump hop '".toList ++ spec ++ ['\''])

def invalidJumpPort (spec : Str) : AppError :=
  .config ("Invalid ProxyJump port in '".toList ++ spec ++ ['\''])

structure JumpSpec where
  user : Option Str
  host : Str
  port : Option Nat
deriving Repr, DecidableEq

def parseJumpSpec (spec : Str) : Except AppError JumpSpec := do
  let spec := trim spec
  if spec.isEmpty then
    throw (.config "ProxyJump contains an empty hop".toList)
  let (user, remaining) ←
    if spec.contains '@' then
      let front := spec.takeWhile fun c => c != '@'
      let back := (spec.dropWhile fun c => c != '@').tail
      if front.isEmpty || back.contains '@' then throw (invalidHop spec)
      else pure (some front, back)
    else pure (none, spec)
  let (port, remaining) ←
    match rsplitOnce ':' remaining with
    | some (front, portPart) =>
      match parseU16 portPart with
      | some port => pure (some port, front)
      | none => throw (invalidJumpPort spec)
    | none => pure (none, remaining)
  if remaining.isEmpty then throw (invalidHop spec)
  return { user, host := remaining, port }

/-- The hops of a `ProxyJump`; empty specifications are passed over. -/
def SshConfig.resolveHops (config : SshConfig) (username : Str) :
    List Str → Except AppError (List SshConfigHop)
  | [] => .ok []
  | jumpSpec :: rest =>
    if (trim jumpSpec).isEmpty then config.resolveHops username rest
    else do
      let spec ← parseJumpSpec (trim jumpSpec)
      let jumpResolved := config.resolveOptions spec.host
      let hop : SshConfigHop :=
        { host := jumpResolved.hostName.getD spec.host
          port := (spec.port.or jumpResolved.port).getD 22
          user := (spec.user.or jumpResolved.user).getD username
          isTarget := false }
      let hops ← config.resolveHops username rest
      return hop :: hops

def isNone (value : Str) : Bool := value.map Char.toLower = "none".toList

/-- `ProxyJump none` stands for no jump.  `username` is that of the local
user. -/
def SshConfig.resolve (username hostAlias : Str) :
    Except AppError SshConfigEntry := do
  let resolved := config.resolveOptions hostAlias
  let host := resolved.hostName.getD hostAlias
  let port := resolved.port.getD 22
  let user := resolved.user.getD username
  let proxyJump := resolved.proxyJump.filter fun value => !isNone value
  let hops ← config.resolveHops username
    (proxyJump.elim [] fun value => value.splitOn ',')
  return { hostAlias, host, port, user
           identityFile := resolved.identityFile
           proxyJump
           hops := hops ++ [{ host, port, user, isTarget := true }]
           hostKeyAlias := resolved.hostKeyAlias }

/-- A pattern that names one host. -/
def concrete (pattern : Str) : Bool :=
  !pattern.contains '*' && !pattern.contains '?' && pattern.head? != some '!'

def SshConfig.listHosts : List Str :=
  ((config.hosts.flatMap fun host => host.patterns).filter concrete).eraseDups

def SshConfig.toEntries (username : Str) :
    Except AppError (List SshConfigEntry) :=
  config.listHosts.mapM (config.resolve username)

theorem globMatch_eq_glob (pattern text : Str) :
    globMatch pattern text = Pattern.glob pattern text := by
  rw [globMatch]
  induction pattern generalizing text with
  | nil => rfl
  | cons p ps ih =>
    rw [globMatchInner, Pattern.glob]
    by_cases hstar : p = '*'
    · rw [if_pos hstar, if_pos hstar, Bool.eq_iff_iff]
      simp only [List.any_eq_true, List.mem_range, List.mem_tails, ih]
      constructor
      · rintro ⟨i, -, h⟩
        exact ⟨_, List.drop_suffix i text, h⟩
      · rintro ⟨rest, ⟨front, rfl⟩, h⟩
        refine ⟨front.length, ?_, ?_⟩
        · rw [List.length_append]
          omega
        · rwa [List.drop_left]
    · rw [if_neg hstar, if_neg hstar]
      by_cases hone : p = '?'
      · cases text with
        | nil => simp [hone]
        | cons c rest => simp [hone, ih]
      · have hone' : (p == '?') = false := beq_eq_false_iff_ne.mpr hone
        rw [if_neg hone]
        cases text with
        | nil => simp
        | cons c rest =>
          by_cases hc : c = p
          · simp [hc, ih]
          · have hc' : (p == c) = false :=
              beq_eq_false_iff_ne.mpr (Ne.symm hc)
            simp [hc, hone', hc']

theorem patternMatches_iff (patterns : List Str) (hostAlias : Str) :
    patternMatches patterns hostAlias = true ↔
      Pattern.Names Pattern.Matches patterns hostAlias := by
  apply Pattern.scan_eq_names
  intro pattern text
  rw [globMatch_eq_glob, Pattern.glob_eq_true]

/-! Reading: the lines of a file, and of the files that it includes, go one
after the other into a list of blocks. -/

abbrev Path := Str

/-- The files, the operations on paths and the lower case of keywords. -/
structure FileSystem where
  canonicalize : Path → Option Path
  readToString : Path → Option Str
  present : Path → Bool
  readDir : Path → Option (List Str)
  parent : Path → Option Path
  fileName : Path → Option Str
  join : Path → Str → Path
  isAbsolute : Path → Bool
  pathLe : Path → Path → Bool
  homeDir : Option Path
  toLowercase : Str → Str

/-- A directive that gives an option a value. -/
inductive Setting where
  | hostName (value : Str)
  | port (value : Nat)
  | user (value : Str)
  | identityFile (value : Str)
  | proxyJump (value : Str)
  | hostKeyAlias (value : Str)
deriving Repr, DecidableEq

def setIfMissing {α : Type} (slot : Option α) (value : α) : Option α :=
  if slot.isNone then some value else slot

def ResolvedOptions.set (options : ResolvedOptions) :
    Setting → ResolvedOptions
  | .hostName value =>
    { options with hostName := setIfMissing options.hostName value }
  | .port value => { options with port := setIfMissing options.port value }
  | .user value => { options with user := setIfMissing options.user value }
  | .identityFile value =>
    { options with identityFile := setIfMissing options.identityFile value }
  | .proxyJump value =>
    { options with proxyJump := setIfMissing options.proxyJump value }
  | .hostKeyAlias value =>
    { options with hostKeyAlias := setIfMissing options.hostKeyAlias value }

def SshConfigHost.set (host : SshConfigHost) (setting : Setting) :
    SshConfigHost :=
  { host with toResolvedOptions := host.toResolvedOptions.set setting }

def hasOptions (block : SshConfigHost) : Bool :=
  block.hostName.isSome || block.port.isSome || block.user.isSome ||
    block.identityFile.isSome || block.proxyJump.isSome ||
    block.hostKeyAlias.isSome

def deriveDisplayName (patterns : List Str) : Str :=
  match patterns.find? concrete with
  | some pattern => pattern
  | none =>
    [' '].intercalate (patterns.filter fun pattern =>
      pattern.head? != some '!')

structure ParseState where
  current : Option SshConfigHost := none
  global : SshConfigHost := {}
  globalEmitted : Bool := false
deriving Repr, DecidableEq

/-- The blocks so far and what is open. -/
structure Builder where
  hosts : List SshConfigHost := []
  state : ParseState := {}
deriving Repr, DecidableEq

namespace Builder

variable (builder : Builder)

/-- The open block goes to the others. -/
def closeBlock : Builder :=
  match builder.state.current with
  | some block =>
    { hosts := builder.hosts ++
        [{ block with name := deriveDisplayName block.patterns }]
      state := { builder.state with current := none } }
  | none => builder

/-- Directives in front of all blocks go to the others as a block that matches
everything. -/
def emitGlobal : Builder :=
  if builder.state.globalEmitted = false ∧
      hasOptions builder.state.global = true then
    { hosts := builder.hosts ++ [{ builder.state.global with
            patterns := [['*']], name := ['*'] }]
      state := { builder.state with globalEmitted := true } }
  else builder

def openHost (patterns : List Str) : Builder :=
  let emitted := builder.closeBlock.emitGlobal
  { emitted with state :=
      { emitted.state with current := some { patterns } } }

def set (builder : Builder) (setting : Setting) : Builder :=
  match builder.state.current with
  | some block =>
    { builder with state :=
        { builder.state with current := some (block.set setting) } }
  | none =>
    { builder with state :=
        { builder.state with global := builder.state.global.set setting } }

def finishParse : SshConfig where
  hosts := builder.emitGlobal.closeBlock.hosts

end Builder

structure Parsing extends Builder where
  visited : List Path := []
deriving Repr, DecidableEq

def splitKv (line : Str) : Option (Str × Str) :=
  match line.dropWhile fun c => !isWhitespace c with
  | [] => none
  | _ :: rest =>
    let keyword := trim (line.takeWhile fun c => !isWhitespace c)
    let value := trim rest
    if keyword.isEmpty || value.isEmpty then none else some (keyword, value)

namespace FileSystem

variable (fs : FileSystem)

def expandTilde (path : Str) : Str :=
  match path.dropPrefix? "~/".toList with
  | some rest => (fs.homeDir.map fun home => fs.join home rest).getD path
  | none => if path = ['~'] then fs.homeDir.getD path else path

def globPaths (pattern : Path) : List Path :=
  if !pattern.contains '*' && !pattern.contains '?' then
    if fs.present pattern then [pattern] else []
  else
    match fs.parent pattern, fs.fileName pattern with
    | some parent, some fileName =>
      let names := ((fs.readDir parent).getD []).filter (globMatch fileName)
      (names.map (fs.join parent)).mergeSort fs.pathLe
    | _, _ => []

/-- The files of one pattern of an `Include` in a file. -/
def includedPaths (configPath : Path) (pattern : Str) : List Path :=
  let baseDir := (fs.parent configPath).getD ['.']
  let expanded := fs.expandTilde pattern
  fs.globPaths
    (if fs.isAbsolute expanded then expanded else fs.join baseDir expanded)

def invalidPort (value : Str) (configPath : Path) : AppError :=
  .config ("Invalid Port '".toList ++ value ++ "' in ".toList ++ configPath)

def notFound (path : Path) : AppError :=
  .config ("SSH config file not found or cannot be accessed at ".toList ++ path)

def cannotRead (path : Path) : AppError :=
  .config ("cannot read ".toList ++ path)

/-- More files have been nested than there was fuel for. -/
def outOfFuel : AppError := .config []

/-- One line of `parse_string_into`. -/
def parseLine (parseIncluded : Path → Parsing → Except AppError Parsing)
    (configPath : Path) (parsing : Parsing) (rawLine : Str) :
    Except AppError Parsing :=
  let set setting : Except AppError Parsing :=
    .ok { parsing with toBuilder := parsing.toBuilder.set setting }
  let line := trim rawLine
  if line.isEmpty || line.head? == some '#' then .ok parsing
  else
    match splitKv line with
    | none => .ok parsing
    | some (keyword, value) =>
      let keyword := fs.toLowercase keyword
      if keyword = "host".toList then
        .ok { parsing with toBuilder :=
                parsing.toBuilder.openHost (splitWhitespace value) }
      else if keyword = "hostname".toList then set (.hostName value)
      else if keyword = "port".toList then
        match parseU16 value with
        | some port => set (.port port)
        | none => .error (invalidPort value configPath)
      else if keyword = "user".toList then set (.user value)
      else if keyword = "identityfile".toList then
        set (.identityFile (fs.expandTilde value))
      else if keyword = "proxyjump".toList then set (.proxyJump value)
      else if keyword = "hostkeyalias".toList then set (.hostKeyAlias value)
      else if keyword = "include".toList then
        (splitWhitespace value).foldlM (fun parsing pattern =>
          (fs.includedPaths configPath pattern).foldlM (fun parsing matched =>
            parseIncluded matched parsing) parsing) parsing
      else .ok parsing

/-- A file that has been visited is passed over. -/
def parseFile : Nat → Path → Bool → Parsing → Except AppError Parsing
  | 0, _, _, _ => .error outOfFuel
  | fuel + 1, path, required, parsing =>
    match fs.canonicalize path with
    | none => if required then .error (notFound path) else .ok parsing
    | some canonical =>
      if canonical ∈ parsing.visited then .ok parsing
      else
        match fs.readToString canonical with
        | none => .error (cannotRead canonical)
        | some contents =>
          (lines contents).foldlM
            (fs.parseLine (fun matched => parseFile fuel matched false)
              canonical)
            { parsing with visited := canonical :: parsing.visited }

/-- `SshConfig::load_from`, for nestings of at most `fuel` files. -/
def loadFrom (fuel : Nat) (path : Path) : Except AppError SshConfig :=
  (fs.parseFile fuel path true {}).map fun parsing =>
    parsing.toBuilder.finishParse

end FileSystem

/-! The patterns of a configuration that was read are words: there is no white
space in them. -/

def Word (text : Str) : Prop := ∀ c ∈ text, isWhitespace c = false

def SshConfigHost.Words (host : SshConfigHost) : Prop :=
  ∀ pattern ∈ host.patterns, Word pattern

def SshConfig.Words (config : SshConfig) : Prop :=
  ∀ host ∈ config.hosts, host.Words

theorem word_of_mem_splitWhitespace {text word : Str}
    (h : word ∈ splitWhitespace text) : Word word :=
  eq_false_of_mem_splitOnP (List.mem_filter.mp h).1

theorem SshConfig.words_of_all {config : SshConfig}
    (h : (config.hosts.all fun host => host.patterns.all fun pattern =>
      pattern.all fun c => !isWhitespace c) = true) : config.Words := by
  intro host hhost pattern hpattern c hc
  have hpatterns := List.all_eq_true.mp h host hhost
  have hchars := List.all_eq_true.mp hpatterns pattern hpattern
  simpa using List.all_eq_true.mp hchars c hc

/-- An alias that is listed is one of the patterns. -/
theorem SshConfig.Words.listHosts {config : SshConfig} (h : config.Words)
    {hostAlias : Str} (hlisted : hostAlias ∈ config.listHosts) :
    Word hostAlias := by
  rw [SshConfig.listHosts, List.mem_eraseDups, List.mem_filter,
    List.mem_flatMap] at hlisted
  obtain ⟨⟨host, hhost, hpattern⟩, -⟩ := hlisted
  exact h host hhost hostAlias hpattern

end NiceTerm.Ssh
