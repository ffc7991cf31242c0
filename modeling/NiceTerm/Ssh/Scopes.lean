/-
The block that a directive belongs to ends with the file it was opened in, and
`Match` opens a block of its own.  The parser gives a directive to the last
block opened before it; where this is the same, the first value wins.
-/
import Mathlib.Data.Char
import Mathlib.Data.List.Lex
import NiceTerm.Ssh.Expansion

namespace NiceTerm.Ssh

open RustStr

/-- Where a directive stands: outside all blocks, in the block of the `Host`
line with this number, or in a `Match` block. -/
inductive Scope where
  | outside
  | block (number : Nat) (patterns : List Str)
  | conditional
deriving Repr, DecidableEq

def Scope.Applies (hostAlias : Str) : Scope → Prop
  | .outside => True
  | .block _ patterns => Pattern.Names Pattern.Matches patterns hostAlias
  | .conditional => False

instance (hostAlias : Str) : (scope : Scope) →
    Decidable (scope.Applies hostAlias)
  | .outside => isTrue trivial
  | .block _ patterns =>
    inferInstanceAs (Decidable (Pattern.Names _ patterns hostAlias))
  | .conditional => isFalse id

/-- The number of `Host` lines so far, the scope, and the scopes of the files
around. -/
structure Scoping where
  blocks : Nat := 0
  scope : Scope := .outside
  outer : List Scope := []
deriving Repr, DecidableEq

namespace Scoping

/-- A file begins in the scope of its `Include` and leaves it as it was. -/
def step (scoping : Scoping) : Event → Scoping
  | .enter => { scoping with outer := scoping.scope :: scoping.outer }
  | .leave =>
    { scoping with
      scope := scoping.outer.headD scoping.scope
      outer := scoping.outer.tail }
  | .host patterns =>
    { scoping with
      blocks := scoping.blocks + 1
      scope := .block scoping.blocks patterns }
  | .conditional => { scoping with scope := .conditional }
  | .setting _ => scoping

/-- The last `Host` line, wherever it stands. -/
def stepFlat (scoping : Scoping) : Event → Scoping
  | .host patterns =>
    { scoping with
      blocks := scoping.blocks + 1
      scope := .block scoping.blocks patterns }
  | .enter => scoping
  | .leave => scoping
  | .conditional => scoping
  | .setting _ => scoping

end Scoping

/-- The directives whose scope applies to the alias. -/
def inForce (step : Scoping → Event → Scoping) (hostAlias : Str) :
    Scoping → List Event → List Setting
  | _, [] => []
  | scoping, .setting setting :: rest =>
    if scoping.scope.Applies hostAlias then
      setting :: inForce step hostAlias scoping rest
    else inForce step hostAlias scoping rest
  | scoping, event :: rest =>
    inForce step hostAlias (step scoping event) rest

def Setting.hostName? : Setting → Option Str
  | .hostName value => some value
  | _ => none

def Setting.port? : Setting → Option Nat
  | .port value => some value
  | _ => none

def Setting.user? : Setting → Option Str
  | .user value => some value
  | _ => none

def Setting.identityFile? : Setting → Option Str
  | .identityFile value => some value
  | _ => none

def Setting.proxyJump? : Setting → Option Str
  | .proxyJump value => some value
  | _ => none

def Setting.hostKeyAlias? : Setting → Option Str
  | .hostKeyAlias value => some value
  | _ => none

open Setting

/-- Of every option the first value. -/
def firstValues (settings : List Setting) : ResolvedOptions where
  hostName := settings.findSome? hostName?
  port := settings.findSome? port?
  user := settings.findSome? user?
  identityFile := settings.findSome? identityFile?
  proxyJump := settings.findSome? proxyJump?
  hostKeyAlias := settings.findSome? hostKeyAlias?

/-- What the first-value rule gives for the alias. -/
def obtained (hostAlias : Str) (events : List Event) : ResolvedOptions :=
  firstValues (inForce Scoping.step hostAlias {} events)

variable (events : List Event)

/-- The scope behind a part of the text. -/
def scopeAfter : Scope :=
  (events.foldl Scoping.step {}).scope

def lastHostAfter : Scope :=
  (events.foldl Scoping.stepFlat {}).scope

/-- Every directive belongs to the last block opened before it. -/
def WellPlaced : Prop :=
  ∀ front setting back, events = front ++ .setting setting :: back →
    scopeAfter front = lastHostAfter front

/-- The block into which the parser puts a directive. -/
def Builder.attributed (builder : Builder) : Scope :=
  match builder.state.current with
  | none => .outside
  | some block =>
    .block (builder.hosts.length -
      (if builder.state.globalEmitted then 1 else 0)) block.patterns

theorem ResolvedOptions.or_assoc (a b c : ResolvedOptions) :
    (a.or b).or c = a.or (b.or c) := by
  simp [ResolvedOptions.or, Option.or_assoc]

variable (a : ResolvedOptions)

@[simp] theorem ResolvedOptions.or_empty :
    a.or {} = a := by
  simp [ResolvedOptions.or]

@[simp] theorem ResolvedOptions.empty_or :
    ResolvedOptions.or {} a = a := by
  simp [ResolvedOptions.or]

theorem setIfMissing_eq {α : Type} (slot : Option α) (value : α) :
    setIfMissing slot value = slot.or (some value) := by
  cases slot <;> rfl

theorem ResolvedOptions.set_eq (setting : Setting) :
    a.set setting = a.or (firstValues [setting]) := by
  cases setting <;>
    simp [ResolvedOptions.set, ResolvedOptions.or, setIfMissing_eq, firstValues,
      hostName?, port?, user?, identityFile?, proxyJump?, hostKeyAlias?]

theorem firstValues_append (front back : List Setting) :
    firstValues (front ++ back) = (firstValues front).or (firstValues back) := by
  simp [firstValues, ResolvedOptions.or, List.findSome?_append]

theorem firstValues_cons (setting : Setting) (rest : List Setting) :
    firstValues (setting :: rest) =
      (firstValues [setting]).or (firstValues rest) :=
  firstValues_append [setting] rest

theorem hasOptions_eq_false {block : SshConfigHost}
    (h : hasOptions block = false) : block.toResolvedOptions = {} := by
  obtain ⟨⟨hostName, port, user, identityFile, proxyJump, hostKeyAlias⟩, _, _⟩ :=
    block
  simp only [hasOptions, Bool.or_eq_false_iff, Option.isSome_eq_false_iff,
    Option.isNone_iff_eq_none] at h
  obtain ⟨⟨⟨⟨⟨rfl, rfl⟩, rfl⟩, rfl⟩, rfl⟩, rfl⟩ := h
  rfl

/-- The values of one block for the alias. -/
def SshConfigHost.valuesFor (host : SshConfigHost) (hostAlias : Str) :
    ResolvedOptions :=
  if patternMatches host.patterns hostAlias then host.toResolvedOptions else {}

theorem resolveOptions_eq (hosts : List SshConfigHost) (hostAlias : Str) :
    (SshConfig.mk hosts).resolveOptions hostAlias =
      (hosts.map fun host => host.valuesFor hostAlias).foldl
        ResolvedOptions.or {} := by
  rw [SshConfig.resolveOptions, List.foldl_map]
  congr 1
  funext resolved host
  rw [SshConfigHost.valuesFor]
  split <;> simp

theorem resolveOptions_concat (hosts : List SshConfigHost)
    (host : SshConfigHost) (hostAlias : Str) :
    (SshConfig.mk (hosts ++ [host])).resolveOptions hostAlias =
      ((SshConfig.mk hosts).resolveOptions hostAlias).or
        (host.valuesFor hostAlias) := by
  simp [resolveOptions_eq]

theorem star_matches (hostAlias : Str) :
    patternMatches [['*']] hostAlias = true := by
  rw [patternMatches_iff]
  refine ⟨⟨['*'], List.mem_cons_self, by decide, ?_⟩, by simp⟩
  have hstar := Pattern.Matches.star hostAlias .nil
  rwa [List.append_nil] at hstar

namespace Builder

/-- No block is open before the first `Host` line, and behind it the
directives in front of it have gone to the blocks, if there are any. -/
def Ordered (builder : Builder) : Prop :=
  match builder.state.current with
  | none => builder.hosts = [] ∧ builder.state.globalEmitted = false
  | some _ => builder.state.globalEmitted = false →
      hasOptions builder.state.global = false

/-- What would be resolved if the text ended here. -/
def resolved (builder : Builder) (hostAlias : Str) : ResolvedOptions :=
  builder.finishParse.resolveOptions hostAlias

theorem Ordered.resolved_none {builder : Builder} (h : builder.Ordered)
    (hcurrent : builder.state.current = none) (hostAlias : Str) :
    builder.resolved hostAlias = builder.state.global.toResolvedOptions := by
  rw [Ordered, hcurrent] at h
  obtain ⟨hhosts, hemitted⟩ := h
  rw [resolved, finishParse, emitGlobal, hemitted]
  by_cases hglobal : hasOptions builder.state.global = true
  · simp [hglobal, closeBlock, hcurrent, hhosts, SshConfig.resolveOptions,
      star_matches]
  · have hnone := hasOptions_eq_false (Bool.eq_false_iff.mpr hglobal)
    simp [hglobal, closeBlock, hcurrent, hhosts, SshConfig.resolveOptions,
      hnone]

variable {block : SshConfigHost}

theorem Ordered.emitGlobal_some {builder : Builder} (h : builder.Ordered)
    (hcurrent : builder.state.current = some block) :
    builder.emitGlobal = builder := by
  rw [Ordered, hcurrent] at h
  rw [emitGlobal, if_neg]
  rintro ⟨hemitted, hglobal⟩
  rw [h hemitted] at hglobal
  cases hglobal

theorem Ordered.resolved_some {builder : Builder} (h : builder.Ordered)
    (hcurrent : builder.state.current = some block) (hostAlias : Str) :
    builder.resolved hostAlias =
      ((SshConfig.mk builder.hosts).resolveOptions hostAlias).or
        (block.valuesFor hostAlias) := by
  rw [resolved, finishParse, h.emitGlobal_some hcurrent, closeBlock, hcurrent]
  exact resolveOptions_concat _ _ _

/-- The blocks that `Host` lines have opened and that are closed. -/
def closed (builder : Builder) : Nat :=
  builder.hosts.length - (if builder.state.globalEmitted then 1 else 0)

/-- The parser is at the last `Host` line. -/
structure Follows (builder : Builder) (scoping : Scoping) : Prop where
  ordered : builder.Ordered
  emitted : builder.state.globalEmitted = true → 0 < builder.hosts.length
  scope : builder.attributed = scoping.scope
  number : builder.closed +
    (if builder.state.current.isSome then 1 else 0) = scoping.blocks

theorem follows_start : Follows {} {} where
  ordered := ⟨rfl, rfl⟩
  emitted := fun h => by cases h
  scope := rfl
  number := rfl

variable {builder : Builder} {scoping : Scoping}

theorem Ordered.openHost_some (h : builder.Ordered)
    (hcurrent : builder.state.current = some block) (patterns : List Str) :
    builder.openHost patterns =
      { hosts := builder.hosts ++
          [{ block with name := deriveDisplayName block.patterns }]
        state := { builder.state with current := some { patterns } } } := by
  rw [Ordered, hcurrent] at h
  have hkeep : ¬ (builder.state.globalEmitted = false ∧
      hasOptions builder.state.global = true) := by
    rintro ⟨hemitted, hglobal⟩
    rw [h hemitted] at hglobal
    cases hglobal
  rw [openHost, closeBlock, hcurrent]
  dsimp only
  rw [emitGlobal, if_neg hkeep]

theorem openHost_none (hcurrent : builder.state.current = none)
    (patterns : List Str) :
    builder.openHost patterns =
      { builder.emitGlobal with state :=
          { builder.emitGlobal.state with current := some { patterns } } } := by
  rw [openHost, closeBlock, hcurrent]

theorem Follows.openHost (h : Follows builder scoping) (patterns : List Str) :
    Follows (builder.openHost patterns)
      (scoping.stepFlat (.host patterns)) := by
  have hordered := h.ordered
  have hnumber := h.number
  cases hcurrent : builder.state.current with
  | none =>
    rw [Ordered, hcurrent] at hordered
    obtain ⟨hhosts, hemitted⟩ := hordered
    have hblocks : scoping.blocks = 0 := by
      rw [← hnumber, closed, hhosts, hcurrent, hemitted]
      rfl
    rw [openHost_none hcurrent, emitGlobal, hemitted]
    by_cases hglobal : hasOptions builder.state.global = true
    · simp only [hglobal, and_self, ↓reduceIte]
      constructor <;>
        simp [Ordered, attributed, closed, hhosts, hblocks, Scoping.stepFlat]
    · have hfalse := Bool.eq_false_iff.mpr hglobal
      simp only [hfalse, Bool.false_eq_true, and_false, ↓reduceIte]
      constructor <;>
        simp [Ordered, attributed, closed, hhosts, hblocks, hemitted,
          Scoping.stepFlat, hfalse]
  | some block =>
    have hlength := h.emitted
    rw [h.ordered.openHost_some hcurrent]
    rw [Ordered, hcurrent] at hordered
    rw [closed, hcurrent] at hnumber
    have hclosed : (builder.hosts.length + 1) -
        (if builder.state.globalEmitted then 1 else 0) = scoping.blocks := by
      rw [← hnumber]
      cases hemitted : builder.state.globalEmitted with
      | true =>
        have hpos := hlength hemitted
        simp only [↓reduceIte, Option.isSome_some]
        omega
      | false => simp
    constructor
    · exact hordered
    · intro _
      simp
    · simp [attributed, Scoping.stepFlat, hclosed]
    · simp [closed, Scoping.stepFlat, hclosed]

theorem Follows.set (h : Follows builder scoping) (setting : Setting) :
    Follows (builder.set setting) scoping := by
  have hordered := h.ordered
  have hscope := h.scope
  have hnumber := h.number
  rw [Builder.set]
  cases hcurrent : builder.state.current with
  | none =>
    rw [Ordered, hcurrent] at hordered
    rw [attributed, hcurrent] at hscope
    rw [closed, hcurrent] at hnumber
    constructor
    · simpa [Ordered, hcurrent] using hordered
    · exact h.emitted
    · simpa [attributed, hcurrent] using hscope
    · simpa [closed, hcurrent] using hnumber
  | some block =>
    rw [Ordered, hcurrent] at hordered
    rw [attributed, hcurrent] at hscope
    rw [closed, hcurrent] at hnumber
    constructor
    · exact hordered
    · exact h.emitted
    · exact hscope
    · exact hnumber

theorem Follows.apply (h : Follows builder scoping) (event : Event) :
    Follows (builder.apply event) (scoping.stepFlat event) := by
  cases event with
  | enter => exact h
  | leave => exact h
  | conditional => exact h
  | host patterns => exact h.openHost patterns
  | setting setting => exact h.set setting

theorem Follows.foldl (h : Follows builder scoping) (events : List Event) :
    Follows (events.foldl Builder.apply builder)
      (events.foldl Scoping.stepFlat scoping) := by
  induction events generalizing builder scoping with
  | nil => exact h
  | cons event rest ih => exact ih (h.apply event)

/-- A `Host` line does not change what is resolved so far. -/
theorem Follows.resolved_openHost (h : Follows builder scoping)
    (patterns : List Str) (hostAlias : Str) :
    (builder.openHost patterns).resolved hostAlias =
      builder.resolved hostAlias := by
  have hnew : ∀ block : SshConfigHost, block.toResolvedOptions = {} →
      block.valuesFor hostAlias = {} := by
    intro block hblock
    rw [SshConfigHost.valuesFor, hblock]
    split <;> rfl
  have hopened := (h.openHost patterns).ordered
  cases hcurrent : builder.state.current with
  | none =>
    have hordered := h.ordered
    rw [h.ordered.resolved_none hcurrent]
    rw [Ordered, hcurrent] at hordered
    rw [openHost_none hcurrent] at hopened ⊢
    rw [hopened.resolved_some rfl, hnew _ rfl, ResolvedOptions.or_empty,
      emitGlobal, hordered.2]
    by_cases hglobal : hasOptions builder.state.global = true
    · simp [hglobal, hordered.1, SshConfig.resolveOptions, star_matches]
    · have hnone := hasOptions_eq_false (Bool.eq_false_iff.mpr hglobal)
      simp [hglobal, hordered.1, SshConfig.resolveOptions, hnone]
  | some block =>
    rw [h.ordered.resolved_some hcurrent]
    rw [h.ordered.openHost_some hcurrent] at hopened ⊢
    rw [hopened.resolved_some rfl, hnew _ rfl, ResolvedOptions.or_empty,
      resolveOptions_concat]
    rfl

/-- A directive is resolved if the last block applies. -/
theorem Follows.resolved_set (h : Follows builder scoping) (setting : Setting)
    (hostAlias : Str) :
    (builder.set setting).resolved hostAlias = (builder.resolved hostAlias).or
        (if scoping.scope.Applies hostAlias then firstValues [setting]
          else {}) := by
  have hset := (h.set setting).ordered
  have hscope := h.scope
  cases hcurrent : builder.state.current with
  | none =>
    rw [attributed, hcurrent] at hscope
    rw [h.ordered.resolved_none hcurrent, ← hscope]
    have hstill : (builder.set setting).state.current = none := by
      simp [Builder.set, hcurrent]
    rw [hset.resolved_none hstill]
    simp [Builder.set, hcurrent, SshConfigHost.set, ResolvedOptions.set_eq,
      Scope.Applies]
  | some block =>
    rw [attributed, hcurrent] at hscope
    rw [h.ordered.resolved_some hcurrent, ← hscope]
    have hnow : (builder.set setting).state.current =
        some (block.set setting) := by
      simp [Builder.set, hcurrent]
    have hhosts : (builder.set setting).hosts = builder.hosts := by
      simp [Builder.set, hcurrent]
    rw [hset.resolved_some hnow, hhosts, ResolvedOptions.or_assoc]
    congr 1
    simp only [SshConfigHost.valuesFor, SshConfigHost.set, Scope.Applies,
      ← patternMatches_iff]
    by_cases hmatch : patternMatches block.patterns hostAlias = true
    · simp [hmatch, ResolvedOptions.set_eq]
    · simp [hmatch]

/-- What is resolved in the end are the values so far and then the directives
in force. -/
theorem Follows.resolved_foldl (h : Follows builder scoping)
    (events : List Event) (hostAlias : Str) :
    (events.foldl Builder.apply builder).resolved hostAlias =
      (builder.resolved hostAlias).or
        (firstValues (inForce Scoping.stepFlat hostAlias scoping events)) := by
  induction events generalizing builder scoping with
  | nil =>
    rw [List.foldl_nil, inForce]
    exact (ResolvedOptions.or_empty _).symm
  | cons event rest ih =>
    rw [List.foldl_cons, ih (h.apply event)]
    cases event with
    | enter => rfl
    | leave => rfl
    | conditional => rfl
    | host patterns =>
      rw [Builder.apply, h.resolved_openHost]
      rfl
    | setting setting =>
      rw [Builder.apply, h.resolved_set, ResolvedOptions.or_assoc, inForce]
      by_cases happlies : scoping.scope.Applies hostAlias
      · rw [if_pos happlies, if_pos happlies]
        exact congrArg _ (firstValues_cons setting _).symm
      · rw [if_neg happlies, if_neg happlies, ResolvedOptions.empty_or]
        rfl

end Builder

theorem build_attributed :
    (build events).attributed = lastHostAfter events :=
  (Builder.follows_start.foldl events).scope

theorem resolveOptions_build (hostAlias : Str) :
    (build events).finishParse.resolveOptions hostAlias =
      firstValues (inForce Scoping.stepFlat hostAlias {} events) := by
  have hstart : Builder.resolved {} hostAlias = {} :=
    Builder.follows_start.ordered.resolved_none rfl hostAlias
  have hall := Builder.follows_start.resolved_foldl events hostAlias
  rw [hstart, ResolvedOptions.empty_or] at hall
  exact hall

/-- Two readings of the scopes that agree at every directive have the same
directives in force. -/
theorem inForce_congr {first second : Scoping → Event → Scoping}
    {a b : Scoping} {events : List Event} (hostAlias : Str)
    (hfirst : ∀ s setting, first s (.setting setting) = s)
    (hsecond : ∀ s setting, second s (.setting setting) = s)
    (h : ∀ front setting back, events = front ++ .setting setting :: back →
      (front.foldl first a).scope = (front.foldl second b).scope) :
    inForce first hostAlias a events = inForce second hostAlias b events := by
  induction events generalizing a b with
  | nil => rfl
  | cons event rest ih =>
    have hrest := @ih (first a event) (second b event)
      fun front setting back heq =>
        h (event :: front) setting back (by rw [heq, List.cons_append])
    cases event with
    | enter => exact hrest
    | leave => exact hrest
    | host patterns => exact hrest
    | conditional => exact hrest
    | setting setting =>
      rw [hfirst, hsecond] at hrest
      have hscope : a.scope = b.scope := h [] setting rest rfl
      rw [inForce, inForce, hscope, hrest]

theorem WellPlaced.resolveOptions {events : List Event} (h : WellPlaced events)
    (hostAlias : Str) :
    (build events).finishParse.resolveOptions hostAlias =
      obtained hostAlias events := by
  rw [resolveOptions_build, obtained]
  apply congrArg firstValues
  exact inForce_congr hostAlias (fun _ _ => rfl) (fun _ _ => rfl)
    fun front setting back heq => (h front setting back heq).symm

/-- The parser loads every configuration that includes no file twice.  For all
aliases the first-value rule holds and all directives go to the blocks they
belong to exactly if every directive belongs to the last block opened before
it. -/
theorem first_values_iff_wellPlaced {fs : FileSystem} {path : Path}
    {events : List Event} {files : List Path} {fuel : Nat}
    (hexpands : fs.Expands [.file path] events files)
    (hthere : fs.canonicalize path ≠ none) (hnodup : files.Nodup)
    (hfuel : files.length < fuel) :
    fs.loadFrom fuel path = .ok (build events).finishParse ∧
      (((∀ hostAlias, (build events).finishParse.resolveOptions hostAlias =
            obtained hostAlias events) ∧
          ∀ front setting back, events = front ++ .setting setting :: back →
            (build front).attributed = scopeAfter front) ↔
        WellPlaced events) := by
  refine ⟨FileSystem.loadFrom_expansion hexpands hthere hnodup hfuel, ?_, ?_⟩
  · rintro ⟨-, hattributed⟩ front setting back heq
    rw [← build_attributed]
    exact (hattributed front setting back heq).symm
  · intro hplaced
    refine ⟨hplaced.resolveOptions, fun front setting back heq => ?_⟩
    rw [build_attributed]
    exact (hplaced front setting back heq).symm

def configText : Str := "Host a\nInclude b\nUser root\n".toList

/-- A configuration and the file it includes. -/
def sampleFiles : List (Path × Str) :=
  [("/config".toList, configText), ("/b".toList, "Host b\n".toList)]

def fileSystemOf (files : List (Path × Str)) : FileSystem where
  canonicalize := fun path => (files.lookup path).map fun _ => path
  readToString := fun path => files.lookup path
  present := fun path => (files.lookup path).isSome
  readDir := fun _ => none
  parent := fun _ => some []
  fileName := fun path => some path.tail
  join := fun front back => front ++ '/' :: back
  isAbsolute := fun path => path.head? == some '/'
  pathLe := fun a b => decide (a ≤ b)
  homeDir := none
  toLowercase := fun text => text.map Char.toLower

def sampleFileSystem : FileSystem := fileSystemOf sampleFiles

def sampleEvents : List Event :=
  [.enter, .host ["a".toList], .enter, .host ["b".toList], .leave,
    .setting (.user "root".toList), .leave]

namespace FileSystem.Expands

variable {fs : FileSystem} {items : List Item} {outer : List Event}
  {outerFiles : List Path}

theorem of_lines {path : Path} {contents : Str} {rawLines : List Str}
    {inner : List Event} {innerFiles : List Path}
    (hpath : fs.canonicalize path = some path)
    (hread : fs.readToString path = some contents)
    (hlines : lines contents = rawLines)
    (hinner : fs.Expands (rawLines.map (.line path)) inner innerFiles)
    (hitems : fs.Expands items outer outerFiles) :
    fs.Expands (.file path :: items) (.enter :: inner ++ .leave :: outer)
      (path :: innerFiles ++ outerFiles) := by
  subst hlines
  exact .file hpath hread hinner hitems

theorem of_include {configPath path : Path} {rawLine : Str} (pattern : Str)
    (hline : fs.directive rawLine = some (.includes [pattern]))
    (hpaths : fs.includedPaths configPath pattern = [path])
    (hitems : fs.Expands (.file path :: items) outer outerFiles) :
    fs.Expands (.line configPath rawLine :: items) outer outerFiles := by
  refine .includes hline ?_
  rw [List.flatMap_singleton, hpaths]
  exact hitems

end FileSystem.Expands

theorem sample_expands : sampleFileSystem.Expands [.file "/config".toList]
    sampleEvents ["/config".toList, "/b".toList] := by
  have hb : sampleFileSystem.Expands
      (["Host b".toList].map (.line "/b".toList)) [.host ["b".toList]] [] :=
    .event (by decide +kernel) .nil
  have hback : sampleFileSystem.Expands
      (["User root".toList].map (.line "/config".toList))
      [.setting (.user "root".toList)] [] :=
    .event (by decide +kernel) .nil
  have hconfig : sampleFileSystem.Expands
      (["Host a".toList, "Include b".toList, "User root".toList].map
        (.line "/config".toList))
      [.host ["a".toList], .enter, .host ["b".toList], .leave,
        .setting (.user "root".toList)] ["/b".toList] :=
    .event (by decide +kernel) (.of_include "b".toList (by decide +kernel)
      (by decide +kernel) (.of_lines rfl rfl (by decide +kernel) hb hback))
  exact .of_lines rfl rfl (by decide +kernel) hconfig .nil

/-- The user of host `a`, behind a file that begins host `b`, goes to `b`, and
the user of a `Match` block goes to the host in front of it. -/
theorem user_of_other_host :
    sampleFileSystem.loadFrom 3 "/config".toList =
        .ok (build sampleEvents).finishParse ∧
      (build sampleEvents).finishParse.resolveOptions "a".toList = {} ∧
      obtained "a".toList sampleEvents = { user := some "root".toList } ∧
      (build [.host ["a".toList], .conditional,
        .setting (.user "root".toList)]).finishParse.resolveOptions
          "a".toList = { user := some "root".toList } ∧
      obtained "a".toList [.host ["a".toList], .conditional,
        .setting (.user "root".toList)] = {} := by
  refine ⟨FileSystem.loadFrom_expansion sample_expands (by decide +kernel)
    (by decide +kernel) (by decide), ?_⟩
  decide +kernel

def Event.isSetting : Event → Bool
  | .setting _ => true
  | _ => false

theorem wellPlaced_of_all {events : List Event}
    (h : ((List.range events.length).all fun n =>
      !events[n]?.any Event.isSetting ||
        scopeAfter (events.take n) == lastHostAfter (events.take n)) = true) :
    WellPlaced events := by
  rintro front setting back rfl
  have hfront := List.all_eq_true.mp h front.length (by simp)
  simpa [Event.isSetting] using hfront

/-- A port in front of all blocks, a block that leaves one host out, and a file
included in it that ends in a block of its own. -/
def nestedFiles : List (Path × Str) :=
  [("/config".toList, ("Port 2200\nHost web* !webtest\nUser deploy\n" ++
      "Include hosts\nHost web1\nHostName 10.0.0.1\n").toList),
    ("/hosts".toList, "HostKeyAlias web\nHost db\nUser pg\n".toList)]

def nestedEvents : List Event :=
  [.enter, .setting (.port 2200), .host ["web*".toList, "!webtest".toList],
    .setting (.user "deploy".toList), .enter,
    .setting (.hostKeyAlias "web".toList), .host ["db".toList],
    .setting (.user "pg".toList), .leave, .host ["web1".toList],
    .setting (.hostName "10.0.0.1".toList), .leave]

theorem nested_expands : (fileSystemOf nestedFiles).Expands
    [.file "/config".toList] nestedEvents
    ["/config".toList, "/hosts".toList] := by
  have hhosts : (fileSystemOf nestedFiles).Expands
      (["HostKeyAlias web".toList, "Host db".toList, "User pg".toList].map
        (.line "/hosts".toList))
      [.setting (.hostKeyAlias "web".toList), .host ["db".toList],
        .setting (.user "pg".toList)] [] :=
    .event (by decide +kernel) (.event (by decide +kernel)
      (.event (by decide +kernel) .nil))
  have hback : (fileSystemOf nestedFiles).Expands
      (["Host web1".toList, "HostName 10.0.0.1".toList].map
        (.line "/config".toList))
      [.host ["web1".toList], .setting (.hostName "10.0.0.1".toList)] [] :=
    .event (by decide +kernel) (.event (by decide +kernel) .nil)
  have hconfig : (fileSystemOf nestedFiles).Expands
      (["Port 2200".toList, "Host web* !webtest".toList,
        "User deploy".toList, "Include hosts".toList, "Host web1".toList,
        "HostName 10.0.0.1".toList].map (.line "/config".toList))
      (nestedEvents.tail.dropLast) ["/hosts".toList] :=
    .event (by decide +kernel) (.event (by decide +kernel)
      (.event (by decide +kernel) (.of_include "hosts".toList
        (by decide +kernel) (by decide +kernel)
        (.of_lines rfl rfl (by decide +kernel) hhosts hback))))
  exact .of_lines rfl rfl (by decide +kernel) hconfig .nil

/-- Every host is given what the first-value rule says. -/
theorem nested_first_values :
    (fileSystemOf nestedFiles).loadFrom 3 "/config".toList =
        .ok (build nestedEvents).finishParse ∧
      (∀ hostAlias, (build nestedEvents).finishParse.resolveOptions hostAlias =
          obtained hostAlias nestedEvents) ∧
      obtained "web1".toList nestedEvents =
        { hostName := some "10.0.0.1".toList, port := some 2200
          user := some "deploy".toList, hostKeyAlias := some "web".toList } ∧
      obtained "webtest".toList nestedEvents = { port := some 2200 } := by
  obtain ⟨hload, hiff⟩ := first_values_iff_wellPlaced nested_expands
    (by decide +kernel) (by decide +kernel) (by decide : 2 < 3)
  exact ⟨hload, (hiff.mpr (wellPlaced_of_all (by decide +kernel))).1,
    by decide +kernel, by decide +kernel⟩

end NiceTerm.Ssh
