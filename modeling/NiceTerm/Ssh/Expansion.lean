/-
The text of a configuration with every `Include` replaced by the files it
names.  Reading the files is running over that text.
-/
import NiceTerm.Ssh.Parsing

namespace NiceTerm.Ssh

open Fallible
open RustStr
open Snapshot (AppError)

/-- What the text is made of. -/
inductive Event where
  | enter
  | leave
  | host (patterns : List Str)
  | conditional
  | setting (setting : Setting)
deriving Repr, DecidableEq

/-- What a line says. -/
inductive Directive where
  | nothing
  | event (event : Event)
  | includes (patterns : List Str)
deriving Repr, DecidableEq

/-- The patterns of a `Host` line are words. -/
def Directive.Words : Directive → Prop
  | .event (.host patterns) => ∀ pattern ∈ patterns, Word pattern
  | _ => True

namespace FileSystem

variable (fs : FileSystem)

/-- A port has to be a number. -/
def directive (rawLine : Str) : Option Directive :=
  let line := trim rawLine
  if line.isEmpty || line.head? == some '#' then some .nothing
  else
    match splitKv line with
    | none => some .nothing
    | some (keyword, value) =>
      let keyword := fs.toLowercase keyword
      if keyword = "host".toList then
        some (.event (.host (splitWhitespace value)))
      else if keyword = "hostname".toList then
        some (.event (.setting (.hostName value)))
      else if keyword = "port".toList then
        (parseU16 value).map fun port => .event (.setting (.port port))
      else if keyword = "user".toList then
        some (.event (.setting (.user value)))
      else if keyword = "identityfile".toList then
        some (.event (.setting (.identityFile (fs.expandTilde value))))
      else if keyword = "proxyjump".toList then
        some (.event (.setting (.proxyJump value)))
      else if keyword = "hostkeyalias".toList then
        some (.event (.setting (.hostKeyAlias value)))
      else if keyword = "include".toList then
        some (.includes (splitWhitespace value))
      else if keyword = "match".toList then some (.event .conditional)
      else some .nothing

/-- A line of a file, or a file that is included. -/
inductive Item where
  | line (configPath : Path) (rawLine : Str)
  | file (path : Path)
deriving Repr, DecidableEq

/-- The text of a list of lines and files, and the files in it.  A file that
is not there has no text. -/
inductive Expands : List Item → List Event → List Path → Prop
  | nil : Expands [] [] []
  | nothing {configPath : Path} {rawLine : Str} {items : List Item}
      {events : List Event} {files : List Path}
      (hline : fs.directive rawLine = some .nothing)
      (hitems : Expands items events files) :
      Expands (.line configPath rawLine :: items) events files
  | event {configPath : Path} {rawLine : Str} {items : List Item}
      {event : Event} {events : List Event} {files : List Path}
      (hline : fs.directive rawLine = some (.event event))
      (hitems : Expands items events files) :
      Expands (.line configPath rawLine :: items) (event :: events) files
  | includes {configPath : Path} {rawLine : Str} {patterns : List Str}
      {items : List Item} {events : List Event} {files : List Path}
      (hline : fs.directive rawLine = some (.includes patterns))
      (hitems : Expands
        (((patterns.flatMap (fs.includedPaths configPath)).map .file) ++ items)
        events files) :
      Expands (.line configPath rawLine :: items) events files
  | missing {path : Path} {items : List Item} {events : List Event}
      {files : List Path} (hpath : fs.canonicalize path = none)
      (hitems : Expands items events files) :
      Expands (.file path :: items) events files
  | file {path canonical : Path} {contents : Str} {items : List Item}
      {inner outer : List Event} {innerFiles outerFiles : List Path}
      (hpath : fs.canonicalize path = some canonical)
      (hread : fs.readToString canonical = some contents)
      (hinner : Expands ((lines contents).map (.line canonical)) inner
        innerFiles)
      (hitems : Expands items outer outerFiles) :
      Expands (.file path :: items) (.enter :: inner ++ .leave :: outer)
        (canonical :: innerFiles ++ outerFiles)

end FileSystem

/-- What the parser does at an event: it does not notice where files begin and
end, nor `Match`. -/
def Builder.apply (builder : Builder) : Event → Builder
  | .host patterns => builder.openHost patterns
  | .setting setting => builder.set setting
  | .enter => builder
  | .leave => builder
  | .conditional => builder

def build (events : List Event) : Builder := events.foldl Builder.apply {}

namespace FileSystem

open List Option

variable {fs : FileSystem}

/-- What the parser does with a line or a file. -/
def parseItem (fs : FileSystem) (fuel : Nat) (parsing : Parsing) :
    Item → Except AppError Parsing
  | .line configPath rawLine =>
    fs.parseLine (fun matched => fs.parseFile fuel matched false) configPath
      parsing rawLine
  | .file path => fs.parseFile fuel path false parsing

/-- What the parser does with what a line says. -/
def parseDirective (fs : FileSystem)
    (parseIncluded : Path → Parsing → Except AppError Parsing)
    (configPath : Path) (parsing : Parsing) :
    Directive → Except AppError Parsing
  | .nothing => .ok parsing
  | .event event =>
    .ok { parsing with toBuilder := parsing.toBuilder.apply event }
  | .includes patterns =>
    (patterns.flatMap (fs.includedPaths configPath)).foldlM
      (fun parsing matched => parseIncluded matched parsing) parsing

theorem parseLine_cases
    (parseIncluded : Path → Parsing → Except AppError Parsing)
    (configPath : Path) (parsing : Parsing) (rawLine : Str) :
    (fs.directive rawLine = none ∧ ∃ error, fs.parseLine parseIncluded
        configPath parsing rawLine = .error error) ∨
      ∃ directive, fs.directive rawLine = some directive ∧
        directive.Words ∧
        fs.parseLine parseIncluded configPath parsing rawLine =
          fs.parseDirective parseIncluded configPath parsing directive := by
  rw [FileSystem.directive, parseLine]
  by_cases hblank :
      ((trim rawLine).isEmpty || (trim rawLine).head? == some '#') = true
  · exact .inr ⟨_, if_pos hblank, trivial, if_pos hblank⟩
  · rw [if_neg hblank, if_neg hblank]
    cases hkv : splitKv (trim rawLine) with
    | none => exact .inr ⟨_, rfl, trivial, rfl⟩
    | some pair =>
      obtain ⟨keyword, value⟩ := pair
      dsimp only
      generalize fs.toLowercase keyword = key
      -- Keyword by keyword, as both go through them in the same order.
      by_cases hhost : key = "host".toList
      · exact .inr ⟨_, if_pos hhost,
          fun _ hmem => word_of_mem_splitWhitespace hmem, if_pos hhost⟩
      rw [if_neg hhost, if_neg hhost]
      by_cases hhostname : key = "hostname".toList
      · exact .inr ⟨_, if_pos hhostname, trivial, if_pos hhostname⟩
      rw [if_neg hhostname, if_neg hhostname]
      by_cases hport : key = "port".toList
      · rw [if_pos hport, if_pos hport]
        cases hvalue : parseU16 value with
        | none => exact .inl ⟨rfl, _, rfl⟩
        | some port => exact .inr ⟨_, rfl, trivial, rfl⟩
      rw [if_neg hport, if_neg hport]
      by_cases huser : key = "user".toList
      · exact .inr ⟨_, if_pos huser, trivial, if_pos huser⟩
      rw [if_neg huser, if_neg huser]
      by_cases hidentity : key = "identityfile".toList
      · exact .inr ⟨_, if_pos hidentity, trivial, if_pos hidentity⟩
      rw [if_neg hidentity, if_neg hidentity]
      by_cases hjump : key = "proxyjump".toList
      · exact .inr ⟨_, if_pos hjump, trivial, if_pos hjump⟩
      rw [if_neg hjump, if_neg hjump]
      by_cases hkeyAlias : key = "hostkeyalias".toList
      · exact .inr ⟨_, if_pos hkeyAlias, trivial, if_pos hkeyAlias⟩
      rw [if_neg hkeyAlias, if_neg hkeyAlias]
      by_cases hinclude : key = "include".toList
      · exact .inr ⟨_, if_pos hinclude, trivial,
          (if_pos hinclude).trans (Folding.foldlM_flatMap _ _ _ _).symm⟩
      rw [if_neg hinclude, if_neg hinclude]
      by_cases hmatch : key = "match".toList
      · exact .inr ⟨_, if_pos hmatch, trivial, rfl⟩
      · exact .inr ⟨_, if_neg hmatch, trivial, rfl⟩

theorem parseLine_eq {rawLine : Str} {directive : Directive}
    (h : fs.directive rawLine = some directive)
    (parseIncluded : Path → Parsing → Except AppError Parsing)
    (configPath : Path) (parsing : Parsing) :
    fs.parseLine parseIncluded configPath parsing rawLine =
      fs.parseDirective parseIncluded configPath parsing directive := by
  rcases parseLine_cases parseIncluded configPath parsing rawLine with
    ⟨hnone, -⟩ | ⟨other, hother, -, heq⟩
  · rw [h] at hnone
    cases hnone
  · obtain rfl := some.inj (h.symm.trans hother)
    exact heq

/-- Reading a text that expands, with enough fuel for its files and none of
them visited before, is running over the expansion. -/
theorem parse_expansion {items : List Item} {events : List Event}
    {files : List Path} (h : fs.Expands items events files)
    (hnodup : files.Nodup) (fuel : Nat) (hfuel : files.length < fuel)
    (parsing : Parsing) (hnew : ∀ path ∈ files, path ∉ parsing.visited) :
    items.foldlM (fs.parseItem fuel) parsing =
      .ok { toBuilder := events.foldl Builder.apply parsing.toBuilder
            visited := files.reverse ++ parsing.visited } := by
  induction h generalizing fuel parsing with
  | nil => rfl
  | nothing hline _ ih =>
    rw [foldlM_cons, parseItem, parseLine_eq hline]
    exact ih hnodup fuel hfuel parsing hnew
  | event hline _ ih =>
    rw [foldlM_cons, parseItem, parseLine_eq hline]
    exact ih hnodup fuel hfuel _ hnew
  | includes hline _ ih =>
    have hparsed := ih hnodup fuel hfuel parsing hnew
    rw [foldlM_append, foldlM_map] at hparsed
    rw [foldlM_cons, parseItem, parseLine_eq hline]
    exact hparsed
  | missing hpath _ ih =>
    obtain ⟨less, rfl⟩ := Nat.exists_eq_add_one_of_ne_zero
      (Nat.ne_zero_of_lt hfuel)
    rw [foldlM_cons, parseItem, parseFile, hpath]
    exact ih hnodup _ hfuel parsing hnew
  | @file path canonical contents items inner outer innerFiles outerFiles
      hpath hread _ _ ihInner ihOuter =>
      rw [cons_append, nodup_cons, mem_append, not_or, nodup_append] at hnodup
      obtain ⟨⟨hnotInner, hnotOuter⟩, hinnerNodup, houterNodup, hdisjoint⟩ :=
        hnodup
      obtain ⟨less, rfl⟩ := Nat.exists_eq_add_one_of_ne_zero
        (Nat.ne_zero_of_lt hfuel)
      simp only [length_cons, length_append] at hfuel
      have hvisited : canonical ∉ parsing.visited :=
        hnew canonical (by simp)
      have hinner := ihInner hinnerNodup less (by omega)
        { parsing with visited := canonical :: parsing.visited } (by
          intro path hmem hold
          rcases mem_cons.mp hold with rfl | hold
          · exact hnotInner hmem
          · exact hnew path (by simp [hmem]) hold)
      rw [foldlM_map] at hinner
      have hfile : fs.parseFile (less + 1) path false parsing = .ok
          { toBuilder := inner.foldl Builder.apply parsing.toBuilder
            visited := innerFiles.reverse ++ canonical :: parsing.visited } := by
        rw [parseFile, hpath]
        dsimp only
        rw [if_neg hvisited, hread]
        exact hinner
      have houter := ihOuter houterNodup (less + 1) (by omega)
        { toBuilder := inner.foldl Builder.apply parsing.toBuilder
          visited := innerFiles.reverse ++ canonical :: parsing.visited } (by
          intro path hmem hold
          rcases mem_append.mp hold with hold | hold
          · exact hdisjoint path (mem_reverse.mp hold) path hmem rfl
          · rcases mem_cons.mp hold with rfl | hold
            · exact hnotOuter hmem
            · exact hnew path (by simp [hmem]) hold)
      rw [foldlM_cons, parseItem, hfile, ok_bind]
      rw [houter]
      simp [Builder.apply]

/-- Loading a configuration in which no file is included twice. -/
theorem loadFrom_expansion {path : Path} {events : List Event}
    {files : List Path} (h : fs.Expands [.file path] events files)
    (hthere : fs.canonicalize path ≠ none) (hnodup : files.Nodup)
    {fuel : Nat} (hfuel : files.length < fuel) :
    fs.loadFrom fuel path = .ok (build events).finishParse := by
  have hparsed := parse_expansion h hnodup fuel hfuel {} (by simp)
  rw [foldlM_cons, parseItem] at hparsed
  have hrequired : fs.parseFile fuel path true {} =
      fs.parseFile fuel path false {} := by
    obtain ⟨less, rfl⟩ := Nat.exists_eq_add_one_of_ne_zero
      (Nat.ne_zero_of_lt hfuel)
    obtain ⟨canonical, hcanonical⟩ := ne_none_iff_exists'.mp hthere
    rw [parseFile, parseFile, hcanonical]
  cases hfile : fs.parseFile fuel path false {} with
  | error error =>
    rw [hfile] at hparsed
    cases hparsed
  | ok parsing =>
    rw [hfile, ok_bind, foldlM_nil] at hparsed
    obtain rfl := Except.ok.inj hparsed
    rw [loadFrom, hrequired, hfile]
    rfl

end FileSystem

/-! What is loaded has words for patterns. -/

/-- The blocks, the open one too. -/
structure Builder.Words (builder : Builder) : Prop where
  hosts : ∀ host ∈ builder.hosts, host.Words
  current : ∀ block, builder.state.current = some block → block.Words

namespace Builder.Words

variable {builder : Builder}

theorem closeBlock (h : builder.Words) : builder.closeBlock.Words := by
  rw [Builder.closeBlock]
  cases hcurrent : builder.state.current with
  | none => exact h
  | some block =>
    refine ⟨fun host hmem => ?_, fun _ hnone => by cases hnone⟩
    rcases List.mem_append.mp hmem with hold | hnew
    · exact h.hosts host hold
    · rw [List.mem_singleton.mp hnew]
      exact h.current block hcurrent

theorem emitGlobal (h : builder.Words) : builder.emitGlobal.Words := by
  rw [Builder.emitGlobal]
  split
  · refine ⟨fun host hmem => ?_, h.current⟩
    rcases List.mem_append.mp hmem with hold | hnew
    · exact h.hosts host hold
    · rw [List.mem_singleton.mp hnew]
      intro pattern hpattern c hc
      rw [List.mem_singleton.mp hpattern, List.mem_singleton] at hc
      rw [hc]
      decide
  · exact h

theorem apply (h : builder.Words) {event : Event}
    (hevent : (Directive.event event).Words) : (builder.apply event).Words := by
  cases event with
  | host patterns =>
    refine ⟨h.closeBlock.emitGlobal.hosts, fun block hblock => ?_⟩
    cases hblock
    exact hevent
  | setting setting =>
    rw [Builder.apply, Builder.set]
    cases hcurrent : builder.state.current with
    | none => exact ⟨h.hosts, fun block hblock => h.current block hblock⟩
    | some block =>
      refine ⟨h.hosts, fun other hother => ?_⟩
      cases hother
      exact h.current block hcurrent
  | _ => exact h

end Builder.Words

namespace FileSystem

variable {fs : FileSystem}

theorem parseFile_words (fuel : Nat) {path : Path} {required : Bool}
    {parsing parsing' : Parsing} (hwords : parsing.toBuilder.Words)
    (h : fs.parseFile fuel path required parsing = .ok parsing') :
    parsing'.toBuilder.Words := by
  induction fuel generalizing path required parsing parsing' with
  | zero => contradiction
  | succ fuel ih =>
    rw [parseFile] at h
    split at h
    · split at h
      · contradiction
      · cases h
        exact hwords
    split at h
    · cases h
      exact hwords
    split at h
    · contradiction
    refine foldlM_invariant (P := fun parsing => parsing.toBuilder.Words) ?_
      ⟨hwords.hosts, hwords.current⟩ h
    intro before after rawLine hbefore hline
    rcases parseLine_cases (fun matched => fs.parseFile fuel matched false)
      _ before rawLine with ⟨-, error, herror⟩ | ⟨directive, -, hd, heq⟩
    · rw [herror] at hline
      contradiction
    rw [heq] at hline
    cases directive with
    | nothing =>
      cases hline
      exact hbefore
    | event event =>
      cases hline
      exact hbefore.apply hd
    | includes patterns =>
      exact foldlM_invariant (P := fun parsing => parsing.toBuilder.Words)
        (fun _ _ _ hold hnew => ih hold hnew) hbefore hline

theorem loadFrom_words {fuel : Nat} {path : Path} {config : SshConfig}
    (h : fs.loadFrom fuel path = .ok config) : config.Words := by
  rw [loadFrom] at h
  cases hparsed : fs.parseFile fuel path true {} with
  | error e =>
    rw [hparsed] at h
    contradiction
  | ok parsing =>
    rw [hparsed] at h
    cases h
    have hstart : ({} : Parsing).toBuilder.Words :=
      ⟨fun _ hmem => absurd hmem List.not_mem_nil, fun _ hnone => by
        cases hnone⟩
    exact (parseFile_words fuel hstart hparsed).emitGlobal.closeBlock.hosts

end FileSystem

end NiceTerm.Ssh
