/-
What becomes of a transfer whose target exists.  Downloads decide by
themselves; uploads are first filtered by the frontend, and then by the backend,
if it looks at the strategy at all.
-/
import NiceTerm.Lib.RustSplit
import NiceTerm.Sftp.Transfers

namespace NiceTerm.Sftp

open RustStr (Str decimal)

def skipStrategy : Str := "skip".toList
def renameStrategy : Str := "rename".toList
def askStrategy : Str := "ask".toList
def overwriteStrategy : Str := "overwrite".toList

/-- A path, read backwards, without separators and `.` at its end. -/
def trimmedRev : Str → Str
  | '/' :: rest => if rest.isEmpty then ['/'] else trimmedRev rest
  | '.' :: '/' :: rest => if rest.isEmpty then ['/'] else trimmedRev rest
  | path => path

/-- The last name of a path, if it is one. -/
def fileName (path : Str) : Option Str :=
  let name := ((trimmedRev path.reverse).takeWhile (· != '/')).reverse
  if name ∈ [[], ".".toList, "..".toList] then none else some name

def parentPath (path : Str) : Option Str :=
  match (trimmedRev path.reverse) with
  | [] | ['/'] => none
  | rev =>
    match rev.dropWhile (· != '/') with
    | [] => some []
    | rest => some (trimmedRev rest).reverse

/-- The name up to its last dot and what follows it.  A dot in front does not
count. -/
def splitExtension (name : Str) : Str × Option Str :=
  match RustStr.rsplitOnce '.' name with
  | some (stem, extension) =>
    if stem.isEmpty then (name, none) else (stem, some extension)
  | none => (name, none)

def fileStem (path : Str) : Str := (splitExtension ((fileName path).getD [])).1

def dotExtension (path : Str) : Str :=
  match (splitExtension ((fileName path).getD [])).2 with
  | some extension => '.' :: extension
  | none => []

def joinPath (parent name : Str) : Str :=
  if parent.isEmpty || parent.getLast? == some '/' then parent ++ name
  else parent ++ '/' :: name

def numberedName (path : Str) (i : Nat) : Str :=
  fileStem path ++ "(".toList ++ decimal i ++ ")".toList ++ dotExtension path

/-- The names that a renamed download tries, for `i` from 1 to 999. -/
def localName (path : Str) (i : Nat) : Str :=
  joinPath ((parentPath path).getD ".".toList) (numberedName path i)

/-- The names that a renamed upload tries. -/
def remoteName (path : Str) (i : Nat) : Str :=
  RustStr.trimEndMatches '/' ((parentPath path).getD "/".toList) ++
    "/".toList ++ numberedName path i

variable (found : Str → Bool)

/-- The first candidate that is not found, or the path itself. -/
def renamed (name : Nat → Str) (path : Str) : Str :=
  (((List.range' 1 999).map name).find? fun candidate =>
    !found candidate).getD path

/-- Where a download goes: nowhere if it is skipped. -/
def resolveLocalPath (exist : Str → Bool) (path strategy : Str) : Option Str :=
  if !exist path then some path
  else if strategy = skipStrategy then none
  else if strategy = renameStrategy then
    some (renamed exist (localName path) path)
  else some path

variable (answer : Option DuplicateChoice)

/-- Where an upload of the one backend goes.  `found` is the answer to `test -e`
and `answer` the answer to the prompt. -/
def resolveRemotePath (path strategy : Str) : Option Str :=
  if !found path then some path
  else if strategy = skipStrategy then none
  else if strategy = renameStrategy then
    some (renamed found (remoteName path) path)
  else if strategy = askStrategy then
    if answer = some .overwrite then some path else none
  else some path

/-- The other backend does not look at the strategy. -/
def enhancedUploadPath (path _strategy : Str) : Option Str := some path

/-- The choices that the frontend offers. -/
inductive PromptChoice
  | skip
  | overwrite
  | overwriteAllForTask
deriving DecidableEq, Repr

structure FileEntry where
  name : Str
  isDir : Bool
deriving DecidableEq, Repr

/-- A file to be uploaded, what the calls of the frontend would answer about
its target, and what the user would answer. -/
structure EnqueueUploadRequest where
  remotePath : Str
  properties : Option Bool
  listing : Option (List FileEntry)
  choice : PromptChoice
deriving DecidableEq, Repr

/-- The names of a path, as `split("/").filter(Boolean)` gives them. -/
def lastName (path : Str) : Str :=
  ((path.splitOn '/').filter fun name => !name.isEmpty).getLastD []

def remotePathExists (request : EnqueueUploadRequest) : Bool × Bool :=
  match request.properties with
  | some isDirectory => (true, isDirectory)
  | none =>
    let name := lastName request.remotePath
    if name.isEmpty then (false, false)
    else
      match (request.listing.getD []).find? fun entry => entry.name == name with
      | some entry => (true, entry.isDir)
      | none => (false, false)

inductive ConflictDecision
  | proceed
  | skip
  | includeAndOverwriteRemaining
deriving DecidableEq, Repr

def resolveRemoteUploadConflict (request : EnqueueUploadRequest)
    (strategy : Str) : ConflictDecision :=
  if (remotePathExists request).1 then
    if strategy = skipStrategy then .skip
    else if strategy = askStrategy then
      match request.choice with
      | .skip => .skip
      | .overwrite => .proceed
      | .overwriteAllForTask => .includeAndOverwriteRemaining
    else .proceed
  else .proceed

/-- A request that is passed on, with the strategy that replaces the one of the
settings. -/
abbrev Passed := EnqueueUploadRequest × Option Str

variable (strategy : Str)

/-- One turn of the loop: whether the rest is to be overwritten, and the
request that is passed on. -/
def filterTurn (overwriteRemaining : Bool)
    (request : EnqueueUploadRequest) : Bool × Option Passed :=
  if overwriteRemaining then (true, some (request, some overwriteStrategy))
  else
    match resolveRemoteUploadConflict request strategy with
    | .skip => (false, none)
    | decision =>
      (decision == .includeAndOverwriteRemaining, some (request,
          if strategy = askStrategy then some overwriteStrategy else none))

def filterLoop (strategy : Str) :
    Bool → List EnqueueUploadRequest → List Passed
  | _, [] => []
  | overwriteRemaining, request :: rest =>
    (filterTurn strategy overwriteRemaining request).2.toList ++
      filterLoop strategy
        (filterTurn strategy overwriteRemaining request).1 rest

def filterEnqueueUploadRequests (requests : List EnqueueUploadRequest)
    (strategy : Str) : List Passed :=
  if strategy ≠ askStrategy ∧ strategy ≠ skipStrategy then
    requests.map fun request => (request, none)
  else filterLoop strategy false requests

/-- Whether the loop overwrites what comes after these requests. -/
def remaining (before : List EnqueueUploadRequest) : Bool :=
  before.foldl
    (fun overwriting request => (filterTurn strategy overwriting request).1)
    false

/-- What becomes of a request that comes after others. -/
def admitted (before : List EnqueueUploadRequest)
    (request : EnqueueUploadRequest) : Option Passed :=
  if strategy ≠ askStrategy ∧ strategy ≠ skipStrategy then some (request, none)
  else (filterTurn strategy (remaining strategy before) request).2

/-- Where an upload goes that comes after others. -/
def uploadTarget (backend : Str → Str → Option Str) (strategy : Str)
    (before : List EnqueueUploadRequest) (request : EnqueueUploadRequest) :
    Option Str :=
  (admitted strategy before request).bind fun passed =>
    backend passed.1.remotePath (passed.2.getD strategy)

/-- The answer of the user to a prompt of the frontend, if it is shown. -/
def userAnswer (request : EnqueueUploadRequest) : Option PromptChoice :=
  if strategy = askStrategy ∧ (remotePathExists request).1 = true then
    some request.choice
  else none

/-- The user has answered overwrite, for this file or for all from an earlier
one on. -/
def AnsweredOverwrite (before : List EnqueueUploadRequest)
    (request : EnqueueUploadRequest) : Prop :=
  userAnswer strategy request = some .overwrite ∨
    userAnswer strategy request = some .overwriteAllForTask ∨
    ∃ earlier ∈ before, userAnswer strategy earlier = some .overwriteAllForTask

/-- What the strategies promise about the target of a transfer. -/
structure Honoured (strategy : Str) (files : Files Str) (answered : Prop)
    (target : Option Str) : Prop where
  skip : strategy = skipStrategy →
    ∀ path, target = some path → files.isFile path = false
  rename : strategy = renameStrategy →
    ∃ path, target = some path ∧ files path = none
  ask : strategy = askStrategy →
    ∀ path, target = some path → files.isFile path = true → answered

theorem skip_ne_ask : skipStrategy ≠ askStrategy := by decide

theorem rename_ne_ask : renameStrategy ≠ askStrategy := by decide

theorem rename_ne_skip : renameStrategy ≠ skipStrategy := by decide

theorem filterTurn_remaining (overwriting : Bool)
    (request : EnqueueUploadRequest) (strategy : Str) :
    (filterTurn strategy overwriting request).1 = true ↔ overwriting = true ∨
        userAnswer strategy request = some .overwriteAllForTask := by
  cases overwriting with
  | true => simp [filterTurn]
  | false =>
    by_cases hseen : (remotePathExists request).1 = true
    · by_cases hskip : strategy = skipStrategy
      · simp [filterTurn, resolveRemoteUploadConflict, userAnswer, hseen,
          hskip, skip_ne_ask]
      · by_cases hask : strategy = askStrategy
        · cases hchoice : request.choice <;>
            simp [filterTurn, resolveRemoteUploadConflict, userAnswer, hseen,
              hask, hchoice, skip_ne_ask.symm]
        · simp [filterTurn, resolveRemoteUploadConflict, userAnswer, hseen,
            hskip, hask]
    · simp [filterTurn, resolveRemoteUploadConflict, userAnswer, hseen]

theorem remaining_iff (before : List EnqueueUploadRequest) :
    remaining strategy before = true ↔ ∃ earlier ∈ before,
        userAnswer strategy earlier = some .overwriteAllForTask := by
  have hloop (overwriting : Bool) :
      before.foldl (fun overwriting request =>
        (filterTurn strategy overwriting request).1) overwriting = true ↔
      overwriting = true ∨ ∃ earlier ∈ before,
        userAnswer strategy earlier = some .overwriteAllForTask := by
    induction before generalizing overwriting with
    | nil => simp
    | cons first before ih =>
      rw [List.foldl_cons, ih, filterTurn_remaining]
      simp [or_assoc]
  rw [remaining, hloop]
  simp

section

variable (before : List EnqueueUploadRequest) (request : EnqueueUploadRequest)
include before request

theorem admitted_skip :
    admitted skipStrategy before request =
      if (remotePathExists request).1 then none else some (request, none) := by
  have hnever : remaining skipStrategy before = false := by
    rw [← Bool.not_eq_true, remaining_iff]
    rintro ⟨earlier, -, hanswer⟩
    simp [userAnswer, skip_ne_ask] at hanswer
  by_cases hseen : (remotePathExists request).1 = true
  · simp [admitted, filterTurn, resolveRemoteUploadConflict, hnever, hseen]
  · simp [admitted, filterTurn, resolveRemoteUploadConflict, hnever, hseen,
      skip_ne_ask]

theorem admitted_rename :
    admitted renameStrategy before request = some (request, none) :=
  if_pos ⟨rename_ne_ask, rename_ne_skip⟩

/-- A request whose target is not seen is passed on as if the user had answered
overwrite. -/
theorem admitted_ask :
    ((remotePathExists request).1 = false →
      admitted askStrategy before request =
        some (request, some overwriteStrategy)) ∧
    (∀ passed, admitted askStrategy before request = some passed →
      passed = (request, some overwriteStrategy) ∧
        (AnsweredOverwrite askStrategy before request ∨
          (remotePathExists request).1 = false)) := by
  have hadmitted : admitted askStrategy before request =
      (filterTurn askStrategy (remaining askStrategy before) request).2 := by
    simp [admitted]
  rw [hadmitted]
  cases hremaining : remaining askStrategy before with
  | true =>
    have hearlier := (remaining_iff askStrategy before).mp hremaining
    refine ⟨fun _ => rfl, fun passed hpassed => ?_⟩
    exact ⟨(Option.some.inj hpassed).symm, .inl (.inr (.inr hearlier))⟩
  | false =>
    by_cases hseen : (remotePathExists request).1 = true
    · cases hchoice : request.choice <;>
        simp [filterTurn, resolveRemoteUploadConflict, hseen, hchoice,
          skip_ne_ask.symm, AnsweredOverwrite, userAnswer]
    · simp [filterTurn, resolveRemoteUploadConflict, hseen]

end

variable {files : Files Str}

/-- The file is overwritten although nobody has answered: the calls of the
frontend have not found it. -/
def OverwritesUnasked (files : Files Str) (before : List EnqueueUploadRequest)
    (request : EnqueueUploadRequest) : Prop :=
  files.isFile request.remotePath = true ∧ (remotePathExists request).1 = false
    ∧ ¬ AnsweredOverwrite askStrategy before request

variable {backend : Str → Str → Option Str} {before : List EnqueueUploadRequest}
    {request : EnqueueUploadRequest}

theorem ask_honoured_iff
    (hbackend : backend request.remotePath overwriteStrategy =
      some request.remotePath) :
    Honoured askStrategy files (AnsweredOverwrite askStrategy before request)
        (uploadTarget backend askStrategy before request) ↔
      ¬ OverwritesUnasked files before request := by
  obtain ⟨hunseen, hadmitted⟩ := admitted_ask before request
  constructor
  · rintro hhonoured ⟨hfile, hseen, hnot⟩
    have htarget : uploadTarget backend askStrategy before request =
        some request.remotePath := by
      rw [uploadTarget, hunseen hseen]
      exact hbackend
    exact hnot (hhonoured.ask rfl _ htarget hfile)
  · intro hnot
    refine ⟨fun h => absurd h.symm skip_ne_ask,
      fun h => absurd h.symm rename_ne_ask, fun _ path htarget hfile => ?_⟩
    rw [uploadTarget, Option.bind_eq_some_iff] at htarget
    obtain ⟨passed, hpassed, htarget⟩ := htarget
    obtain ⟨rfl, hanswered | hseen⟩ := hadmitted passed hpassed
    · exact hanswered
    · obtain rfl := Option.some.inj (hbackend.symm.trans htarget)
      by_contra hunanswered
      exact hnot ⟨hfile, hseen, hunanswered⟩

theorem skip_honoured_iff {answered : Prop} :
    Honoured skipStrategy files answered
        (uploadTarget backend skipStrategy before request) ↔
      ¬ ((remotePathExists request).1 = false ∧
        ∃ path, backend request.remotePath skipStrategy = some path ∧
          files.isFile path = true) := by
  have htarget : uploadTarget backend skipStrategy before request =
      if (remotePathExists request).1 then none
      else backend request.remotePath skipStrategy := by
    rw [uploadTarget, admitted_skip]
    split <;> rfl
  rw [htarget]
  constructor
  · rintro hhonoured ⟨hseen, path, hpath, hfile⟩
    have hnone := hhonoured.skip rfl path (by rw [hseen]; exact hpath)
    exact Bool.false_ne_true (hnone.symm.trans hfile)
  · intro hnot
    refine ⟨fun _ path hpath => ?_,
      fun h => absurd h.symm rename_ne_skip, fun h => absurd h skip_ne_ask⟩
    split at hpath
    · exact absurd hpath.symm (Option.some_ne_none _)
    · rename_i hseen
      by_contra hfile
      rw [Bool.not_eq_false] at hfile
      exact hnot ⟨by simpa using hseen, path, hpath, hfile⟩

theorem rename_honoured_iff {answered : Prop} :
    Honoured renameStrategy files answered
        (uploadTarget backend renameStrategy before request) ↔
      ∃ path, backend request.remotePath renameStrategy = some path ∧
        files path = none := by
  have htarget : uploadTarget backend renameStrategy before request =
      backend request.remotePath renameStrategy := by
    rw [uploadTarget, admitted_rename]
    rfl
  rw [htarget]
  exact ⟨fun h => h.rename rfl, fun h =>
    ⟨fun heq => absurd heq rename_ne_skip, fun _ => h,
      fun heq => absurd heq rename_ne_ask⟩⟩

theorem other_honoured {strategy : Str} {answered : Prop} {target : Option Str}
    (hskip : strategy ≠ skipStrategy) (hrename : strategy ≠ renameStrategy)
    (hask : strategy ≠ askStrategy) :
    Honoured strategy files answered target :=
  ⟨fun h => absurd h hskip, fun h => absurd h hrename, fun h => absurd h hask⟩

def exist (files : Files Str) (path : Str) : Bool := (files path).isSome

/-- `test -e` finds what exists, if it can be carried out. -/
def testExists (files : Files Str) (unreachable : Str → Bool) (path : Str) :
    Bool :=
  !unreachable path && exist files path

/-- One of the 999 names is free, and those before it exist and `test -e` can be
carried out on them. -/
def FreeName (files : Files Str) (unreachable : Str → Bool)
    (name : Nat → Str) : Prop :=
  ∃ n, 1 ≤ n ∧ n ≤ 999 ∧ files (name n) = none ∧ ∀ m, 1 ≤ m → m < n →
    files (name m) ≠ none ∧ unreachable (name m) = false

variable {path : Str} {name : Nat → Str}

theorem exist_iff : exist files path = true ↔ files path ≠ none := by
  rw [exist, Option.isSome_iff_ne_none]

/-- Where every test can be carried out, it is enough that a name is free. -/
theorem freeName_iff :
    FreeName files (fun _ => false) name ↔
      ∃ n, 1 ≤ n ∧ n ≤ 999 ∧ files (name n) = none := by
  constructor
  · rintro ⟨n, hpos, hle, hfree, -⟩
    exact ⟨n, hpos, hle, hfree⟩
  · rintro ⟨n, hpos, hle, hfree⟩
    induction n using Nat.strongRecOn with
    | _ n ih =>
      by_cases hbefore : ∃ m, 1 ≤ m ∧ m < n ∧ files (name m) = none
      · obtain ⟨m, hm, hmn, hnone⟩ := hbefore
        exact ih m hmn hm (by omega) hnone
      · exact ⟨n, hpos, hle, hfree, fun m hm hmn =>
          ⟨fun hnone => hbefore ⟨m, hm, hmn, hnone⟩, rfl⟩⟩

/-- What the search among the numbered names comes to. -/
theorem renamed_free_iff {unreachable : Str → Bool} (hpath : files path ≠ none) :
    files (renamed (testExists files unreachable) name path) = none ↔
      FreeName files unreachable name := by
  have hfound : ∀ candidate, (testExists files unreachable candidate = true ↔
      files candidate ≠ none ∧ unreachable candidate = false) := by
    intro candidate
    rw [testExists, Bool.and_eq_true, exist_iff, Bool.not_eq_true', and_comm]
  rw [renamed, List.find?_map]
  constructor
  · intro hfree
    cases hfind : (List.range' 1 999).find?
        ((fun candidate => !testExists files unreachable candidate) ∘ name) with
    | none =>
      rw [hfind] at hfree
      exact absurd hfree hpath
    | some n =>
      rw [hfind] at hfree
      obtain ⟨-, hmem, hbefore⟩ := List.find?_range'_eq_some.mp hfind
      obtain ⟨hpos, hlt⟩ := List.mem_range'_1.mp hmem
      refine ⟨n, hpos, by omega, hfree, fun m hm hmn => ?_⟩
      exact (hfound _).mp (by simpa using hbefore m hm hmn)
  · rintro ⟨n, hpos, hle, hfree, hbefore⟩
    have hfind : (List.range' 1 999).find?
        ((fun candidate => !testExists files unreachable candidate) ∘ name) =
          some n := by
      refine List.find?_range'_eq_some.mpr
        ⟨?_, List.mem_range'_1.mpr ⟨hpos, by omega⟩, fun m hm hmn => ?_⟩
      · simp [testExists, exist, hfree]
      · simp [(hfound _).mpr (hbefore m hm hmn)]
    rw [hfind]
    exact hfree

theorem exist_of_isFile (h : files.isFile path = true) :
    exist files path = true := by
  obtain ⟨content, hcontent⟩ := Files.isFile_iff.mp h
  rw [exist, hcontent]
  rfl

theorem isFile_of_not_exist (h : ¬ exist files path = true) :
    files.isFile path = false := by
  rw [← Bool.not_eq_true]
  exact fun hfile => h (exist_of_isFile hfile)

/-- Nobody is asked about a download, and a renamed download replaces the file
where all the numbered names exist. -/
def DownloadOverwrites (files : Files Str) (strategy path : Str) : Prop :=
  (strategy = renameStrategy ∧ files path ≠ none ∧
      ∀ n, 1 ≤ n → n ≤ 999 → files (localName path n) ≠ none) ∨
    (strategy = askStrategy ∧ files.isFile path = true)

/-- A transfer to a new path overwrites nothing. -/
theorem honoured_new {strategy : Str} {answered : Prop}
    (h : files path = none) : Honoured strategy files answered (some path) := by
  have hfile : files.isFile path = false := by
    rw [Files.isFile, h]
  refine ⟨?_, fun _ => ⟨path, rfl, h⟩, ?_⟩
  · rintro - _ ⟨⟩
    exact hfile
  · rintro - _ ⟨⟩ hmem
    exact absurd (hfile.symm.trans hmem) Bool.false_ne_true

theorem download_honoured_iff (files : Files Str) (strategy path : Str) :
    Honoured strategy files False
        (resolveLocalPath (exist files) path strategy) ↔
      ¬ DownloadOverwrites files strategy path := by
  by_cases hexist : exist files path = true
  · have hnode := exist_iff.mp hexist
    simp only [resolveLocalPath, hexist, Bool.not_true, Bool.false_eq_true,
      ↓reduceIte]
    by_cases hskip : strategy = skipStrategy
    · subst hskip
      refine iff_of_true ⟨by simp, fun h => absurd h.symm rename_ne_skip,
        fun h => absurd h skip_ne_ask⟩ ?_
      simp [DownloadOverwrites, rename_ne_skip.symm, skip_ne_ask]
    · by_cases hrename : strategy = renameStrategy
      · subst hrename
        have hfree : files (renamed (exist files) (localName path) path) =
            none ↔ _ := (renamed_free_iff hnode).trans freeName_iff
        have hall : (¬ ∀ n, 1 ≤ n → n ≤ 999 → files (localName path n) ≠ none) ↔
            files (renamed (exist files) (localName path) path) = none := by
          rw [hfree]
          push Not
          rfl
        simp only [rename_ne_skip, ↓reduceIte, DownloadOverwrites,
          rename_ne_ask, false_and, or_false, true_and, not_and]
        rw [forall_prop_of_true hnode, hall]
        constructor
        · intro h
          obtain ⟨target, htarget, hnone⟩ := h.rename rfl
          rwa [Option.some.inj htarget]
        · exact honoured_new
      · rw [if_neg hskip, if_neg hrename]
        by_cases hask : strategy = askStrategy
        · subst hask
          simp only [DownloadOverwrites, rename_ne_ask.symm, false_and,
            false_or, true_and]
          refine ⟨fun h hfile => h.ask rfl path rfl hfile, fun h => ?_⟩
          refine ⟨fun heq => absurd heq hskip, fun heq => absurd heq hrename,
            ?_⟩
          rintro - _ ⟨⟩ hfile
          exact h hfile
        · refine iff_of_true (other_honoured hskip hrename hask) ?_
          simp [DownloadOverwrites, hrename, hask]
  · have hnone : files path = none := by
      simpa using mt exist_iff.mpr hexist
    have htarget : resolveLocalPath (exist files) path strategy = some path := by
      rw [resolveLocalPath, Bool.eq_false_iff.mpr hexist]
      rfl
    rw [htarget]
    refine iff_of_true (honoured_new hnone) ?_
    simp [DownloadOverwrites, hnone, isFile_of_not_exist hexist]

/-- What an upload of the one backend overwrites. -/
def NormalOverwrites (files : Files Str) (unreachable : Str → Bool)
    (strategy : Str) (before : List EnqueueUploadRequest)
    (request : EnqueueUploadRequest) : Prop :=
  (strategy = skipStrategy ∧ files.isFile request.remotePath = true ∧
      (remotePathExists request).1 = false ∧
      unreachable request.remotePath = true) ∨
    (strategy = renameStrategy ∧ files request.remotePath ≠ none ∧
      (unreachable request.remotePath = true ∨
        ¬ FreeName files unreachable (remoteName request.remotePath))) ∨
    (strategy = askStrategy ∧ OverwritesUnasked files before request)

/-- What an upload of the other backend overwrites. -/
def EnhancedOverwrites (files : Files Str) (strategy : Str)
    (before : List EnqueueUploadRequest) (request : EnqueueUploadRequest) :
    Prop :=
  (strategy = skipStrategy ∧ files.isFile request.remotePath = true ∧
      (remotePathExists request).1 = false) ∨
    (strategy = renameStrategy ∧ files request.remotePath ≠ none) ∨
    (strategy = askStrategy ∧ OverwritesUnasked files before request)

theorem enhanced_honoured_iff (files : Files Str) (strategy : Str)
    (before : List EnqueueUploadRequest) (request : EnqueueUploadRequest) :
    Honoured strategy files (AnsweredOverwrite strategy before request)
        (uploadTarget enhancedUploadPath strategy before request) ↔
      ¬ EnhancedOverwrites files strategy before request := by
  by_cases hskip : strategy = skipStrategy
  · subst hskip
    rw [skip_honoured_iff]
    simp [EnhancedOverwrites, enhancedUploadPath, rename_ne_skip.symm,
      skip_ne_ask, and_comm]
  · by_cases hrename : strategy = renameStrategy
    · subst hrename
      rw [rename_honoured_iff]
      simp [EnhancedOverwrites, enhancedUploadPath, rename_ne_skip,
        rename_ne_ask]
    · by_cases hask : strategy = askStrategy
      · subst hask
        rw [ask_honoured_iff rfl]
        simp [EnhancedOverwrites, skip_ne_ask.symm, rename_ne_ask.symm]
      · refine iff_of_true (other_honoured hskip hrename hask) ?_
        simp [EnhancedOverwrites, hskip, hrename, hask]

theorem resolveRemotePath_overwrite (path : Str) :
    resolveRemotePath found answer path overwriteStrategy = some path := by
  have hskip : overwriteStrategy ≠ skipStrategy := by decide
  have hrename : overwriteStrategy ≠ renameStrategy := by decide
  have hask : overwriteStrategy ≠ askStrategy := by decide
  rw [resolveRemotePath, if_neg hskip, if_neg hrename, if_neg hask]
  split <;> rfl

theorem resolveRemotePath_skip (path : Str) :
    resolveRemotePath found answer path skipStrategy =
      if found path then none else some path := by
  rw [resolveRemotePath, if_pos rfl]
  cases found path <;> rfl

theorem resolveRemotePath_rename (path : Str) :
    resolveRemotePath found answer path renameStrategy =
      some (if found path then renamed found (remoteName path) path
        else path) := by
  rw [resolveRemotePath, if_neg rename_ne_skip, if_pos rfl]
  cases found path <;> rfl

theorem normal_honoured_iff (files : Files Str) (unreachable : Str → Bool)
    (answer : Option DuplicateChoice) (strategy : Str)
    (before : List EnqueueUploadRequest) (request : EnqueueUploadRequest) :
    Honoured strategy files (AnsweredOverwrite strategy before request)
        (uploadTarget
          (resolveRemotePath (testExists files unreachable) answer)
          strategy before request) ↔
      ¬ NormalOverwrites files unreachable strategy before request := by
  by_cases hskip : strategy = skipStrategy
  · subst hskip
    rw [skip_honoured_iff, resolveRemotePath_skip, not_iff_not]
    simp only [NormalOverwrites, rename_ne_skip.symm, skip_ne_ask, false_and,
      or_false, true_and]
    cases hreach : unreachable request.remotePath with
    | true => simp [testExists, hreach, and_comm]
    | false =>
      refine iff_of_false ?_ (by simp)
      rintro ⟨-, path, hpath, hfile⟩
      split at hpath
      · exact absurd hpath.symm (Option.some_ne_none _)
      · rename_i hfound
        obtain rfl := Option.some.inj hpath
        exact hfound (by simp [testExists, hreach, exist_of_isFile hfile])
  · by_cases hrename : strategy = renameStrategy
    · subst hrename
      rw [rename_honoured_iff, resolveRemotePath_rename]
      simp only [Option.some.injEq, exists_eq_left', NormalOverwrites,
        rename_ne_skip, rename_ne_ask, false_and, false_or, or_false, true_and]
      by_cases hnode : files request.remotePath = none
      · have hfound : testExists files unreachable request.remotePath =
            false := by
          simp [testExists, exist, hnode]
        simp [hfound, hnode]
      · cases hreach : unreachable request.remotePath with
        | true => simp [testExists, hreach, hnode]
        | false =>
          have hfound : testExists files unreachable request.remotePath =
              true := by
            simp [testExists, hreach, exist_iff.mpr hnode]
          rw [hfound, if_pos rfl, renamed_free_iff hnode]
          simp [hnode]
    · by_cases hask : strategy = askStrategy
      · subst hask
        rw [ask_honoured_iff (resolveRemotePath_overwrite _ _ _)]
        simp [NormalOverwrites, skip_ne_ask.symm, rename_ne_ask.symm]
      · refine iff_of_true (other_honoured hskip hrename hask) ?_
        simp [NormalOverwrites, hskip, hrename, hask]

/-- Each way of a file to its target honours the strategy exactly if it does
not overwrite a file in one of the ways described. -/
theorem strategies_honoured_iff (files : Files Str) (strategy : Str) :
    (∀ path, Honoured strategy files False
        (resolveLocalPath (exist files) path strategy) ↔
      ¬ DownloadOverwrites files strategy path) ∧
    (∀ unreachable answer before request,
      Honoured strategy files (AnsweredOverwrite strategy before request)
        (uploadTarget (resolveRemotePath (testExists files unreachable) answer)
          strategy before request) ↔
      ¬ NormalOverwrites files unreachable strategy before request) ∧
    ∀ before request,
      Honoured strategy files (AnsweredOverwrite strategy before request)
        (uploadTarget enhancedUploadPath strategy before request) ↔
      ¬ EnhancedOverwrites files strategy before request :=
  ⟨download_honoured_iff files strategy,
    fun unreachable answer before request =>
      normal_honoured_iff files unreachable answer strategy before request,
    enhanced_honoured_iff files strategy⟩

/-- A file `/a` on the server. -/
def remoteFile : Files Str := fun path =>
  if path = "/a".toList then some (.file [1]) else none

/-- A local file is sent to `/a`, which the frontend finds. -/
def uploadOver : EnqueueUploadRequest :=
  ⟨"/a".toList, some false, none, .skip⟩

/-- The strategy is to rename, and the file on the server is replaced. -/
theorem enhanced_rename_overwrites :
    filterEnqueueUploadRequests [uploadOver] renameStrategy =
        [(uploadOver, none)] ∧
      uploadTarget enhancedUploadPath renameStrategy [] uploadOver =
        some "/a".toList ∧
      remoteFile "/a".toList = some (.file [1]) ∧
      ¬ Honoured renameStrategy remoteFile
        (AnsweredOverwrite renameStrategy [] uploadOver)
        (uploadTarget enhancedUploadPath renameStrategy [] uploadOver) := by
  have htarget : uploadTarget enhancedUploadPath renameStrategy [] uploadOver =
      some "/a".toList := by decide +kernel
  have hthere : remoteFile "/a".toList = some (.file [1]) := by decide +kernel
  refine ⟨by decide +kernel, htarget, hthere, fun h => ?_⟩
  obtain ⟨path, hpath, hnone⟩ := h.rename rfl
  obtain rfl := Option.some.inj (htarget.symm.trans hpath)
  exact Option.some_ne_none _ (hthere.symm.trans hnone)

end NiceTerm.Sftp
