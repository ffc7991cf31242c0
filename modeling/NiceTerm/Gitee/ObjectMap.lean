/-
A snippet as a remote store: every file of the store is a file of the snippet,
with its content in base64.  It is a map of what its file names stand for.
-/
import Mathlib.Data.List.Lex
import NiceTerm.Gitee.Scope
import NiceTerm.Lib.Table
import NiceTerm.Lib.Transition

namespace NiceTerm.Gitee

open Base64 List Option RustStr Table

abbrev Bytes := List UInt8

/-- The files of the snippet with their contents. -/
abbrev Snippet := Table Str Str

inductive GiteeError where
  | invalidContent
deriving Repr, DecidableEq

/-- The content with which the service lists a file: of some files it lists
none. -/
def listedContent (shown : Str → Bool) (filename stored : Str) : Option Str :=
  if shown filename then some stored else none

/-- What is not listed, or listed as blank, is fetched as the raw file. -/
def fetchFileContent (listed : Option Str) (raw : Str) : Str :=
  match listed.filter fun value => !(trim value).isEmpty with
  | some content => content
  | none => raw

def decodeGiteeFileContent (content : Str) : Except GiteeError Bytes :=
  match standard.decode (trim content) with
  | some bytes => .ok bytes
  | none => .error .invalidContent

/-- The first of the names that is there. -/
def readFirst (shown : Str → Bool) (snippet : Snippet) :
    List Str → Except GiteeError (Option Bytes)
  | [] => .ok none
  | filename :: rest =>
    match snippet.get filename with
    | none => readFirst shown snippet rest
    | some stored =>
      (decodeGiteeFileContent (fetchFileContent
        (listedContent shown filename stored) stored)).map some

namespace Snippet

def readIfExists (shown : Str → Bool) (snippet : Snippet) (path : Str) :
    Except GiteeError (Option Bytes) :=
  readFirst shown snippet (giteeRemoteFilenames path)

/-- `exists` -/
def existsAt (snippet : Snippet) (path : Str) : Bool :=
  (giteeRemoteFilenames path).any fun filename =>
    (snippet.get filename).isSome

def write (snippet : Snippet) (path : Str) (content : Bytes) : Snippet :=
  snippet.insert (giteeRemoteFilename path) (standard.encode content)

def delete (snippet : Snippet) (path : Str) : Snippet :=
  snippet.remove (giteeRemoteFilename path)

def listFiles (snippet : Snippet) (path : Str) : List Str :=
  let front := trimStartMatches '/' path
  let paths := snippet.entries.filterMap fun file =>
    (giteeRemotePath file.1 path).filter fun remotePath =>
      front.isPrefixOf remotePath
  (collect id (fun _ => ()) paths).entries.map Prod.fst

end Snippet

/-- The operations on the store; a request that the service refuses changes
nothing. -/
inductive Operation where
  | write (path : Str) (content : Bytes)
  | delete (path : Str)
  | read (path : Str)
  | listFiles (path : Str)
  | refused

def Snippet.perform (snippet : Snippet) : Operation → Snippet
  | .write path content => snippet.write path content
  | .delete path => snippet.delete path
  | .read _ => snippet
  | .listFiles _ => snippet
  | .refused => snippet

/-- The program has written the file, now or when every path had its text in
the name. -/
def WrittenFile (file : Str × Str) : Prop :=
  ((∃ path, giteeRemoteFilename path = file.1) ∨
      ∃ path, giteeLegacyRemoteFilename path = file.1) ∧
    ∃ content, file.2 = standard.encode content

def Snippet.Written (snippet : Snippet) : Prop :=
  ∀ file ∈ snippet.entries, file.1 = readmeFilename ∨ WrittenFile file

def store : Transition.System Snippet Operation where
  init := Snippet.Written
  step := fun snippet operation => some (snippet.perform operation)

/-! Paths with one file name are one object, and an operation on one object
leaves the others as they are. -/

variable {shown : Str → Bool} {snippet : Snippet}

theorem standard_not_whitespace : ∀ c ∈ standard.symbols ++ ['='],
    isWhitespace c = false := by
  have hall : (standard.symbols ++ ['=']).all
      (fun c => !isWhitespace c) = true := by decide +kernel
  intro c hmem
  simpa using all_eq_true.mp hall c hmem

theorem trim_encode (content : Bytes) :
    trim (standard.encode content) = standard.encode content := by
  have hall : ∀ c ∈ standard.encode content, isWhitespace c = false := by
    intro c hmem
    apply standard_not_whitespace
    rcases Base64.Engine.mem_encode hmem with hsymbol | rfl
    · exact mem_append_left _ hsymbol
    · exact mem_append_right _ mem_cons_self
  exact trimBoth_of_ends isWhitespace (fun c h => hall c (mem_of_mem_head? h))
    (fun c h => hall c (mem_of_getLast? h))

/-- However the service lists a file, its content is fetched. -/
theorem fetch_listed (filename stored : Str) :
    fetchFileContent (listedContent shown filename stored) stored = stored := by
  rw [listedContent, fetchFileContent]
  cases shown filename with
  | false => rfl
  | true =>
    rw [if_pos rfl, filter_some]
    by_cases hblank : (trim stored).isEmpty = true <;> simp [hblank]

theorem decode_encoded (content : Bytes) :
    decodeGiteeFileContent (standard.encode content) = .ok content := by
  rw [decodeGiteeFileContent, trim_encode, Base64.Engine.decode_encoded]

variable (path : Str)

/-- A path is read under its name, and under the old name if that is not
there. -/
theorem readIfExists_eq :
    snippet.readIfExists shown path =
      match (snippet.get (giteeRemoteFilename path)).or
          (snippet.get (giteeLegacyRemoteFilename path)) with
      | none => .ok none
      | some stored => (decodeGiteeFileContent stored).map some := by
  rw [Snippet.readIfExists, giteeRemoteFilenames]
  by_cases hsame : giteeRemoteFilename path = giteeLegacyRemoteFilename path
  · cases hlegacy : snippet.get (giteeLegacyRemoteFilename path) <;>
      simp [hsame, readFirst, fetch_listed, hlegacy]
  · cases hname : snippet.get (giteeRemoteFilename path) with
    | some stored => simp [hsame, readFirst, fetch_listed, hname]
    | none =>
      cases hlegacy : snippet.get (giteeLegacyRemoteFilename path) <;>
        simp [hsame, readFirst, fetch_listed, hname, hlegacy]

theorem existsAt_eq :
    snippet.existsAt path = ((snippet.get (giteeRemoteFilename path)).or
        (snippet.get (giteeLegacyRemoteFilename path))).isSome := by
  rw [Snippet.existsAt, giteeRemoteFilenames]
  by_cases hsame : giteeRemoteFilename path = giteeLegacyRemoteFilename path
  · simp [hsame]
  · simp [hsame, isSome_or]

theorem remoteFilename_cases :
    giteeRemoteFilename path = giteeLegacyRemoteFilename path ∨
      ∃ sync, SyncName (giteeRemoteFilename path) sync := by
  rw [giteeRemoteFilename]
  cases hsemantic : giteeSemanticRemoteFilename path with
  | none => exact .inl rfl
  | some filename =>
    obtain ⟨sync, -, hname⟩ := semanticFilename_eq_some.mp hsemantic
    exact .inr ⟨sync, hname⟩

/-- Only its own path has an encoded name. -/
theorem legacy_ne_of_ne {first second : Str}
    (h : giteeRemoteFilename first ≠ giteeRemoteFilename second) :
    giteeLegacyRemoteFilename first ≠ giteeRemoteFilename second := by
  intro heq
  rcases remoteFilename_cases second with hlegacy | ⟨sync, hname⟩
  · have hpath := legacy_injective (heq.trans hlegacy)
    exact h (congrArg giteeRemoteFilename hpath)
  · exact hname.ne_legacy first heq.symm

theorem legacy_ne_readme :
    giteeLegacyRemoteFilename path ≠ readmeFilename := by
  intro heq
  have hpath := remotePath_legacy path []
  rw [heq, remotePath_readme] at hpath
  cases hpath

theorem remoteFilename_ne_readme :
    giteeRemoteFilename path ≠ readmeFilename := by
  rcases remoteFilename_cases path with hlegacy | ⟨sync, hname⟩
  · rw [hlegacy]
    exact legacy_ne_readme path
  · intro heq
    have hnone : giteeSemanticRemotePath readmeFilename = none := by decide
    rw [← heq, semanticPath_eq_some.mpr hname] at hnone
    cases hnone

namespace Snippet

theorem Written.write (h : snippet.Written) (path : Str) (content : Bytes) :
    (snippet.write path content).Written := by
  intro file hmem
  rcases mem_insert.mp hmem with rfl | ⟨-, hmem⟩
  · exact .inr ⟨.inl ⟨path, rfl⟩, content, rfl⟩
  · exact h file hmem

theorem Written.delete (h : snippet.Written) (path : Str) :
    (snippet.delete path).Written :=
  fun file hmem => h file (mem_remove.mp hmem).1

theorem Written.perform (h : snippet.Written) (operation : Operation) :
    (snippet.perform operation).Written := by
  cases operation with
  | write path content => exact h.write path content
  | delete path => exact h.delete path
  | read path => exact h
  | listFiles path => exact h
  | refused => exact h

/-- The content of a file other than the readme is encoded. -/
theorem Written.encoded (h : snippet.Written) {filename stored : Str}
    (hne : filename ≠ readmeFilename)
    (hget : snippet.get filename = some stored) :
    ∃ content, stored = standard.encode content := by
  rcases h _ (get_eq_some_iff.mp hget) with heq | ⟨-, hcontent⟩
  · exact absurd heq hne
  · exact hcontent

end Snippet

/-- Paths are one object if they have one file name. -/
def SameObject (first second : Str) : Prop :=
  giteeRemoteFilename first = giteeRemoteFilename second

/-- The path is the one under which a listing of `scope` shows its object. -/
def ShownIn (scope path : Str) : Prop :=
  giteeRemotePath (giteeRemoteFilename path) scope = some path

/-- There is a file under the old name of the path, which is not its name. -/
def LegacyCopy (snippet : Snippet) (path : Str) : Prop :=
  giteeLegacyRemoteFilename path ≠ giteeRemoteFilename path ∧
    (snippet.get (giteeLegacyRemoteFilename path)).isSome = true

/-- The snippet is a map from objects to contents. -/
structure ObjectMap (shown : Str → Bool) (snippet : Snippet) : Prop where
  existsIffRead : ∀ path, snippet.existsAt path = true ↔
    ∃ content, snippet.readIfExists shown path = .ok (some content)
  readWritten : ∀ path other content, SameObject other path →
    (snippet.write path content).readIfExists shown other =
      .ok (some content)
  readOther : ∀ path other content, ¬ SameObject other path →
    (snippet.write path content).readIfExists shown other =
        snippet.readIfExists shown other ∧
      (snippet.write path content).existsAt other = snippet.existsAt other
  readDeleted : ∀ path, ¬ LegacyCopy snippet path →
    (snippet.delete path).readIfExists shown path = .ok none ∧
      (snippet.delete path).existsAt path = false
  readNotDeleted : ∀ path other, ¬ SameObject other path →
    (snippet.delete path).readIfExists shown other =
        snippet.readIfExists shown other ∧
      (snippet.delete path).existsAt other = snippet.existsAt other
  listed : ∀ scope path, path ∈ snippet.listFiles scope ↔
    trimStartMatches '/' scope <+: path ∧ snippet.existsAt path = true ∧
      (ShownIn scope path ∨ LegacyCopy snippet path)

theorem mem_listFiles {scope path : Str} :
    path ∈ snippet.listFiles scope ↔ trimStartMatches '/' scope <+: path ∧
      ∃ filename, (snippet.get filename).isSome = true ∧
        giteeRemotePath filename scope = some path := by
  rw [Snippet.listFiles, mem_keys_collect, List.map_id, mem_filterMap]
  constructor
  · rintro ⟨⟨filename, stored⟩, hmem, hfilter⟩
    obtain ⟨hpath, hunder⟩ := filter_eq_some_iff.mp hfilter
    refine ⟨List.isPrefixOf_iff_prefix.mp hunder, filename, ?_, hpath⟩
    rw [get_eq_some_iff.mpr hmem]
    rfl
  · rintro ⟨hunder, filename, hget, hpath⟩
    obtain ⟨stored, hstored⟩ := isSome_iff_exists.mp hget
    refine ⟨(filename, stored), get_eq_some_iff.mp hstored, ?_⟩
    exact filter_eq_some_iff.mpr
      ⟨hpath, isPrefixOf_iff_prefix.mpr hunder⟩

/-- The file of a listed path has its old name, or a readable one that is its
name. -/
theorem Snippet.Written.listed (h : snippet.Written) {scope filename path : Str}
    (hunder : trimStartMatches '/' scope <+: path)
    (hget : (snippet.get filename).isSome = true)
    (hpath : giteeRemotePath filename scope = some path) :
    filename = giteeLegacyRemoteFilename path ∨
      filename = giteeRemoteFilename path ∧ ∃ sync, SyncName filename sync := by
  obtain ⟨stored, hstored⟩ := isSome_iff_exists.mp hget
  have hlegacy : ∀ old, giteeLegacyRemoteFilename old = filename →
      filename = giteeLegacyRemoteFilename path := by
    rintro old rfl
    rw [remotePath_legacy, some.injEq] at hpath
    rw [hpath]
  rcases h _ (get_eq_some_iff.mp hstored) with
    heq | ⟨⟨named, heq⟩ | ⟨old, heq⟩, -⟩
  · change filename = readmeFilename at heq
    rw [heq, remotePath_readme] at hpath
    cases hpath
  · change giteeRemoteFilename named = filename at heq
    rcases remoteFilename_cases named with hsame | ⟨sync, hname⟩
    · exact .inl (hlegacy named (hsame.symm.trans heq))
    · rw [heq] at hname
      rw [giteeRemotePath, semanticPath_eq_some.mpr hname, some.injEq] at hpath
      subst hpath
      have hsemantic := semanticFilename_scoped hname hunder
      refine .inr ⟨?_, sync, hname⟩
      rw [giteeRemoteFilename, hsemantic]
      rfl
  · exact .inl (hlegacy old heq)

theorem Snippet.Written.objectMap (h : snippet.Written) :
    ObjectMap shown snippet where
  existsIffRead := by
    intro path
    rw [existsAt_eq, readIfExists_eq]
    have hname := remoteFilename_ne_readme path
    have hlegacy := legacy_ne_readme path
    cases hget : snippet.get (giteeRemoteFilename path) with
    | some stored =>
      obtain ⟨content, rfl⟩ := h.encoded hname hget
      simp [decode_encoded, Except.map]
    | none =>
      cases hold : snippet.get (giteeLegacyRemoteFilename path) with
      | some stored =>
        obtain ⟨content, rfl⟩ := h.encoded hlegacy hold
        simp [decode_encoded, Except.map]
      | none => simp
  readWritten := by
    intro path other content hsame
    rw [SameObject] at hsame
    rw [readIfExists_eq, Snippet.write, get_insert, if_pos hsame]
    simp [decode_encoded, Except.map]
  readOther := by
    intro path other content hother
    rw [SameObject] at hother
    have hlegacy := legacy_ne_of_ne hother
    rw [readIfExists_eq, readIfExists_eq, existsAt_eq, existsAt_eq,
      Snippet.write, get_insert, get_insert, if_neg hother,
      if_neg hlegacy]
    exact ⟨rfl, rfl⟩
  readDeleted := by
    intro path hcopy
    have hnone : (snippet.delete path).get (giteeRemoteFilename path) = none := by
      rw [Snippet.delete, get_remove, if_pos rfl]
    have hold : (snippet.delete path).get (giteeLegacyRemoteFilename path) =
        none := by
      rw [Snippet.delete, get_remove]
      by_cases hsame :
          giteeLegacyRemoteFilename path = giteeRemoteFilename path
      · rw [if_pos hsame]
      · rw [if_neg hsame]
        simpa [LegacyCopy, hsame] using hcopy
    rw [readIfExists_eq, existsAt_eq, hnone, hold]
    exact ⟨rfl, rfl⟩
  readNotDeleted := by
    intro path other hother
    rw [SameObject] at hother
    have hlegacy := legacy_ne_of_ne hother
    rw [readIfExists_eq, readIfExists_eq, existsAt_eq, existsAt_eq,
      Snippet.delete, get_remove, get_remove, if_neg hother,
      if_neg hlegacy]
    exact ⟨rfl, rfl⟩
  listed := by
    intro scope path
    rw [mem_listFiles]
    refine and_congr_right fun hunder => ?_
    constructor
    · rintro ⟨filename, hget, hpath⟩
      rcases h.listed hunder hget hpath with rfl | ⟨rfl, hname⟩
      · rw [existsAt_eq, isSome_or, hget, Bool.or_true]
        refine ⟨rfl, ?_⟩
        by_cases hsame :
            giteeLegacyRemoteFilename path = giteeRemoteFilename path
        · rw [ShownIn, ← hsame]
          exact .inl hpath
        · exact .inr ⟨hsame, hget⟩
      · rw [existsAt_eq, isSome_or, hget, Bool.true_or]
        exact ⟨rfl, .inl hpath⟩
    · rintro ⟨hexists, hshown | ⟨-, hcopy⟩⟩
      · rw [existsAt_eq, isSome_or, Bool.or_eq_true] at hexists
        rcases hexists with hget | hget
        · exact ⟨_, hget, hshown⟩
        · exact ⟨_, hget, remotePath_legacy path scope⟩
      · exact ⟨_, hcopy, remotePath_legacy path scope⟩

/-- From any contents that the program has written, through any operations:
the snippet is a map from objects to contents. -/
theorem reachable_objectMap (shown : Str → Bool) {snippet : Snippet}
    (h : store.Reachable snippet) : ObjectMap shown snippet := by
  have hwritten : snippet.Written := h.invariant (fun _ hinit => hinit)
    fun s operation t hs hstep => by
      obtain rfl := some.inj hstep
      exact hs.perform operation
  exact hwritten.objectMap

def latestPath : Str := "sync/latest.redb".toList
def movedLatestPath : Str := "moved/sync/latest.redb".toList

/-- A snippet whose pointer was written under its old name. -/
def upgraded : Snippet :=
  empty.insert (giteeLegacyRemoteFilename latestPath) (standard.encode [65])

theorem upgraded_reachable : store.Reachable upgraded := by
  apply store.reachable_of_init
  intro file hmem
  rcases mem_insert.mp hmem with rfl | ⟨-, hempty⟩
  · exact .inr ⟨.inr ⟨latestPath, rfl⟩, [65], rfl⟩
  · exact absurd hempty mem_empty

def notePath : Str := "notes/todo".toList

/-- A snapshot and a note are written, the pointer is replaced and the note
deleted. -/
def synced : Snippet :=
  (((upgraded.write syncSnapshotFile [1, 2, 3]).write notePath [9]).write
    latestPath [66]).delete notePath

theorem synced_objectMap :
    ObjectMap (fun _ => true) synced ∧
      synced.listFiles "sync/".toList = [latestPath, syncSnapshotFile] := by
  have hrun : store.runFrom upgraded [.write syncSnapshotFile [1, 2, 3],
      .write notePath [9], .listFiles [], .write latestPath [66],
      .delete notePath] = some synced := rfl
  exact ⟨reachable_objectMap (fun _ => true) (upgraded_reachable.run hrun),
    by decide +kernel⟩

/-- The old file outlives a deletion of its path.  A write to the same file of
another sync directory is read in this one, and listed in this one only. -/
theorem delete_and_write_reach_others :
    store.Reachable upgraded ∧
    (upgraded.delete latestPath).existsAt latestPath = true ∧
    (upgraded.delete latestPath).readIfExists (fun _ => true) latestPath =
      .ok (some [65]) ∧
    upgraded.readIfExists (fun _ => true) latestPath = .ok (some [65]) ∧
    (upgraded.write movedLatestPath [66]).readIfExists (fun _ => true)
      latestPath = .ok (some [66]) ∧
    (upgraded.write movedLatestPath [66]).existsAt movedLatestPath = true ∧
    movedLatestPath ∉ (upgraded.write movedLatestPath [66]).listFiles [] := by
  refine ⟨upgraded_reachable, ?_⟩
  decide +kernel

end NiceTerm.Gitee
