/-
What a directory download or copy collects before it starts: the inventory of
the SFTP backend, and the count and the walk of the basic SCP backend.  All
three go down into a link when it leads to a directory.
-/
import NiceTerm.Lib.Unfolding
import NiceTerm.Sftp.Downloads
import NiceTerm.Sftp.RemovalGuard

namespace NiceTerm.Sftp.Inventory

open RustStr (Str)

variable {Dir Place : Type}

/-- A link is told apart by the directory it leads to, if it leads to one. -/
inductive FileType (Dir : Type)
  | file
  | directory (dir : Dir)
  | symlink (target : Option Dir)
  | other

structure DirEntry (Dir : Type) where
  name : Str
  fileType : FileType Dir
  size : Option Nat
  mtime : Option Nat

namespace DirEntry

def isDir (entry : DirEntry Dir) : Bool :=
  match entry.fileType with
  | .directory _ => true
  | _ => false

def isSymlink (entry : DirEntry Dir) : Bool :=
  match entry.fileType with
  | .symlink _ => true
  | _ => false

/-- The directory that the path of the entry names. -/
def leadsTo (entry : DirEntry Dir) : Option Dir :=
  match entry.fileType with
  | .directory dir => some dir
  | .symlink target => target
  | _ => none

end DirEntry

/-- The path of an entry, as the basic SCP backend writes it. -/
def childPath (path name : Str) : Str :=
  RustStr.trimEndMatches '/' path ++ '/' :: name

/-- A remote file system: what is read in each directory, and which directory
a path names when links are followed.  A server that gives up after some links
has a directory in several forms, one for each number of links behind it;
`place` is the directory itself. -/
structure RemoteServer (Dir Place : Type) where
  place : Dir → Place
  readDir : Dir → List (DirEntry Dir)
  resolve : Str → Option Dir
  named : ∀ dir, ∀ entry ∈ readDir dir, entry.name ≠ [] ∧ '/' ∉ entry.name
  distinct : ∀ dir, ((readDir dir).map (·.name)).Nodup
  below : ∀ path dir, resolve path = some dir → ∀ entry ∈ readDir dir,
    resolve (childPath path entry.name) = entry.leadsTo

/-- How a function stops without a result. -/
inductive Halt
  | outOfFuel
  | noSuchDirectory
deriving DecidableEq, Repr

structure RemoteDirectoryFile where
  remotePath : Str
  localPath : LocalPath
  size : Nat
  mtime : Option Nat
deriving DecidableEq, Repr

def saturatingAdd (a b : Nat) : Nat := min (a + b) 18446744073709551615

def joinRemoteChild (parent name : Str) : Str :=
  if parent = ['/'] then '/' :: name else parent ++ '/' :: name

variable (server : RemoteServer Dir Place) (windows : Bool)

/-- One turn of the loop over the entries; `inner` is the call for a directory
below. -/
def visitEntry
    (inner : Str → LocalPath → Except Halt (List RemoteDirectoryFile × Nat))
    (remotePath : Str) (localPath : LocalPath)
    (found : List RemoteDirectoryFile × Nat) (entry : DirEntry Dir) :
    Except Halt (List RemoteDirectoryFile × Nat) :=
  let childRemote :=
    joinRemoteChild (normalizeRemoteDirPath remotePath) entry.name
  let childLocal := appendSafeLocalChildPath windows localPath entry.name
  let isSymlinkToDir :=
    entry.isSymlink && (server.resolve childRemote).isSome
  if entry.isDir || isSymlinkToDir then do
    let (childFiles, childSize) ← inner childRemote childLocal
    pure (found.1 ++ childFiles, saturatingAdd found.2 childSize)
  else if !entry.isSymlink then
    let size := entry.size.getD 0
    pure (found.1 ++ [⟨childRemote, childLocal, size, entry.mtime⟩],
      saturatingAdd found.2 size)
  else pure found

def collectRemoteDirectoryInventory :
    Nat → Str → LocalPath → Except Halt (List RemoteDirectoryFile × Nat)
  | 0, _, _ => .error .outOfFuel
  | fuel + 1, remotePath, localPath =>
    match server.resolve remotePath with
    | none => .error .noSuchDirectory
    | some dir =>
      (server.readDir dir).foldlM
        (visitEntry server windows (collectRemoteDirectoryInventory fuel)
          remotePath localPath) ([], 0)

/-! The basic SCP backend. -/

/-- The `is_dir` of a listed entry: a link is tested by its path. -/
def listedAsDir (path : Str) (entry : DirEntry Dir) : Bool :=
  if entry.isSymlink then (server.resolve (childPath path entry.name)).isSome
  else entry.isDir

/-- The loop over the entries of one directory. -/
def countEntries (path : Str) :
    List (DirEntry Dir) → List Str → Nat → List Str × Nat
  | [], stack, count => (stack, count)
  | entry :: rest, stack, count =>
    if listedAsDir server path entry then
      countEntries path rest (childPath path entry.name :: stack) count
    else if !entry.isSymlink then countEntries path rest stack (count + 1)
    else countEntries path rest stack count

/-- `count_remote_files`; the top of the stack comes first. -/
def countRemoteFiles : Nat → List Str → Nat → Except Halt Nat
  | 0, _, _ => .error .outOfFuel
  | _ + 1, [], count => .ok count
  | fuel + 1, path :: stack, count =>
    match server.resolve path with
    | none => .error .noSuchDirectory
    | some dir =>
      let counted :=
        countEntries server path (server.readDir dir) stack count
      countRemoteFiles fuel counted.1 counted.2

/-- The files that are downloaded one by one. -/
abbrev Downloaded := List (Str × LocalPath)

def downloadEntry
    (inner : Str → LocalPath → Downloaded → Except Halt Downloaded)
    (remotePath : Str) (localPath : LocalPath) (done : Downloaded)
    (entry : DirEntry Dir) : Except Halt Downloaded :=
  let childRemote := childPath remotePath entry.name
  let childLocal := appendSafeLocalChildPath windows localPath entry.name
  if listedAsDir server remotePath entry then inner childRemote childLocal done
  else if !entry.isSymlink then pure (done ++ [(childRemote, childLocal)])
  else pure done

def downloadRemoteDirectory :
    Nat → Str → LocalPath → Downloaded → Except Halt Downloaded
  | 0, _, _, _ => .error .outOfFuel
  | fuel + 1, remotePath, localPath, done =>
    match server.resolve remotePath with
    | none => .error .noSuchDirectory
    | some dir =>
      (server.readDir dir).foldlM
        (downloadEntry server windows (downloadRemoteDirectory fuel)
          remotePath localPath) done

end NiceTerm.Sftp.Inventory

/-! Which remote file systems the directory inventories come to an end on, and
what they list there. A link may lead to any directory, so what is walked is a
graph. -/

namespace NiceTerm.Sftp.Inventory

open List Option
open RustStr (Str)
open Unfolding (Item listItems visited)

variable {Dir Place : Type}

/-! The file system as a graph. -/

def itemOf (entry : DirEntry Dir) : Item Dir (DirEntry Dir) :=
  match entry.fileType with
  | .directory dir => .child dir
  | .symlink (some dir) => .child dir
  | .symlink none => .skipped
  | _ => .leaf entry

/-- Directories with what can be walked into below them. -/
def tree (server : RemoteServer Dir Place) :
    Unfolding Dir Str (DirEntry Dir) where
  items dir := (server.readDir dir).map fun entry => (entry.name, itemOf entry)

/-- A way down that follows no link. -/
inductive DirectoryWalk (server : RemoteServer Dir Place) :
    Dir → List Str → Dir → Prop
  | stay (dir : Dir) : DirectoryWalk server dir [] dir
  | go {dir next last : Dir} {names : List Str} {entry : DirEntry Dir}
      (hentry : entry ∈ server.readDir dir)
      (htype : entry.fileType = .directory next)
      (rest : DirectoryWalk server next names last) :
      DirectoryWalk server dir (entry.name :: names) last

/-- What a list of files is to be: `record` makes a file of the names that
lead to an entry, and `path` is its remote path. -/
structure Inventoried {File : Type} (server : RemoteServer Dir Place)
    (root : Dir) (path : File → Str) (record : List Str → DirEntry Dir → File)
    (files : List File) : Prop where
  once : (files.map path).Nodup
  complete : ∀ names dir entry, DirectoryWalk server root names dir →
    entry ∈ server.readDir dir → entry.fileType = .file →
    record (names ++ [entry.name]) entry ∈ files
  sound : ∀ file ∈ files, ∃ steps dir entry,
    (tree server).Walk root steps dir ∧ entry ∈ server.readDir dir ∧
      file = record (steps.map Prod.fst ++ [entry.name]) entry
  noRound : ∀ steps dir entry, (tree server).Walk root steps dir →
    entry ∈ server.readDir dir → itemOf entry = .leaf entry →
    record (steps.map Prod.fst ++ [entry.name]) entry ∈ files →
    ((visited root steps).map server.place).Nodup

/-- No way down goes on for ever, and none that comes to the same directory
twice leads to a file. -/
structure RoundFree (server : RemoteServer Dir Place) (root : Dir) : Prop where
  acyclic : (tree server).Acyclic root
  places : ∀ steps dir entry, (tree server).Walk root steps dir →
    entry ∈ server.readDir dir → itemOf entry = .leaf entry →
    ((visited root steps).map server.place).Nodup

/-- What an entry is to the loops. -/
inductive EntryCase (entry : DirEntry Dir) : Prop
  | enters (dir : Dir) (hitem : itemOf entry = .child dir)
      (hleads : entry.leadsTo = some dir)
      (htype : entry.isDir = true ∧ entry.isSymlink = false ∨
        entry.isDir = false ∧ entry.isSymlink = true)
  | passes (hitem : itemOf entry = .skipped) (hleads : entry.leadsTo = none)
      (hdir : entry.isDir = false) (hlink : entry.isSymlink = true)
  | lists (hitem : itemOf entry = .leaf entry)
      (hdir : entry.isDir = false) (hlink : entry.isSymlink = false)

theorem entryCase (entry : DirEntry Dir) : EntryCase entry := by
  obtain ⟨name, fileType, size, mtime⟩ := entry
  cases fileType with
  | file => exact EntryCase.lists rfl rfl rfl
  | directory dir => exact EntryCase.enters dir rfl rfl (.inl ⟨rfl, rfl⟩)
  | symlink target =>
    cases target with
    | none => exact EntryCase.passes rfl rfl rfl rfl
    | some dir => exact EntryCase.enters dir rfl rfl (.inr ⟨rfl, rfl⟩)
  | other => exact EntryCase.lists rfl rfl rfl

variable {dir : Dir} {entry : DirEntry Dir}

theorem mem_items {server : RemoteServer Dir Place} {name : Str} :
    (name, .leaf entry) ∈ (tree server).items dir ↔
      entry ∈ server.readDir dir ∧ name = entry.name ∧
        itemOf entry = .leaf entry := by
  rw [tree, List.mem_map]
  constructor
  · rintro ⟨other, hmem, heq⟩
    obtain ⟨hname, hitem⟩ := Prod.mk.inj heq
    have hcase := entryCase other
    cases hcase with
    | enters dir h => exact absurd (h.symm.trans hitem) (by simp)
    | passes h => exact absurd (h.symm.trans hitem) (by simp)
    | lists h =>
      obtain rfl := Item.leaf.inj (h.symm.trans hitem)
      exact ⟨hmem, hname.symm, h⟩
  · rintro ⟨hmem, rfl, hitem⟩
    exact ⟨entry, hmem, Prod.ext rfl hitem⟩

theorem leadsTo_of_item {server : RemoteServer Dir Place} {next : Dir}
    {name : Str} (h : (name, .child next) ∈ (tree server).items dir) :
    ∃ entry ∈ server.readDir dir, entry.leadsTo = some next := by
  rw [tree, List.mem_map] at h
  obtain ⟨entry, hentry, heq⟩ := h
  have hitem := (Prod.mk.inj heq).2
  refine ⟨entry, hentry, ?_⟩
  cases entryCase entry with
  | enters dir h hleads =>
    rw [hleads, Item.child.inj (h.symm.trans hitem)]
  | passes h => exact absurd (h.symm.trans hitem) (by simp)
  | lists h => exact absurd (h.symm.trans hitem) (by simp)

/-! Paths. -/

theorem trimEnd_eq_self {text : Str}
    (h : ∀ c, text.getLast? = some c → c ≠ '/') :
    RustStr.trimEndMatches '/' text = text := by
  rw [RustStr.trimEndMatches]
  cases hreverse : text.reverse with
  | nil =>
    rw [dropWhile_nil, reverse_nil]
    exact (reverse_eq_nil_iff.mp hreverse).symm
  | cons c rest =>
    have hlast : text.getLast? = some c := by
      rw [← head?_reverse, hreverse]
      rfl
    rw [dropWhile_cons_of_neg, ← hreverse, reverse_reverse]
    simp [h c hlast]

theorem getLast_trimEnd (text : Str) {c : Char}
    (h : (RustStr.trimEndMatches '/' text).getLast? = some c) : c ≠ '/' := by
  rw [RustStr.trimEndMatches, getLast?_reverse] at h
  rintro rfl
  have hfirst := head?_dropWhile_not (· == '/') text.reverse
  rw [h] at hfirst
  simp at hfirst

/-- The SFTP backend writes the same paths. -/
theorem joinRemoteChild_eq (path name : Str) :
    joinRemoteChild (normalizeRemoteDirPath path) name =
      childPath path name := by
  rw [joinRemoteChild, normalizeRemoteDirPath, childPath]
  by_cases hroot : path = ['/']
  · rw [if_pos hroot, if_pos rfl, hroot]
    rfl
  · rw [if_neg hroot, if_neg]
    intro hslash
    have hlast := getLast_trimEnd path (c := '/')
    rw [hslash] at hlast
    exact hlast rfl rfl

/-- A name that is one component of a path. -/
def Component (name : Str) : Prop := name ≠ [] ∧ '/' ∉ name

theorem childPath_child {name : Str} (hname : Component name)
    (front : Str) (next : Str) :
    childPath (front ++ '/' :: name) next =
      front ++ '/' :: name ++ '/' :: next := by
  rw [childPath, trimEnd_eq_self]
  rintro c hlast rfl
  rw [getLast?_append_of_ne_nil _ (cons_ne_nil _ _),
    getLast?_cons_of_ne_nil hname.1] at hlast
  exact hname.2 (mem_of_getLast? hlast)

variable {names : List Str}

theorem foldl_childPath (hnames : ∀ name ∈ names, Component name)
    {first : Str} (hfirst : Component first) (front : Str) :
    names.foldl childPath (front ++ '/' :: first) =
      front ++ (first :: names).flatMap fun name => '/' :: name := by
  induction names generalizing front first with
  | nil => simp
  | cons name rest ih =>
    rw [forall_mem_cons] at hnames
    rw [foldl_cons, childPath_child hfirst, ih hnames.2 hnames.1]
    simp

theorem flatMap_slash (names : List Str) :
    (names.flatMap fun name => '/' :: name) =
      ['/'].intercalate ([] :: names) := by
  induction names with
  | nil => simp
  | cons name rest ih =>
    cases rest with
    | nil => simp [List.intercalate]
    | cons next rest =>
      rw [flatMap_cons, ih, intercalate_cons_cons,
        intercalate_cons_cons, intercalate_cons_cons]
      simp

theorem foldl_childPath_inj {names' : List Str} (path : Str)
    (hnames : ∀ name ∈ names, Component name) (hne : names ≠ [])
    (hnames' : ∀ name ∈ names', Component name) (hne' : names' ≠ [])
    (h : names.foldl childPath path = names'.foldl childPath path) :
    names = names' := by
  cases names with
  | nil => exact absurd rfl hne
  | cons first rest =>
    cases names' with
    | nil => exact absurd rfl hne'
    | cons first' rest' =>
      rw [forall_mem_cons] at hnames hnames'
      rw [foldl_cons, foldl_cons] at h
      rw [childPath, foldl_childPath hnames.2 hnames.1, childPath,
        foldl_childPath hnames'.2 hnames'.1] at h
      have hsame := append_cancel_left h
      rw [flatMap_slash, flatMap_slash] at hsame
      have hsplit := congrArg (List.splitOn '/') hsame
      rw [splitOn_intercalate, splitOn_intercalate] at hsplit
      · exact (cons.inj hsplit).2
      · rintro part hpart
        rcases mem_cons.mp hpart with rfl | hpart
        · exact not_mem_nil
        · rcases mem_cons.mp hpart with rfl | hpart
          · exact hnames'.1.2
          · exact (hnames'.2 part hpart).2
      · exact cons_ne_nil _ _
      · rintro part hpart
        rcases mem_cons.mp hpart with rfl | hpart
        · exact not_mem_nil
        · rcases mem_cons.mp hpart with rfl | hpart
          · exact hnames.1.2
          · exact (hnames.2 part hpart).2
      · exact cons_ne_nil _ _

/-! What the inventory makes of a listing. -/

/-- A listing that has ended, as the functions return it. -/
def ended {α : Type} : Option α → Except Halt α
  | some result => .ok result
  | none => .error .outOfFuel

abbrev Found (Dir : Type) := Unfolding.Found Str (DirEntry Dir)

def fileAt (windows : Bool) (remotePath : Str) (localPath : LocalPath)
    (names : List Str) (entry : DirEntry Dir) : RemoteDirectoryFile :=
  ⟨names.foldl childPath remotePath,
    names.foldl (appendSafeLocalChildPath windows) localPath,
    entry.size.getD 0, entry.mtime⟩

def totalSize : List (Found Dir) → Nat
  | [] => 0
  | found :: rest => found.2.size.getD 0 + totalSize rest

def inventoryOf (windows : Bool) (remotePath : Str) (localPath : LocalPath)
    (found : List (Found Dir)) : List RemoteDirectoryFile × Nat :=
  (found.map fun found => fileAt windows remotePath localPath found.1 found.2,
    saturatingAdd 0 (totalSize found))

theorem totalSize_append (front back : List (Found Dir)) :
    totalSize (front ++ back) = totalSize front + totalSize back := by
  induction front with
  | nil => exact (Nat.zero_add _).symm
  | cons found rest ih =>
    rw [cons_append, totalSize, totalSize, ih]
    omega

theorem totalSize_under (name : Str) (found : List (Found Dir)) :
    totalSize (found.map (Unfolding.under name)) = totalSize found := by
  induction found with
  | nil => rfl
  | cons first rest ih =>
    rw [map_cons, totalSize, totalSize, ih]
    rfl

theorem saturatingAdd_total (a b : Nat) :
    saturatingAdd (saturatingAdd 0 a) b = saturatingAdd 0 (a + b) := by
  rw [saturatingAdd, saturatingAdd, saturatingAdd]
  omega

theorem saturatingAdd_totals (a b : Nat) :
    saturatingAdd (saturatingAdd 0 a) (saturatingAdd 0 b) =
      saturatingAdd 0 (a + b) := by
  rw [saturatingAdd_total, saturatingAdd, saturatingAdd, saturatingAdd]
  omega

variable {server : RemoteServer Dir Place} {windows : Bool}

variable {entries : List (DirEntry Dir)}

/-- The entries of one directory, when the calls below list what is there. -/
theorem foldlM_visitEntry {fuel : Nat} {remotePath : Str}
    (localPath : LocalPath)
    (hresolve : ∀ entry ∈ entries,
      server.resolve (childPath remotePath entry.name) = entry.leadsTo)
    (hinner : ∀ remotePath localPath dir, server.resolve remotePath = some dir
      → collectRemoteDirectoryInventory server windows fuel remotePath
          localPath =
        ended (((tree server).list fuel dir).map
          (inventoryOf windows remotePath localPath)))
    (files : List RemoteDirectoryFile) (size : Nat) :
    entries.foldlM (visitEntry server windows
          (collectRemoteDirectoryInventory server windows fuel) remotePath
          localPath) (files, saturatingAdd 0 size) =
      ended ((listItems ((tree server).list fuel)
        (entries.map fun entry => (entry.name, itemOf entry))).map
          fun found =>
            (files ++ (inventoryOf windows remotePath localPath found).1,
              saturatingAdd 0 (size + totalSize found))) := by
  induction entries generalizing files size with
  | nil =>
    rw [foldlM_nil, map_nil, listItems, map_some, ended,
      inventoryOf, map_nil, append_nil, totalSize, Nat.add_zero]
    rfl
  | cons entry rest ih =>
    rw [forall_mem_cons] at hresolve
    have hrest := ih hresolve.2
    rw [foldlM_cons, map_cons, visitEntry]
    simp only [joinRemoteChild_eq, hresolve.1]
    cases entryCase entry with
    | enters dir hitem hleads htype =>
      have henter : (entry.isDir ||
          (entry.isSymlink && entry.leadsTo.isSome)) = true := by
        rcases htype with ⟨hdir, -⟩ | ⟨-, hlink⟩
        · simp [hdir]
        · simp [hlink, hleads]
      have hchild := hinner (childPath remotePath entry.name)
        (appendSafeLocalChildPath windows localPath entry.name) dir
        (hresolve.1.trans hleads)
      rw [if_pos henter, hchild, hitem, listItems]
      cases (tree server).list fuel dir with
      | none => rfl
      | some below =>
        have hbelow : (below.map (Unfolding.under entry.name)).map
            (fun found => fileAt windows remotePath localPath found.1
              found.2) =
            below.map fun found => fileAt windows
              (childPath remotePath entry.name)
              (appendSafeLocalChildPath windows localPath entry.name)
              found.1 found.2 := by
          rw [List.map_map]
          rfl
        change (rest.foldlM _ (_, saturatingAdd _
          (saturatingAdd 0 (totalSize below)))) = _
        rw [saturatingAdd_totals, hrest]
        cases listItems ((tree server).list fuel)
            (rest.map fun entry => (entry.name, itemOf entry)) with
        | none => rfl
        | some found =>
          simp only [map_some, ended, inventoryOf, map_append, hbelow,
            totalSize_append, totalSize_under, append_assoc, Nat.add_assoc]
    | passes hitem hleads hdir hlink =>
      have hpass : ¬ (entry.isDir ||
          (entry.isSymlink && entry.leadsTo.isSome)) = true := by
        simp [hdir, hleads]
      rw [if_neg hpass, if_neg (by simp [hlink]), hitem, listItems]
      exact hrest files size
    | lists hitem hdir hlink =>
      have hlist : ¬ (entry.isDir ||
          (entry.isSymlink && entry.leadsTo.isSome)) = true := by
        simp [hdir, hlink]
      rw [if_neg hlist, if_pos (by simp [hlink]), hitem, listItems]
      change (rest.foldlM _ (_, saturatingAdd _ _)) = _
      rw [saturatingAdd_total, hrest]
      cases listItems ((tree server).list fuel)
          (rest.map fun entry => (entry.name, itemOf entry)) with
      | none => rfl
      | some found =>
        simp only [map_some, ended, inventoryOf, map_cons,
          totalSize, append_assoc, Nat.add_assoc]
        rfl

/-- The inventory is the listing of the graph, as long as there is fuel. -/
theorem collect_eq (fuel : Nat) (remotePath : Str) (localPath : LocalPath)
    (dir : Dir) (hdir : server.resolve remotePath = some dir) :
    collectRemoteDirectoryInventory server windows fuel remotePath localPath =
      ended (((tree server).list fuel dir).map
        (inventoryOf windows remotePath localPath)) := by
  induction fuel generalizing remotePath localPath dir with
  | zero => rfl
  | succ fuel ih =>
    rw [collectRemoteDirectoryInventory, hdir]
    have hentries := foldlM_visitEntry localPath
      (server.below remotePath dir hdir) ih [] 0
    simp only [nil_append, Nat.zero_add] at hentries
    exact hentries

/-! What the basic SCP backend makes of it. -/

theorem listedAsDir_enters {path : Str}
    (hresolve : server.resolve (childPath path entry.name) = entry.leadsTo)
    (hleads : entry.leadsTo = some dir)
    (htype : entry.isDir = true ∧ entry.isSymlink = false ∨
      entry.isDir = false ∧ entry.isSymlink = true) :
    listedAsDir server path entry = true := by
  rw [listedAsDir, hresolve, hleads]
  rcases htype with ⟨hdir, hlink⟩ | ⟨-, hlink⟩
  · rw [if_neg (by simp [hlink]), hdir]
  · rw [if_pos hlink]
    rfl

theorem listedAsDir_passes {path : Str}
    (hresolve : server.resolve (childPath path entry.name) = entry.leadsTo)
    (hleads : entry.leadsTo = none) (hlink : entry.isSymlink = true) :
    ¬ listedAsDir server path entry = true := by
  rw [listedAsDir, hresolve, hleads, if_pos hlink]
  exact Bool.false_ne_true

theorem listedAsDir_lists {path : Str}
    (hdir : entry.isDir = false) (hlink : entry.isSymlink = false) :
    ¬ listedAsDir server path entry = true := by
  rw [listedAsDir, if_neg (by simp [hlink]), hdir]
  exact Bool.false_ne_true

/-- The paths on the stack name the directories of the graph. -/
def Names (server : RemoteServer Dir Place) (paths : List Str)
    (dirs : List Dir) : Prop :=
  paths.map server.resolve = dirs.map some

theorem countEntries_pushItems {path : Str}
    (hresolve : ∀ entry ∈ entries,
      server.resolve (childPath path entry.name) = entry.leadsTo)
    {stack : List Str} {dirs : List Dir} (hstack : Names server stack dirs)
    (count : Nat) :
    Names server (countEntries server path entries stack count).1
        (Unfolding.pushItems (entries.map fun e => (e.name, itemOf e)) dirs
          count).1 ∧
      (countEntries server path entries stack count).2 =
        (Unfolding.pushItems (entries.map fun e => (e.name, itemOf e)) dirs
          count).2 := by
  induction entries generalizing stack dirs count with
  | nil => exact ⟨hstack, rfl⟩
  | cons entry rest ih =>
    rw [forall_mem_cons] at hresolve
    rw [countEntries, map_cons]
    cases entryCase entry with
    | enters dir hitem hleads htype =>
      rw [if_pos (listedAsDir_enters hresolve.1 hleads htype), hitem,
        Unfolding.pushItems]
      apply ih hresolve.2
      rw [Names, map_cons, map_cons, hresolve.1, hleads]
      exact congrArg (cons _) hstack
    | passes hitem hleads hdir hlink =>
      rw [if_neg (listedAsDir_passes hresolve.1 hleads hlink),
        if_neg (by simp [hlink]), hitem, Unfolding.pushItems]
      exact ih hresolve.2 hstack count
    | lists hitem hdir hlink =>
      rw [if_neg (listedAsDir_lists hdir hlink), if_pos (by simp [hlink]),
        hitem, Unfolding.pushItems]
      exact ih hresolve.2 hstack (count + 1)

theorem countRemoteFiles_eq (fuel : Nat) {stack : List Str} {dirs : List Dir}
    (hstack : Names server stack dirs) (count : Nat) :
    countRemoteFiles server fuel stack count =
      ended ((tree server).drain fuel dirs count) := by
  induction fuel generalizing stack dirs count with
  | zero => rfl
  | succ fuel ih =>
    cases dirs with
    | nil =>
      obtain rfl := map_eq_nil_iff.mp hstack
      rfl
    | cons dir dirs =>
      cases stack with
      | nil => exact absurd hstack.symm (cons_ne_nil _ _)
      | cons path stack =>
        obtain ⟨hdir, hrest⟩ := cons.inj hstack
        have hentries := countEntries_pushItems
          (server.below path dir hdir) hrest count
        rw [countRemoteFiles, hdir, Unfolding.drain]
        simp only
        rw [ih hentries.1, hentries.2]
        rfl

def downloadAt (windows : Bool) (remotePath : Str) (localPath : LocalPath)
    (names : List Str) (_ : DirEntry Dir) : Str × LocalPath :=
  (names.foldl childPath remotePath,
    names.foldl (appendSafeLocalChildPath windows) localPath)

def downloadsOf (windows : Bool) (remotePath : Str) (localPath : LocalPath)
    (found : List (Found Dir)) : Downloaded :=
  found.map fun found =>
    downloadAt windows remotePath localPath found.1 found.2

theorem downloadsOf_append (remotePath : Str) (localPath : LocalPath)
    (front back : List (Found Dir)) :
    downloadsOf windows remotePath localPath (front ++ back) =
      downloadsOf windows remotePath localPath front ++
        downloadsOf windows remotePath localPath back :=
  map_append

theorem foldlM_downloadEntry {fuel : Nat} {remotePath : Str}
    {localPath : LocalPath}
    (hresolve : ∀ entry ∈ entries,
      server.resolve (childPath remotePath entry.name) = entry.leadsTo)
    (hinner : ∀ remotePath localPath dir done,
      server.resolve remotePath = some dir →
      downloadRemoteDirectory server windows fuel remotePath localPath done =
        ended (((tree server).list fuel dir).map fun found =>
          done ++ downloadsOf windows remotePath localPath found))
    (done : Downloaded) :
    entries.foldlM (downloadEntry server windows
          (downloadRemoteDirectory server windows fuel) remotePath localPath)
        done =
      ended ((listItems ((tree server).list fuel)
        (entries.map fun entry => (entry.name, itemOf entry))).map
          fun found =>
            done ++ downloadsOf windows remotePath localPath found) := by
  induction entries generalizing done with
  | nil =>
    rw [foldlM_nil, map_nil, listItems, map_some, ended,
      downloadsOf, map_nil, append_nil]
    rfl
  | cons entry rest ih =>
    rw [forall_mem_cons] at hresolve
    have hrest := ih hresolve.2
    rw [foldlM_cons, map_cons, downloadEntry]
    cases entryCase entry with
    | enters dir hitem hleads htype =>
      have hchild := hinner (childPath remotePath entry.name)
        (appendSafeLocalChildPath windows localPath entry.name) dir done
        (hresolve.1.trans hleads)
      rw [if_pos (listedAsDir_enters hresolve.1 hleads htype), hchild,
        hitem, listItems]
      cases (tree server).list fuel dir with
      | none => rfl
      | some below =>
        have hbelow : downloadsOf windows remotePath localPath
            (below.map (Unfolding.under entry.name)) =
            downloadsOf windows (childPath remotePath entry.name)
              (appendSafeLocalChildPath windows localPath entry.name)
              below := by
          rw [downloadsOf, List.map_map]
          rfl
        change (rest.foldlM _ _) = _
        rw [hrest]
        cases listItems ((tree server).list fuel)
            (rest.map fun entry => (entry.name, itemOf entry)) with
        | none => rfl
        | some found =>
          simp only [map_some, ended, downloadsOf_append, hbelow, append_assoc]
    | passes hitem hleads hdir hlink =>
      rw [if_neg (listedAsDir_passes hresolve.1 hleads hlink),
        if_neg (by simp [hlink]), hitem, listItems]
      exact hrest done
    | lists hitem hdir hlink =>
      rw [if_neg (listedAsDir_lists hdir hlink), if_pos (by simp [hlink]),
        hitem, listItems]
      change (rest.foldlM _ _) = _
      rw [hrest]
      cases listItems ((tree server).list fuel)
          (rest.map fun entry => (entry.name, itemOf entry)) with
      | none => rfl
      | some found =>
        simp only [map_some, ended, downloadsOf, map_cons, append_assoc]
        rfl

theorem download_eq (fuel : Nat) (remotePath : Str) (localPath : LocalPath)
    (dir : Dir) (done : Downloaded)
    (hdir : server.resolve remotePath = some dir) :
    downloadRemoteDirectory server windows fuel remotePath localPath done =
      ended (((tree server).list fuel dir).map fun found =>
        done ++ downloadsOf windows remotePath localPath found) := by
  induction fuel generalizing remotePath localPath dir done with
  | zero => rfl
  | succ fuel ih =>
    rw [downloadRemoteDirectory, hdir]
    exact foldlM_downloadEntry (server.below remotePath dir hdir) ih done

/-! When the inventories end, and with what. -/

theorem DirectoryWalk.walk {last : Dir}
    (h : DirectoryWalk server dir names last) :
    ∃ steps, (tree server).Walk dir steps last ∧
      steps.map Prod.fst = names := by
  induction h with
  | stay dir => exact ⟨[], Unfolding.Walk.stay dir, rfl⟩
  | go hentry htype rest ih =>
    rename_i dir next last names entry
    obtain ⟨steps, hwalk, hnames⟩ := ih
    refine ⟨(entry.name, next) :: steps, Unfolding.Walk.go ?_ hwalk,
      congrArg (cons entry.name) hnames⟩
    have hitem : itemOf entry = .child next := by
      rw [itemOf, htype]
    rw [tree, List.mem_map]
    exact ⟨entry, hentry, by rw [hitem]⟩

theorem component_of_walk {last : Dir} {steps : List (Str × Dir)}
    (h : (tree server).Walk dir steps last) :
    ∀ name ∈ steps.map Prod.fst, Component name := by
  induction h with
  | stay => exact fun _ hmem => absurd hmem not_mem_nil
  | go hitem rest ih =>
    rw [map_cons, forall_mem_cons]
    refine ⟨?_, ih⟩
    rw [tree, List.mem_map] at hitem
    obtain ⟨entry, hentry, heq⟩ := hitem
    rw [← (Prod.mk.inj heq).1]
    exact server.named _ entry hentry

/-- What a listing without rounds is made of is inventoried. -/
theorem inventoried_of_list {File : Type} {root : Dir} {remotePath : Str}
    (path : File → Str) (record : List Str → DirEntry Dir → File)
    (hpath : ∀ names entry,
      path (record names entry) = names.foldl childPath remotePath)
    (hfree : RoundFree server root) {fuel : Nat} {found : List (Found Dir)}
    (h : (tree server).list fuel root = some found) :
    Inventoried server root path record
      (found.map fun found => record found.1 found.2) where
  once := by
    have hlabels : ∀ dir, (((tree server).items dir).map Prod.fst).Nodup := by
      intro dir
      rw [tree, List.map_map]
      exact server.distinct dir
    have hnames : ∀ one ∈ found,
        (∀ name ∈ one.1, Component name) ∧ one.1 ≠ [] := by
      intro one hone
      obtain ⟨steps, last, name, hwalk, hleaf, heq⟩ :=
        (Unfolding.mem_list h).mp hone
      rw [heq]
      refine ⟨?_, concat_ne_nil _ _⟩
      intro part hpart
      rcases mem_append.mp hpart with hpart | hpart
      · exact component_of_walk hwalk part hpart
      · obtain ⟨hentry, hname, -⟩ := mem_items.mp hleaf
        rw [mem_singleton.mp hpart, hname]
        exact server.named last one.2 hentry
    have hpaths : (found.map fun found => record found.1 found.2).map path =
        (found.map Prod.fst).map fun names =>
          names.foldl childPath remotePath := by
      rw [List.map_map, List.map_map]
      exact map_congr_left fun one _ => hpath one.1 one.2
    rw [hpaths]
    refine (Unfolding.list_nodup hlabels h).map_on ?_
    intro names hmem names' hmem' hsame
    obtain ⟨one, hone, rfl⟩ := mem_map.mp hmem
    obtain ⟨one', hone', rfl⟩ := mem_map.mp hmem'
    exact foldl_childPath_inj remotePath (hnames one hone).1 (hnames one hone).2
      (hnames one' hone').1 (hnames one' hone').2 hsame
  complete := by
    intro names dir entry hwalk hentry htype
    obtain ⟨steps, hsteps, hnames⟩ := hwalk.walk
    have hitem : itemOf entry = .leaf entry := by
      rw [itemOf, htype]
    have hmem : (names ++ [entry.name], entry) ∈ found := by
      rw [Unfolding.mem_list h]
      refine ⟨steps, dir, entry.name, hsteps, ?_, ?_⟩
      · exact mem_items.mpr ⟨hentry, rfl, hitem⟩
      · rw [hnames]
    exact mem_map_of_mem (f := fun found => record found.1 found.2) hmem
  sound := by
    intro file hfile
    obtain ⟨one, hone, rfl⟩ := mem_map.mp hfile
    obtain ⟨steps, last, name, hwalk, hleaf, heq⟩ :=
      (Unfolding.mem_list h).mp hone
    obtain ⟨hentry, hname, -⟩ := mem_items.mp hleaf
    refine ⟨steps, last, one.2, hwalk, hentry, ?_⟩
    rw [heq, hname]
  noRound steps dir entry hwalk hentry hleaf _ :=
    hfree.places steps dir entry hwalk hentry hleaf

/-- What an inventory is made of has no round in it. -/
theorem Inventoried.roundFree {File : Type} {root : Dir}
    {path : File → Str} {record : List Str → DirEntry Dir → File}
    {fuel : Nat} {found : List (Found Dir)}
    (h : Inventoried server root path record
      (found.map fun found => record found.1 found.2))
    (hfound : (tree server).list fuel root = some found)
    (hacyclic : (tree server).Acyclic root) : RoundFree server root where
  acyclic := hacyclic
  places steps dir entry hwalk hentry hleaf := by
    apply h.noRound steps dir entry hwalk hentry hleaf
    have hmem : (steps.map Prod.fst ++ [entry.name], entry) ∈ found := by
      rw [Unfolding.mem_list hfound]
      exact ⟨steps, dir, entry.name, hwalk, mem_items.mpr ⟨hentry, rfl, hleaf⟩,
        rfl⟩
    exact mem_map_of_mem (f := fun found => record found.1 found.2) hmem

theorem ended_eq_ok {α : Type} {result : Option α} {value : α}
    (h : ended result = .ok value) : result = some value := by
  cases result with
  | none => exact absurd h (by simp [ended])
  | some other => rw [Except.ok.inj h]

/-- The inventories of both backends come to an end, and list each file in its
place and none by going round, exactly when no way from the directory, through
directories and links to directories, goes on for ever or leads to a file and
comes to a directory twice. -/
theorem inventory_ends_iff [Fintype Dir] (server : RemoteServer Dir Place)
    (windows : Bool) (remotePath : Str) (localPath : LocalPath) (root : Dir)
    (hroot : server.resolve remotePath = some root) :
    ((∃ fuel files size,
        collectRemoteDirectoryInventory server windows fuel remotePath
            localPath = .ok (files, size) ∧
          Inventoried server root RemoteDirectoryFile.remotePath
            (fileAt windows remotePath localPath) files) ↔
      RoundFree server root) ∧
    ((∃ fuel turns downloaded,
        downloadRemoteDirectory server windows fuel remotePath localPath [] =
            .ok downloaded ∧
          countRemoteFiles server turns [remotePath] 0 =
            .ok downloaded.length ∧
          Inventoried server root Prod.fst
            (downloadAt windows remotePath localPath) downloaded) ↔
      RoundFree server root) := by
  have hends : (∃ fuel found, (tree server).list fuel root = some found) ↔
      (tree server).Acyclic root := Unfolding.list_ends_iff
  have hstack : Names server [remotePath] [root] :=
    congrArg (fun dir => [dir]) hroot
  refine ⟨⟨?_, ?_⟩, ⟨?_, ?_⟩⟩
  · rintro ⟨fuel, files, size, hcollect, hinventoried⟩
    rw [collect_eq fuel remotePath localPath root hroot] at hcollect
    obtain ⟨found, hfound, heq⟩ :=
      map_eq_some_iff.mp (ended_eq_ok hcollect)
    rw [← (Prod.mk.inj heq).1] at hinventoried
    exact hinventoried.roundFree hfound (hends.mp ⟨fuel, found, hfound⟩)
  · intro hfree
    obtain ⟨fuel, found, hfound⟩ := hends.mpr hfree.acyclic
    refine ⟨fuel, _, (inventoryOf windows remotePath localPath found).2, ?_,
      inventoried_of_list RemoteDirectoryFile.remotePath
        (fileAt windows remotePath localPath) (fun _ _ => rfl) hfree hfound⟩
    rw [collect_eq fuel remotePath localPath root hroot, hfound]
    rfl
  · rintro ⟨fuel, turns, downloaded, hdownload, -, hinventoried⟩
    rw [download_eq fuel remotePath localPath root [] hroot] at hdownload
    obtain ⟨found, hfound, heq⟩ :=
      map_eq_some_iff.mp (ended_eq_ok hdownload)
    rw [← heq, nil_append] at hinventoried
    exact hinventoried.roundFree hfound (hends.mp ⟨fuel, found, hfound⟩)
  · intro hfree
    obtain ⟨fuel, found, hfound⟩ := hends.mpr hfree.acyclic
    obtain ⟨turns, hturns⟩ := Unfolding.drain_of_list hfound
    refine ⟨fuel, turns, downloadsOf windows remotePath localPath found, ?_, ?_,
      inventoried_of_list Prod.fst (downloadAt windows remotePath localPath)
        (fun _ _ => rfl) hfree hfound⟩
    · rw [download_eq fuel remotePath localPath root [] hroot, hfound]
      rfl
    · rw [countRemoteFiles_eq turns hstack, hturns, downloadsOf, length_map]
      rfl

/-- Where the server follows every link, a way without an end is all there is
to avoid. -/
theorem roundFree_iff_acyclic (hplace : Function.Injective server.place)
    (root : Dir) : RoundFree server root ↔ (tree server).Acyclic root := by
  refine ⟨RoundFree.acyclic, fun hacyclic => ⟨hacyclic, ?_⟩⟩
  intro steps dir entry hwalk _ _
  exact (hacyclic steps dir hwalk).map hplace

/-! A directory with a link to another one, and one with a link to itself. -/

/-- The last component of a path. -/
def lastName (path : Str) : Str :=
  (path.reverse.takeWhile (· != '/')).reverse

theorem lastName_childPath {name : Str} (h : '/' ∉ name) (path : Str) :
    lastName (childPath path name) = name := by
  have hall : ∀ c ∈ name.reverse, (c != '/') = true := by
    intro c hc
    rw [bne_iff_ne]
    rintro rfl
    exact h (mem_reverse.mp hc)
  rw [lastName, childPath, reverse_append, reverse_cons, append_assoc,
    takeWhile_append_of_pos hall, singleton_append, takeWhile_cons_of_neg
    (by simp), append_nil, reverse_reverse]

def notes : DirEntry Dir := ⟨"notes.txt".toList, .file, some 120, none⟩

/-- A home directory with a file and a link to a shared one, in which there is
a file too. -/
def linkedEntries (isShared : Bool) : List (DirEntry Bool) :=
  if isShared then [notes]
  else [notes, ⟨"team".toList, .symlink (some true), none, none⟩]

def linkedName (name : Str) : Option Bool :=
  if name = "team".toList then some true
  else if name = "notes.txt".toList then none
  else some false

theorem linkedName_eq : ∀ dir, ∀ entry ∈ linkedEntries dir,
    '/' ∉ entry.name ∧ linkedName entry.name = entry.leadsTo := by
  decide

def linkedServer : RemoteServer Bool Bool where
  place := id
  readDir := linkedEntries
  resolve path := linkedName (lastName path)
  named := by decide
  distinct := by decide
  below path dir _ entry hentry := by
    have hentry := linkedName_eq dir entry hentry
    rw [lastName_childPath hentry.1]
    exact hentry.2

theorem linkedEntries_lead : ∀ dir, ∀ entry ∈ linkedEntries dir,
    entry.leadsTo = none ∨ dir = false ∧ entry.leadsTo = some true := by
  decide

theorem linkedServer_acyclic : (tree linkedServer).Acyclic false := by
  intro steps last hwalk
  cases hwalk with
  | stay => exact nodup_singleton false
  | go hitem rest =>
    obtain ⟨entry, hentry, hleads⟩ := leadsTo_of_item hitem
    have hnext : entry.leadsTo = some true := by
      rcases linkedEntries_lead false entry hentry with hnone | hshared
      · exact absurd (hleads.symm.trans hnone) (some_ne_none _)
      · exact hshared.2
    obtain rfl := some.inj (hleads.symm.trans hnext)
    cases rest with
    | stay =>
      rw [visited]
      simp
    | go hitem rest =>
      obtain ⟨entry, hentry, hleads⟩ := leadsTo_of_item hitem
      rcases linkedEntries_lead true entry hentry with hnone | hshared
      · exact absurd (hleads.symm.trans hnone) (some_ne_none _)
      · exact absurd hshared.1 (by decide)

theorem linkedServer_inventoried :
    ∃ fuel files size, collectRemoteDirectoryInventory linkedServer false fuel
          "/home/user".toList ["copy".toList] = .ok (files, size) ∧
        Inventoried linkedServer false RemoteDirectoryFile.remotePath
          (fileAt false "/home/user".toList ["copy".toList]) files :=
  (inventory_ends_iff linkedServer false "/home/user".toList ["copy".toList]
    false (by decide)).1.mpr
    ((roundFree_iff_acyclic Function.injective_id false).mpr
      linkedServer_acyclic)

/-- A directory with a file and a link to itself. -/
def loopEntries : List (DirEntry Unit) :=
  [notes, ⟨"loop".toList, .symlink (some ()), none, none⟩]

def loopName (name : Str) : Option Unit :=
  if name = "notes.txt".toList then none else some ()

theorem loopName_eq : ∀ entry ∈ loopEntries,
    '/' ∉ entry.name ∧ loopName entry.name = entry.leadsTo := by
  decide

def loopServer : RemoteServer Unit Unit where
  place := id
  readDir _ := loopEntries
  resolve path := loopName (lastName path)
  named := by decide
  distinct := by decide
  below path dir _ entry hentry := by
    have hentry := loopName_eq entry hentry
    rw [lastName_childPath hentry.1]
    exact hentry.2

theorem loopServer_item :
    ("loop".toList, Item.child ()) ∈ (tree loopServer).items () :=
  mem_cons_of_mem _ mem_cons_self

/-- The same directory on a server that follows one link of a path. -/
def limitedEntries (isFollowed : Bool) : List (DirEntry Bool) :=
  [notes, ⟨"loop".toList, .symlink (if isFollowed then none else some true),
    none, none⟩]

def limitedPath (path : Str) : Option Bool :=
  if path = "/home/user".toList then some false
  else if path = "/home/user/loop".toList then some true
  else none

theorem limitedPath_home : ∀ entry ∈ limitedEntries false,
    limitedPath (childPath "/home/user".toList entry.name) =
      entry.leadsTo := by
  decide

theorem limitedPath_loop : ∀ entry ∈ limitedEntries true,
    limitedPath (childPath "/home/user/loop".toList entry.name) =
      entry.leadsTo := by
  decide

def limitedServer : RemoteServer Bool Unit where
  place _ := ()
  readDir := limitedEntries
  resolve := limitedPath
  named := by decide
  distinct := by decide
  below path dir hpath := by
    rw [limitedPath] at hpath
    split at hpath
    next hhome =>
      obtain rfl := some.inj hpath
      rw [hhome]
      exact limitedPath_home
    next =>
      split at hpath
      next hloop =>
        obtain rfl := some.inj hpath
        rw [hloop]
        exact limitedPath_loop
      next => exact absurd hpath.symm (some_ne_none dir)

theorem limitedServer_item :
    ("loop".toList, Item.child true) ∈ (tree limitedServer).items false :=
  mem_cons_of_mem _ mem_cons_self

theorem limitedServer_not_roundFree : ¬ RoundFree limitedServer false := by
  intro hfree
  have hnodup := hfree.places [("loop".toList, true)] true notes
    (Unfolding.Walk.go limitedServer_item (Unfolding.Walk.stay true))
    mem_cons_self rfl
  exact absurd hnodup (by simp [visited, limitedServer])

/-- For a directory with a file and a link to itself no fuel lasts, or, where
the server gives up on the link, the file is listed by going round. -/
theorem self_link_not_inventoried :
    (∀ fuel, collectRemoteDirectoryInventory loopServer false fuel
      "/home/user".toList ["copy".toList] = .error .outOfFuel) ∧
    ¬ ∃ fuel files size,
      collectRemoteDirectoryInventory limitedServer false fuel
          "/home/user".toList ["copy".toList] = .ok (files, size) ∧
        Inventoried limitedServer false RemoteDirectoryFile.remotePath
          (fileAt false "/home/user".toList ["copy".toList]) files := by
  refine ⟨?_, ?_⟩
  · intro fuel
    rw [collect_eq fuel _ _ () (by decide)]
    cases hfound : (tree loopServer).list fuel () with
    | none => rfl
    | some found =>
      have hacyclic := Unfolding.list_ends_iff.mp ⟨fuel, found, hfound⟩
      have hloop : (tree loopServer).Walk () [("loop".toList, ())] () :=
        Unfolding.Walk.go loopServer_item (Unfolding.Walk.stay ())
      exact absurd (hacyclic _ _ hloop) (by simp [visited])
  · rintro ⟨fuel, files, size, hcollect, hinventoried⟩
    rw [collect_eq fuel _ _ false (by decide)] at hcollect
    obtain ⟨found, hfound, heq⟩ :=
      map_eq_some_iff.mp (ended_eq_ok hcollect)
    rw [← (Prod.mk.inj heq).1] at hinventoried
    exact limitedServer_not_roundFree (hinventoried.roundFree hfound
      (Unfolding.list_ends_iff.mp ⟨fuel, found, hfound⟩))

end NiceTerm.Sftp.Inventory
