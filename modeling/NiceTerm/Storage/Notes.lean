/-
The notes: folders, documents and the summaries that lists are made of.  Every
operation checks its part of what makes the three tables a tree of distinctly
named items.
-/
import Mathlib.Data.Char
import Mathlib.Data.List.Lex
import NiceTerm.Lib.Chain
import NiceTerm.Lib.Fallible
import NiceTerm.Lib.RustStr
import NiceTerm.Lib.Table

namespace NiceTerm.Storage

open Fallible List
open RustStr (Str)

def defaultNoteTitle : Str := "新建笔记".toList
def defaultFolderName : Str := "新建文件夹".toList
def maxNoteNameChars : Nat := 120
def noteSummaryIndexVersion : Nat := 1

structure NoteFolder where
  id : Str
  parentId : Option Str
  name : Str
  sortOrder : Int
  createdAtMs : Nat
  updatedAtMs : Nat
deriving Repr, DecidableEq

structure NoteDocument where
  id : Str
  parentId : Option Str
  title : Str
  markdown : Str
  sortOrder : Int
  revision : Nat
  createdAtMs : Nat
  updatedAtMs : Nat
deriving Repr, DecidableEq

structure NoteSummary where
  id : Str
  parentId : Option Str
  title : Str
  sortOrder : Int
  revision : Nat
  createdAtMs : Nat
  updatedAtMs : Nat
deriving Repr, DecidableEq

def NoteDocument.summary (note : NoteDocument) : NoteSummary where
  id := note.id
  parentId := note.parentId
  title := note.title
  sortOrder := note.sortOrder
  revision := note.revision
  createdAtMs := note.createdAtMs
  updatedAtMs := note.updatedAtMs

structure NotesSnapshot where
  folders : List NoteFolder
  notes : List NoteDocument

/-- The tables, and the version of the summary index. -/
structure Notes where
  folders : Table Str NoteFolder := .empty
  notes : Table Str NoteDocument := .empty
  summaries : Table Str NoteSummary := .empty
  indexVersion : Nat := 0

inductive NodeKind where
  | folder
  | note
deriving Repr, DecidableEq

/-- The node kinds by their names. -/
def NodeKind.parse (text : Str) : Option NodeKind :=
  if text = "folder".toList then some .folder
  else if text = "note".toList then some .note
  else none

def folderMissing (id : Str) : Str :=
  "Folder '".toList ++ id ++ "' does not exist".toList

def noteMissing (id : Str) : Str :=
  "Note '".toList ++ id ++ "' does not exist".toList

def nameTaken (name : Str) : Str :=
  "A note item named '".toList ++ name ++
    "' already exists in this folder".toList

def normalizeNoteName (raw : Str) : Except Str Str :=
  let value := RustStr.trim raw
  if value.isEmpty then .error "Note name cannot be empty".toList
  else if maxNoteNameChars < value.length then
    .error "Note name cannot exceed 120 characters".toList
  else if value.contains '/' || value.contains '\\' then
    .error "Note name cannot contain '/' or '\\'".toList
  else if value.any RustStr.isControl then
    .error "Note name cannot contain control characters".toList
  else .ok value

variable (folders : List NoteFolder)

def validateParentExists :
    Option Str → Except Str Unit
  | none => .ok ()
  | some parentId =>
    if folders.any fun folder => folder.id == parentId then .ok ()
    else .error (folderMissing parentId)

/-- The folder that a map by ids has; the last of several. -/
def byId (id : Str) : Option NoteFolder :=
  folders.reverse.find? fun folder => folder.id == id

theorem byId_some {folders : List NoteFolder} {id : Str} {folder : NoteFolder}
    (h : byId folders id = some folder) : folder ∈ folders ∧ folder.id = id := by
  refine ⟨List.mem_reverse.mp (mem_of_find?_eq_some h), ?_⟩
  simpa using find?_some h

def unvisited (visited : List Str) : Nat :=
  folders.countP fun folder => !visited.contains folder.id

theorem unvisited_cons {folders : List NoteFolder} {visited : List Str}
    {folder : NoteFolder} (hmem : folder ∈ folders)
    (hnew : folder.id ∉ visited) :
    unvisited folders (folder.id :: visited) < unvisited folders visited := by
  induction folders with
  | nil => cases hmem
  | cons first rest ih =>
    have hle : unvisited rest (folder.id :: visited) ≤
        unvisited rest visited := by
      apply List.countP_mono_left
      intro other _ h
      simp only [List.contains_cons, Bool.not_or, Bool.and_eq_true] at h
      exact h.2
    simp only [unvisited] at ih hle ⊢
    rw [List.countP_cons, List.countP_cons]
    by_cases heq : first.id = folder.id
    · have hvisited : visited.contains first.id = false := by
        simpa [heq] using hnew
      have hcontains : (folder.id :: visited).contains first.id = true := by
        simp [heq]
      simp only [hvisited, hcontains, Bool.not_true, Bool.not_false,
        Bool.false_eq_true, if_false, if_true]
      omega
    · have hmem' : folder ∈ rest := by
        rcases List.mem_cons.mp hmem with rfl | h
        · exact absurd rfl heq
        · exact h
      have hlt := ih hmem'
      have hsame : (folder.id :: visited).contains first.id =
          visited.contains first.id := by
        simp [heq]
      rw [hsame]
      omega

/-- The walk of `validate_not_descendant_folder` from a folder upwards. -/
def ascend (folders : List NoteFolder) (sourceId folderId : Str)
    (visited : List Str) : Except Str Unit :=
  if folderId = sourceId then
    .error "A folder cannot be moved into its descendant".toList
  else if _hseen : folderId ∈ visited then
    .error "Folder hierarchy contains a cycle".toList
  else
    match _hfolder : byId folders folderId with
    | none => .ok ()
    | some folder =>
      match folder.parentId with
      | none => .ok ()
      | some parentId =>
        ascend folders sourceId parentId (folderId :: visited)
termination_by unvisited folders visited
decreasing_by
  obtain ⟨hmem, rfl⟩ := byId_some _hfolder
  exact unvisited_cons hmem _hseen

def validateNotDescendantFolder
    (sourceId targetParentId : Str) : Except Str Unit :=
  ascend folders sourceId targetParentId []

/-- The check of the new parent of a folder. -/
def validateMoveTarget (folderId : Str) :
    Option Str → Except Str Unit
  | some parentId => validateNotDescendantFolder folders folderId parentId
  | none => .ok ()

/-- `collect_descendant_folder_ids`.  Every call but the first adds an id, so
as many calls as there are folders can be nested. -/
def collectDescendantFolderIds (folders : List NoteFolder) :
    Nat → Str → List Str → List Str
  | 0, _, collected => collected
  | depth + 1, parentId, collected =>
    folders.foldl (fun collected folder =>
      if folder.parentId = some parentId ∧ folder.id ∉ collected then
        collectDescendantFolderIds folders depth folder.id
          (folder.id :: collected)
      else collected) collected

section Names

-- the case mapping of strings
variable (toLowercase : Str → Str)

def siblingNames (folders : List NoteFolder) (notes : List NoteSummary)
    (parentId : Option Str) (exclude : Option (NodeKind × Str)) : List Str :=
  ((folders.filter fun folder => folder.parentId == parentId &&
      exclude != some (.folder, folder.id)).map fun folder =>
    toLowercase folder.name) ++
  ((notes.filter fun note => note.parentId == parentId &&
      exclude != some (.note, note.id)).map fun note =>
    toLowercase note.title)

def validateUniqueSiblingName (folders : List NoteFolder)
    (notes : List NoteSummary) (parentId : Option Str) (name : Str)
    (exclude : Option (NodeKind × Str)) : Except Str Unit :=
  if (siblingNames toLowercase folders notes parentId exclude).contains
      (toLowercase name) then
    .error (nameTaken name)
  else .ok ()

/-- The names that are tried if a name is taken. -/
def numberedNames (base : Str) : List Str :=
  (List.range' 2 9998).map fun index => base ++ ' ' :: RustStr.decimal index

def normalizeOrUniqueName (raw : Option Str) (fallback : Str)
    (names : List Str) : Except Str Str :=
  match raw with
  | some raw => do
    let name ← normalizeNoteName raw
    if names.contains (toLowercase name) then .error (nameTaken name)
    else .ok name
  | none => do
    let base ← normalizeNoteName fallback
    if !names.contains (toLowercase base) then .ok base
    else
      match (numberedNames base).find? fun candidate =>
          !names.contains (toLowercase candidate) with
      | some candidate => .ok candidate
      | none => .error "Could not generate a unique note name".toList

end Names

def i64Max : Int := 9223372036854775807

def nextSortOrderForParent
    (notes : List NoteSummary) (parentId : Option Str) : Int :=
  let orders :=
    ((folders.filter fun folder => folder.parentId == parentId).map
      NoteFolder.sortOrder) ++
    ((notes.filter fun note => note.parentId == parentId).map
      NoteSummary.sortOrder)
  min (orders.max?.getD (-1) + 1) i64Max

def nextRevision (revision : Nat) : Nat := min (revision + 1) 18446744073709551615

namespace Notes

def ensureNoteSummaryIndex (s : Notes) : Notes :=
  if noteSummaryIndexVersion ≤ s.indexVersion then s
  else
    { s with
      summaries :=
        .collect NoteDocument.id NoteDocument.summary s.notes.values
      indexVersion := noteSummaryIndexVersion }

def writeFolder (s : Notes) (folder : NoteFolder) : Notes :=
  { s with folders := s.folders.insert folder.id folder }

/-- `write_note_in_txn` and `write_note_summary_in_txn` -/
def writeNote (s : Notes) (note : NoteDocument) : Notes :=
  { s with
    notes := s.notes.insert note.id note
    summaries := s.summaries.insert note.id note.summary }

variable (toLowercase : Str → Str) (s : Notes)

/-- `create_note_folder`, behind the check of the index. -/
def createNoteFolder (id : Str) (now : Nat) (parentId name : Option Str) :
    Except Str (Notes × NoteFolder) := do
  let folders := s.folders.values
  let notes := s.summaries.values
  validateParentExists folders parentId
  let name ← normalizeOrUniqueName toLowercase name defaultFolderName
    (siblingNames toLowercase folders notes parentId none)
  let folder : NoteFolder :=
    { id, parentId, name
      sortOrder := nextSortOrderForParent folders notes parentId
      createdAtMs := now, updatedAtMs := now }
  return (s.writeFolder folder, folder)

def createNote (id : Str) (now : Nat) (parentId title markdown : Option Str) :
    Except Str (Notes × NoteDocument) := do
  let folders := s.folders.values
  let notes := s.summaries.values
  validateParentExists folders parentId
  let title ← normalizeOrUniqueName toLowercase title defaultNoteTitle
    (siblingNames toLowercase folders notes parentId none)
  let note : NoteDocument :=
    { id, parentId, title
      markdown := markdown.getD []
      sortOrder := nextSortOrderForParent folders notes parentId
      revision := 1, createdAtMs := now, updatedAtMs := now }
  return (s.writeNote note, note)

def revisionConflict (expected found : Nat) : Str :=
  "Revision conflict: expected ".toList ++ RustStr.decimal expected ++
    ", found ".toList ++ RustStr.decimal found

structure NoteUpdateResult where
  note : NoteDocument
  changed : Bool
  treeChanged : Bool

def updateNote (now : Nat) (noteId title markdown : Str)
    (expectedRevision : Nat) (force : Bool) :
    Except Str (Notes × NoteUpdateResult) := do
  let some note := s.notes.get noteId | .error (noteMissing noteId)
  if !force && note.revision != expectedRevision then
    .error (revisionConflict expectedRevision note.revision)
  else
    let title ← normalizeNoteName title
    validateUniqueSiblingName toLowercase s.folders.values s.summaries.values
      note.parentId title (some (.note, noteId))
    let changed := note.title != title || note.markdown != markdown
    let treeChanged := note.title != title
    if changed then
      let note :=
        { note with
          title, markdown
          revision := nextRevision note.revision
          updatedAtMs := now }
      return (s.writeNote note, ⟨note, changed, treeChanged⟩)
    else return (s, ⟨note, changed, treeChanged⟩)

structure NoteNodeChange where
  changed : Bool
  treeChanged : Bool
  folder : Option NoteFolder
  note : Option NoteSummary

/-- The folder of a change, written if it changed. -/
def folderChange (changed : Bool) (old new : NoteFolder) :
    Notes × NoteNodeChange :=
  if changed then (s.writeFolder new, ⟨true, true, some new, none⟩)
  else (s, ⟨false, false, some old, none⟩)

/-- The note of a change, written if it changed. -/
def noteChange (changed : Bool) (old new : NoteDocument) :
    Notes × NoteNodeChange :=
  if changed then (s.writeNote new, ⟨true, true, none, some new.summary⟩)
  else (s, ⟨false, false, none, some old.summary⟩)

def renameNoteNode (now : Nat) (nodeKind nodeId name : Str) :
    Except Str (Notes × NoteNodeChange) := do
  let folders := s.folders.values
  let notes := s.summaries.values
  let name ← normalizeNoteName name
  match NodeKind.parse nodeKind with
  | some .folder =>
    let some folder := folders.find? fun item => item.id == nodeId
      | .error (folderMissing nodeId)
    validateUniqueSiblingName toLowercase folders notes folder.parentId name
      (some (.folder, nodeId))
    return s.folderChange (folder.name != name) folder
      { folder with name, updatedAtMs := now }
  | some .note =>
    let some summary := notes.find? fun item => item.id == nodeId
      | .error (noteMissing nodeId)
    validateUniqueSiblingName toLowercase folders notes summary.parentId name
      (some (.note, nodeId))
    let some note := s.notes.get nodeId | .error (noteMissing nodeId)
    return s.noteChange (note.title != name) note { note with
        title := name
        revision := nextRevision note.revision
        updatedAtMs := now }
  | none => .error "Invalid note node kind".toList

def moveNoteNode (now : Nat) (nodeKind nodeId : Str) (parentId : Option Str)
    (sortOrder : Int) : Except Str (Notes × NoteNodeChange) := do
  let folders := s.folders.values
  let notes := s.summaries.values
  validateParentExists folders parentId
  match NodeKind.parse nodeKind with
  | some .folder =>
    let some folder := folders.find? fun item => item.id == nodeId
      | .error (folderMissing nodeId)
    if parentId = some nodeId then
      .error "A folder cannot be moved into itself".toList
    else
      validateMoveTarget folders nodeId parentId
      validateUniqueSiblingName toLowercase folders notes parentId
        folder.name (some (.folder, nodeId))
      return s.folderChange
        (folder.parentId != parentId || folder.sortOrder != sortOrder) folder
        { folder with parentId, sortOrder, updatedAtMs := now }
  | some .note =>
    let some summary := notes.find? fun item => item.id == nodeId
      | .error (noteMissing nodeId)
    validateUniqueSiblingName toLowercase folders notes parentId
      summary.title (some (.note, nodeId))
    let some note := s.notes.get nodeId | .error (noteMissing nodeId)
    return s.noteChange
      (note.parentId != parentId || note.sortOrder != sortOrder) note
      { note with
        parentId, sortOrder
        revision := nextRevision note.revision
        updatedAtMs := now }
  | none => .error "Invalid note node kind".toList

structure DeleteNoteNodeResult where
  folderCount : Nat
  noteCount : Nat
  ids : List Str

/-- The removals of `delete_note_node`. -/
def removeNodes (folderIds noteIds : List Str) : Notes × DeleteNoteNodeResult :=
  ({ s with
      folders := s.folders.removeIf fun id _ => folderIds.contains id
      notes := s.notes.removeIf fun id _ => noteIds.contains id
      summaries := s.summaries.removeIf fun id _ => noteIds.contains id },
    ⟨folderIds.length, noteIds.length, (folderIds ++ noteIds).mergeSort⟩)

/-- The folders a deleted folder takes with it. -/
def deletedFolderIds (nodeId : Str) : List Str :=
  (collectDescendantFolderIds s.folders.values s.folders.values.length nodeId
    []).insert nodeId

def deleteNoteNode (nodeKind nodeId : Str) :
    Except Str (Notes × DeleteNoteNodeResult) :=
  match NodeKind.parse nodeKind with
  | some .folder =>
    if !s.folders.values.any fun folder => folder.id == nodeId then
      .error (folderMissing nodeId)
    else
      let folderIds := s.deletedFolderIds nodeId
      let noteIds := (s.summaries.values.filter fun note =>
        note.parentId.any fun parent => folderIds.contains parent).map
          NoteSummary.id
      .ok (s.removeNodes folderIds noteIds)
  | some .note =>
    if !s.summaries.values.any fun note => note.id == nodeId then
      .error (noteMissing nodeId)
    else .ok (s.removeNodes [] [nodeId])
  | none => .error "Invalid note node kind".toList

end Notes

section Snapshot

/-- The loops that check the names and the ids of a snapshot. -/
def checkNames {α : Type} (id name : α → Str) (duplicate : Str) :
    List Str → List α → Except Str Unit
  | _, [] => .ok ()
  | seen, a :: rest => do
    let _ ← normalizeNoteName (name a)
    if seen.contains (id a) then
      .error ("Duplicate ".toList ++ duplicate ++ " id '".toList ++ id a ++
        ['\''])
    else checkNames id name duplicate (id a :: seen) rest

/-- The check that the parent of an item is in the snapshot. -/
def checkParent (folders : List NoteFolder) (kind id : Str) :
    Option Str → Except Str Unit
  | none => .ok ()
  | some parentId =>
    if folders.any fun folder => folder.id == parentId then .ok ()
    else
      .error (kind ++ " '".toList ++ id ++ "' has missing parent '".toList ++
        parentId ++ ['\''])

variable (toLowercase : Str → Str)

def validateNotesSnapshot (snapshot : NotesSnapshot) : Except Str Unit := do
  let summaries := snapshot.notes.map NoteDocument.summary
  checkNames NoteFolder.id NoteFolder.name "note folder".toList []
    snapshot.folders
  checkNames NoteDocument.id NoteDocument.title "note".toList [] snapshot.notes
  checkAll (fun folder : NoteFolder => do
    checkParent snapshot.folders "Note folder".toList folder.id folder.parentId
    validateMoveTarget snapshot.folders folder.id folder.parentId)
    snapshot.folders
  checkAll (fun note : NoteDocument =>
    checkParent snapshot.folders "Note".toList note.id note.parentId)
    snapshot.notes
  checkAll (fun folder : NoteFolder =>
    validateUniqueSiblingName toLowercase snapshot.folders summaries
      folder.parentId folder.name (some (.folder, folder.id))) snapshot.folders
  checkAll (fun note : NoteDocument =>
    validateUniqueSiblingName toLowercase snapshot.folders summaries
      note.parentId note.title (some (.note, note.id))) snapshot.notes

def replaceNotesSnapshot (snapshot : NotesSnapshot) : Except Str Notes := do
  validateNotesSnapshot toLowercase snapshot
  return {
    folders := .collect NoteFolder.id id snapshot.folders
    notes := .collect NoteDocument.id id snapshot.notes
    summaries := .collect NoteDocument.id NoteDocument.summary snapshot.notes
    indexVersion := noteSummaryIndexVersion }

end Snapshot

/-! What the checks of the notes say: names that are free, walks that do not
come back, and the folders below a folder. -/

/-- A folder or a note, as an item of its parent. -/
structure Item where
  kind : NodeKind
  id : Str
  parentId : Option Str
  name : Str
deriving Repr, DecidableEq

def NoteFolder.item (folder : NoteFolder) : Item :=
  ⟨.folder, folder.id, folder.parentId, folder.name⟩

def NoteDocument.item (note : NoteDocument) : Item :=
  ⟨.note, note.id, note.parentId, note.title⟩

def itemsOf (notes : List NoteDocument) : List Item :=
  folders.map NoteFolder.item ++ notes.map NoteDocument.item

def parentIn (id : Str) : Option Str :=
  (byId folders id).bind NoteFolder.parentId

section Names

variable {toLowercase : Str → Str} {notes : List NoteDocument}

theorem mem_siblingNames {folders : List NoteFolder} {parentId : Option Str}
    {exclude : Option (NodeKind × Str)} {name : Str} :
    name ∈ siblingNames toLowercase folders (notes.map NoteDocument.summary)
        parentId exclude ↔
      ∃ item ∈ itemsOf folders notes, item.parentId = parentId ∧ exclude ≠ some
        (item.kind, item.id) ∧ toLowercase item.name = name := by
  simp only [siblingNames, itemsOf, mem_append, mem_map,
    mem_filter, Bool.and_eq_true, beq_iff_eq, bne_iff_ne]
  constructor
  · rintro (⟨folder, ⟨hmem, hparent, hne⟩, hname⟩ |
      ⟨summary, ⟨⟨note, hmem, rfl⟩, hparent, hne⟩, hname⟩)
    · exact ⟨folder.item, .inl ⟨folder, hmem, rfl⟩, hparent, hne, hname⟩
    · exact ⟨note.item, .inr ⟨note, hmem, rfl⟩, hparent, hne, hname⟩
  · rintro ⟨item, ⟨folder, hmem, rfl⟩ | ⟨note, hmem, rfl⟩, hparent, hne, hname⟩
    · exact .inl ⟨folder, ⟨hmem, hparent, hne⟩, hname⟩
    · exact .inr ⟨note.summary, ⟨⟨note, hmem, rfl⟩, hparent, hne⟩, hname⟩

/-- No other item of the parent has the name. -/
def NameFree (toLowercase : Str → Str) (items : List Item) (item : Item) :
    Prop :=
  ∀ other ∈ items, other.parentId = item.parentId → toLowercase other.name =
    toLowercase item.name → other.kind = item.kind ∧ other.id = item.id

theorem nameFree_of_unique {folders : List NoteFolder}
    {item : Item}
    (h : validateUniqueSiblingName toLowercase folders
      (notes.map NoteDocument.summary) item.parentId item.name
      (some (item.kind, item.id)) = .ok ()) :
    NameFree toLowercase (itemsOf folders notes) item := by
  intro other hmem hparent hname
  rw [validateUniqueSiblingName] at h
  split at h
  · cases h
  · next hfree =>
    by_contra hne
    apply hfree
    rw [contains_iff_mem, mem_siblingNames]
    refine ⟨other, hmem, hparent, ?_, hname⟩
    intro heq
    obtain ⟨hkind, hid⟩ := Prod.mk.inj (Option.some.inj heq)
    exact hne ⟨hkind.symm, hid.symm⟩

theorem normalizeOrUniqueName_free {raw : Option Str} {fallback name : Str}
    {names : List Str}
    (h : normalizeOrUniqueName toLowercase raw fallback names = .ok name) :
    toLowercase name ∉ names := by
  cases raw with
  | some raw =>
    obtain ⟨normalized, -, h⟩ := bind_eq_ok.mp h
    split at h
    · cases h
    · next hfree =>
      obtain rfl := Except.ok.inj h
      simpa using hfree
  | none =>
    obtain ⟨base, -, h⟩ := bind_eq_ok.mp h
    split at h
    · next hfree =>
      obtain rfl := Except.ok.inj h
      simpa using hfree
    · split at h
      · next candidate hfound =>
        obtain rfl := Except.ok.inj h
        simpa using find?_some hfound
      · cases h

theorem nameFree_of_not_mem {folders : List NoteFolder}
    {item : Item}
    (h : toLowercase item.name ∉ siblingNames toLowercase folders
      (notes.map NoteDocument.summary) item.parentId none) :
    NameFree toLowercase (itemsOf folders notes) item := by
  intro other hmem hparent hname
  exfalso
  apply h
  rw [mem_siblingNames]
  exact ⟨other, hmem, hparent, by simp, hname⟩

end Names

theorem validateParentExists_some {folders : List NoteFolder}
    {parentId : Option Str} (h : validateParentExists folders parentId = .ok ())
    {id : Str} (hparent : parentId = some id) :
    ∃ folder ∈ folders, folder.id = id := by
  subst hparent
  rw [validateParentExists] at h
  split at h
  · next hany => simpa using hany
  · cases h

theorem checkParent_some {folders : List NoteFolder} {kind id : Str}
    {parentId : Option Str} (h : checkParent folders kind id parentId = .ok ())
    {parent : Str} (hparent : parentId = some parent) :
    ∃ folder ∈ folders, folder.id = parent := by
  subst hparent
  rw [checkParent] at h
  split at h
  · next hany => simpa using hany
  · cases h

/-- A walk that succeeds has not met the folder it looks for. -/
theorem not_above_of_ascend {folders : List NoteFolder} {source folderId : Str}
    {visited : List Str}
    (h : ascend folders source folderId visited = .ok ()) :
    ¬ Forest.Above (parentIn folders) folderId source := by
  fun_induction ascend folders source folderId visited with
  | case1 => cases h
  | case2 => cases h
  | case3 folderId visited hne hseen hnone =>
    intro habove
    obtain ⟨parent, hparent, -⟩ := Forest.above_head habove hne
    simp [parentIn, hnone] at hparent
  | case4 folderId visited hne hseen folder hfolder hroot =>
    intro habove
    obtain ⟨parent, hparent, -⟩ := Forest.above_head habove hne
    simp [parentIn, hfolder, hroot] at hparent
  | case5 folderId visited hne hseen folder hfolder parentId hparent ih =>
    intro habove
    obtain ⟨parent, hup, hrest⟩ := Forest.above_head habove hne
    simp only [parentIn, hfolder, Option.bind_some, hparent] at hup
    obtain rfl := Option.some.inj hup
    exact ih h hrest

section Collect

variable (folders : List NoteFolder)

/-- All children of a folder are collected. -/
def HasChildren (collected : List Str) (parentId : Str) : Prop :=
  ∀ folder ∈ folders, folder.parentId = some parentId → folder.id ∈ collected

/-- What one call adds: itself complete, and complete below everything new. -/
structure Collects (before after : List Str) (parentId : Str) : Prop where
  keeps : before ⊆ after
  children : HasChildren folders after parentId
  complete : ∀ id ∈ after, id ∉ before → HasChildren folders after id

theorem unvisited_mono {folders : List NoteFolder} {fewer more : List Str}
    (h : fewer ⊆ more) : unvisited folders more ≤ unvisited folders fewer := by
  apply countP_mono_left
  intro folder _ hnew
  simp only [Bool.not_eq_true', contains_eq_mem,
    decide_eq_false_iff_not] at hnew ⊢
  exact fun hmem => hnew (h hmem)

theorem HasChildren.mono {folders : List NoteFolder} {fewer more : List Str}
    (h : fewer ⊆ more) {parentId : Str}
    (hchildren : HasChildren folders fewer parentId) :
    HasChildren folders more parentId :=
  fun folder hmem hparent => h (hchildren folder hmem hparent)

/-- The loop over the folders, given what the calls in it do. -/
theorem collect_loop {depth : Nat} (parentId : Str)
    (hcall : ∀ id collected, unvisited folders collected ≤ depth →
      Collects folders collected
        (collectDescendantFolderIds folders depth id collected) id)
    (part : List NoteFolder) (hpart : part ⊆ folders) (collected : List Str)
    (hleft : unvisited folders collected ≤ depth + 1) :
    let after := part.foldl (fun collected folder =>
      if folder.parentId = some parentId ∧ folder.id ∉ collected then
        collectDescendantFolderIds folders depth folder.id
          (folder.id :: collected)
      else collected) collected
    collected ⊆ after ∧
      (∀ folder ∈ part, folder.parentId = some parentId → folder.id ∈ after) ∧
      ∀ id ∈ after, id ∉ collected → HasChildren folders after id := by
  induction part generalizing collected with
  | nil =>
    refine ⟨fun _ h => h, fun folder hmem => ?_, fun id h hnew => ?_⟩
    · cases hmem
    · exact absurd h hnew
  | cons folder rest ih =>
    have hrest : rest ⊆ folders := fun other hmem =>
      hpart (mem_cons_of_mem folder hmem)
    rw [foldl_cons]
    by_cases htake : folder.parentId = some parentId ∧ folder.id ∉ collected
    · rw [if_pos htake]
      have hfewer := unvisited_cons (hpart mem_cons_self) htake.2
      have hsub := hcall folder.id (folder.id :: collected) (by omega)
      have hleft' : unvisited folders _ ≤ unvisited folders _ :=
        unvisited_mono hsub.keeps
      obtain ⟨hkeeps, hchildren, hcomplete⟩ := ih hrest
        (collectDescendantFolderIds folders depth folder.id
          (folder.id :: collected)) (by omega)
      have hmine := hkeeps (hsub.keeps mem_cons_self)
      refine ⟨fun id h => hkeeps (hsub.keeps (mem_cons_of_mem _ h)),
        fun other hmem hparent => ?_, fun id h hnew => ?_⟩
      · rcases mem_cons.mp hmem with rfl | hmem
        · exact hmine
        · exact hchildren other hmem hparent
      · -- new ids come from this call or from a later one
        by_cases hlater : id ∈ collectDescendantFolderIds folders depth
            folder.id (folder.id :: collected)
        · by_cases hself : id = folder.id
          · exact hself ▸ hsub.children.mono hkeeps
          · refine (hsub.complete id hlater ?_).mono hkeeps
            simp [hself, hnew]
        · exact hcomplete id h hlater
    · rw [if_neg htake]
      obtain ⟨hkeeps, hchildren, hcomplete⟩ := ih hrest collected hleft
      refine ⟨hkeeps, fun other hmem hparent => ?_, hcomplete⟩
      rcases mem_cons.mp hmem with rfl | hmem
      · by_contra hnot
        exact htake ⟨hparent, fun h => hnot (hkeeps h)⟩
      · exact hchildren other hmem hparent

/-- Nested as deep as there are folders left, the calls collect all there is
below a folder. -/
theorem collects (depth : Nat) (parentId : Str) (collected : List Str)
    (hleft : unvisited folders collected ≤ depth) :
    Collects folders collected
      (collectDescendantFolderIds folders depth parentId collected)
      parentId := by
  induction depth generalizing parentId collected with
  | zero =>
    rw [collectDescendantFolderIds]
    refine ⟨fun _ h => h, fun folder hmem _ => ?_,
      fun id h hnew => absurd h hnew⟩
    have hnone := countP_eq_zero.mp (Nat.le_zero.mp hleft) folder hmem
    simpa using hnone
  | succ depth ih =>
    rw [collectDescendantFolderIds]
    obtain ⟨hkeeps, hchildren, hcomplete⟩ := collect_loop folders parentId
      ih folders (fun _ h => h) collected hleft
    exact ⟨hkeeps, hchildren, hcomplete⟩

end Collect

/-- The folders a deleted folder takes with it have all their children. -/
theorem deletedFolderIds_closed (s : Notes) (nodeId : Str) :
    ∀ id ∈ s.deletedFolderIds nodeId,
      HasChildren s.folders.values (s.deletedFolderIds nodeId) id := by
  have hall := collects s.folders.values s.folders.values.length nodeId []
    (countP_le_length)
  intro id hmem
  have hkeep : collectDescendantFolderIds s.folders.values
      s.folders.values.length nodeId [] ⊆ s.deletedFolderIds nodeId :=
    fun _ h => mem_insert_of_mem h
  rcases mem_insert_iff.mp hmem with rfl | hcollected
  · exact hall.children.mono hkeep
  · exact (hall.complete id hcollected not_mem_nil).mono hkeep

end NiceTerm.Storage
