/-
The notes are a tree of distinctly named items after every operation, and an
operation that fails leaves the tables as they were.
-/
import NiceTerm.Lib.Transition
import NiceTerm.Storage.Notes

namespace NiceTerm.Storage

open Fallible List Table
open RustStr (Str)
open Transition

variable {toLowercase : Str → Str}

def Notes.items (s : Notes) : List Item :=
  itemsOf s.folders.values s.notes.values

/-- There is a folder with the id. -/
def Notes.HasFolder (s : Notes) (id : Str) : Prop :=
  ∃ folder ∈ s.folders.values, folder.id = id

/-- The store's integrity, for a case mapping. -/
structure Integrity (toLowercase : Str → Str) (s : Notes) : Prop where
  folderIds : s.folders.KeyedBy NoteFolder.id
  noteIds : s.notes.KeyedBy NoteDocument.id
  folderParents : ∀ folder ∈ s.folders.values, ∀ parent,
    folder.parentId = some parent → s.HasFolder parent
  noteParents : ∀ note ∈ s.notes.values, ∀ parent,
    note.parentId = some parent → s.HasFolder parent
  acyclic : Forest.Acyclic (parentIn s.folders.values)
  siblings : ∀ item ∈ s.items, NameFree toLowercase s.items item
  summaries : s.summaries = s.notes.map NoteDocument.summary

variable {table : Table Str NoteFolder}

theorem byId_values (h : table.KeyedBy NoteFolder.id) (id : Str) :
    byId table.values id = table.get id := by
  apply Option.ext
  intro folder
  constructor
  · intro hby
    obtain ⟨hmem, rfl⟩ := byId_some hby
    exact h.mem_values.mp hmem
  · intro hget
    obtain rfl := h.key_of_get hget
    have hmem := h.mem_values.mpr hget
    cases hby : byId table.values folder.id with
    | none =>
      have hnone := find?_eq_none.mp hby folder (mem_reverse.mpr hmem)
      simp at hnone
    | some other =>
      obtain ⟨hother, hid⟩ := byId_some hby
      rw [h.eq_of_key hother hmem hid]

theorem parentIn_values (h : table.KeyedBy NoteFolder.id) (id : Str) :
    parentIn table.values id = (table.get id).bind NoteFolder.parentId := by
  rw [parentIn, byId_values h]

theorem parentIn_of_mem (h : table.KeyedBy NoteFolder.id)
    {folder : NoteFolder} (hmem : folder ∈ table.values) :
    parentIn table.values folder.id = folder.parentId := by
  rw [parentIn_values h, h.mem_values.mp hmem]
  rfl

/-- Writing an item with a free name keeps all names distinct. -/
theorem nameFree_write {items written : List Item} {item : Item}
    (hwritten : ∀ other ∈ written, other = item ∨ other ∈ items)
    (hold : ∀ other ∈ items, NameFree toLowercase items other)
    (hfree : NameFree toLowercase items item) :
    ∀ other ∈ written, NameFree toLowercase written other := by
  intro first hfirst second hsecond hparent hname
  rcases hwritten first hfirst with rfl | hfirst
  · rcases hwritten second hsecond with rfl | hsecond
    · exact ⟨rfl, rfl⟩
    · exact hfree second hsecond hparent hname
  · rcases hwritten second hsecond with rfl | hsecond
    · obtain ⟨hkind, hid⟩ := hfree first hfirst hparent.symm hname.symm
      exact ⟨hkind.symm, hid.symm⟩
    · exact hold first hfirst second hsecond hparent hname

theorem nameFree_mono {items fewer : List Item} (hsub : fewer ⊆ items)
    (hold : ∀ other ∈ items, NameFree toLowercase items other) :
    ∀ other ∈ fewer, NameFree toLowercase fewer other :=
  fun first hfirst second hsecond =>
    hold first (hsub hfirst) second (hsub hsecond)

/-- A node that is found is renamed unless it has the name. -/
theorem Notes.renameNoteNode_cases {s : Notes} {now : Nat}
    {nodeKind nodeId name : Str} {t : Notes × Notes.NoteNodeChange}
    (h : s.renameNoteNode toLowercase now nodeKind nodeId name = .ok t) :
    ∃ normalized, (∃ folder ∈ s.folders.values, folder.id = nodeId ∧
        validateUniqueSiblingName toLowercase s.folders.values
          s.summaries.values folder.parentId normalized
          (some (.folder, nodeId)) = .ok () ∧
        t = s.folderChange (folder.name != normalized) folder
          { folder with name := normalized, updatedAtMs := now }) ∨
      ∃ summary note,
        (s.summaries.values.find? fun item => item.id == nodeId) =
          some summary ∧
        s.notes.get nodeId = some note ∧
        validateUniqueSiblingName toLowercase s.folders.values
          s.summaries.values summary.parentId normalized
          (some (.note, nodeId)) = .ok () ∧
        t = s.noteChange (note.title != normalized) note { note with
            title := normalized
            revision := nextRevision note.revision
            updatedAtMs := now } := by
  obtain ⟨normalized, -, h⟩ := bind_eq_ok.mp h
  refine ⟨normalized, ?_⟩
  cases hkind : NodeKind.parse nodeKind with
  | none =>
    rw [hkind] at h
    cases h
  | some kind =>
    simp only [hkind] at h
    cases kind with
    | folder =>
      cases hfind : s.folders.values.find? fun item => item.id == nodeId with
      | none =>
        rw [hfind] at h
        cases h
      | some folder =>
        simp only [hfind] at h
        obtain ⟨⟨⟩, hunique, h⟩ := bind_eq_ok.mp h
        exact .inl ⟨folder, mem_of_find?_eq_some hfind,
          by simpa using find?_some hfind, hunique,
          (Except.ok.inj h).symm⟩
    | note =>
      cases hfind : s.summaries.values.find? fun item =>
          item.id == nodeId with
      | none =>
        rw [hfind] at h
        cases h
      | some summary =>
        simp only [hfind] at h
        obtain ⟨⟨⟩, hunique, h⟩ := bind_eq_ok.mp h
        cases hget : s.notes.get nodeId with
        | none =>
          rw [hget] at h
          cases h
        | some note =>
          simp only [hget] at h
          exact .inr ⟨summary, note, rfl, rfl, hunique, (Except.ok.inj h).symm⟩

/-- A node that is found is moved unless it is there. -/
theorem Notes.moveNoteNode_cases {s : Notes} {now : Nat}
    {nodeKind nodeId : Str} {parentId : Option Str} {sortOrder : Int}
    {t : Notes × Notes.NoteNodeChange}
    (h : s.moveNoteNode toLowercase now nodeKind nodeId parentId sortOrder =
      .ok t) :
    validateParentExists s.folders.values parentId = .ok () ∧
      ((∃ folder ∈ s.folders.values, folder.id = nodeId ∧
        validateMoveTarget s.folders.values nodeId parentId = .ok () ∧
        validateUniqueSiblingName toLowercase s.folders.values
          s.summaries.values parentId folder.name
          (some (.folder, nodeId)) = .ok () ∧
        t = s.folderChange
          (folder.parentId != parentId || folder.sortOrder != sortOrder) folder
          { folder with parentId, sortOrder, updatedAtMs := now }) ∨
      ∃ summary note,
        (s.summaries.values.find? fun item => item.id == nodeId) =
          some summary ∧
        s.notes.get nodeId = some note ∧
        validateUniqueSiblingName toLowercase s.folders.values
          s.summaries.values parentId summary.title
          (some (.note, nodeId)) = .ok () ∧
        t = s.noteChange
          (note.parentId != parentId || note.sortOrder != sortOrder) note
          { note with
            parentId, sortOrder
            revision := nextRevision note.revision
            updatedAtMs := now }) := by
  obtain ⟨⟨⟩, hparent, h⟩ := bind_eq_ok.mp h
  refine ⟨hparent, ?_⟩
  cases hkind : NodeKind.parse nodeKind with
  | none =>
    rw [hkind] at h
    cases h
  | some kind =>
    simp only [hkind] at h
    cases kind with
    | folder =>
      cases hfind : s.folders.values.find? fun item => item.id == nodeId with
      | none =>
        rw [hfind] at h
        cases h
      | some folder =>
        simp only [hfind] at h
        split at h
        · cases h
        · obtain ⟨⟨⟩, hascend, h⟩ := bind_eq_ok.mp h
          obtain ⟨⟨⟩, hunique, h⟩ := bind_eq_ok.mp h
          exact .inl ⟨folder, mem_of_find?_eq_some hfind,
            by simpa using find?_some hfind, hascend, hunique,
            (Except.ok.inj h).symm⟩
    | note =>
      cases hfind : s.summaries.values.find? fun item =>
          item.id == nodeId with
      | none =>
        rw [hfind] at h
        cases h
      | some summary =>
        simp only [hfind] at h
        obtain ⟨⟨⟩, hunique, h⟩ := bind_eq_ok.mp h
        cases hget : s.notes.get nodeId with
        | none =>
          rw [hget] at h
          cases h
        | some note =>
          simp only [hget] at h
          exact .inr ⟨summary, note, rfl, rfl, hunique, (Except.ok.inj h).symm⟩

namespace Integrity

variable {s : Notes}

theorem empty : Integrity toLowercase {} where
  folderIds := keyedBy_empty
  noteIds := keyedBy_empty
  folderParents := fun _ hmem => by cases hmem
  noteParents := fun _ hmem => by cases hmem
  acyclic := by
    rw [Forest.acyclic_iff]
    intro a b hup
    cases hup
  siblings := fun _ hmem => by cases hmem
  summaries := rfl

theorem congr {t : Notes} (h : Integrity toLowercase s)
    (hfolders : t.folders = s.folders) (hnotes : t.notes = s.notes)
    (hsummaries : t.summaries = s.summaries) : Integrity toLowercase t := by
  obtain ⟨folders, notes, summaries, version⟩ := t
  subst hfolders hnotes hsummaries
  exact ⟨h.folderIds, h.noteIds, h.folderParents, h.noteParents, h.acyclic,
    h.siblings, h.summaries⟩

theorem summaryValues (h : Integrity toLowercase s) :
    s.summaries.values = s.notes.values.map NoteDocument.summary := by
  rw [h.summaries, values_map]

theorem ensure_summaries (h : Integrity toLowercase s) :
    s.ensureNoteSummaryIndex.summaries = s.summaries := by
  rw [Notes.ensureNoteSummaryIndex]
  split
  · rfl
  · apply ext_of_mem
    rintro ⟨id, summary⟩
    have hnodup : (s.notes.values.map NoteDocument.id).Nodup :=
      Nodup.map_on (fun _ ha _ hb => h.noteIds.eq_of_key ha hb)
        h.noteIds.values_nodup
    rw [mem_collect hnodup, h.summaries, Table.mem_map]
    constructor
    · rintro ⟨note, hmem, rfl, rfl⟩
      exact ⟨note, get_eq_some_iff.mp (h.noteIds.mem_values.mp hmem), rfl⟩
    · rintro ⟨note, hmem, rfl⟩
      exact ⟨note, mem_map.mpr ⟨_, hmem, rfl⟩, h.noteIds _ hmem, rfl⟩

theorem ensure_folders (s : Notes) :
    s.ensureNoteSummaryIndex.folders = s.folders := by
  rw [Notes.ensureNoteSummaryIndex]
  split <;> rfl

theorem ensure_notes (s : Notes) :
    s.ensureNoteSummaryIndex.notes = s.notes := by
  rw [Notes.ensureNoteSummaryIndex]
  split <;> rfl

theorem ensure (h : Integrity toLowercase s) :
    Integrity toLowercase s.ensureNoteSummaryIndex :=
  h.congr (ensure_folders s) (ensure_notes s) h.ensure_summaries

variable {id : Str}

theorem hasFolder_write (h : Integrity toLowercase s) (folder : NoteFolder)
    (hfolder : s.HasFolder id) : (s.writeFolder folder).HasFolder id := by
  obtain ⟨other, hmem, hid⟩ := hfolder
  by_cases heq : other.id = folder.id
  · exact ⟨folder, h.folderIds.mem_insert.mpr (.inl rfl), heq ▸ hid⟩
  · exact ⟨other, h.folderIds.mem_insert.mpr (.inr ⟨heq, hmem⟩), hid⟩

/-- A folder may be written below a parent that is not below it. -/
theorem writeFolder (h : Integrity toLowercase s) {folder : NoteFolder}
    (hparent : ∀ parent, folder.parentId = some parent → s.HasFolder parent)
    (habove : ∀ parent, folder.parentId = some parent →
      ¬ Forest.Above (parentIn s.folders.values) parent folder.id)
    (hname : NameFree toLowercase s.items folder.item) :
    Integrity toLowercase (s.writeFolder folder) where
  folderIds := h.folderIds.insert folder
  noteIds := h.noteIds
  folderParents := by
    intro other hmem parent hother
    apply h.hasFolder_write
    rcases h.folderIds.mem_insert.mp hmem with rfl | ⟨-, hmem⟩
    · exact hparent parent hother
    · exact h.folderParents other hmem parent hother
  noteParents := fun note hmem parent hnote =>
    h.hasFolder_write folder (h.noteParents note hmem parent hnote)
  acyclic := by
    have hwritten := h.folderIds.insert folder
    apply @Forest.Acyclic.move _ _ _ h.acyclic folder.id
    · intro id hne parent hup
      rw [Notes.writeFolder, parentIn_values hwritten, get_insert,
        if_neg hne] at hup
      rw [parentIn_values h.folderIds]
      exact hup
    · intro parent hup
      rw [Notes.writeFolder, parentIn_values hwritten, get_insert,
        if_pos rfl] at hup
      exact habove parent hup
  siblings := by
    refine nameFree_write ?_ h.siblings hname
    intro item hmem
    rcases mem_append.mp hmem with hfolder | hnote
    · obtain ⟨other, hother, rfl⟩ := mem_map.mp hfolder
      rcases h.folderIds.mem_insert.mp hother with rfl | ⟨-, hother⟩
      · exact .inl rfl
      · exact .inr (mem_append_left _ (mem_map_of_mem hother))
    · exact .inr (mem_append_right _ hnote)
  summaries := h.summaries

variable {note : NoteDocument}

theorem writeNote (h : Integrity toLowercase s)
    (hparent : ∀ parent, note.parentId = some parent → s.HasFolder parent)
    (hname : NameFree toLowercase s.items note.item) :
    Integrity toLowercase (s.writeNote note) where
  folderIds := h.folderIds
  noteIds := h.noteIds.insert note
  folderParents := h.folderParents
  noteParents := by
    intro other hmem parent hother
    rcases h.noteIds.mem_insert.mp hmem with rfl | ⟨-, hmem⟩
    · exact hparent parent hother
    · exact h.noteParents other hmem parent hother
  acyclic := h.acyclic
  siblings := by
    refine nameFree_write ?_ h.siblings hname
    intro item hmem
    rcases mem_append.mp hmem with hfolder | hnote
    · exact .inr (mem_append_left _ hfolder)
    · obtain ⟨other, hother, rfl⟩ := mem_map.mp hnote
      rcases h.noteIds.mem_insert.mp hother with rfl | ⟨-, hother⟩
      · exact .inl rfl
      · exact .inr (mem_append_right _ (mem_map_of_mem hother))
  summaries := by
    change s.summaries.insert note.id note.summary =
      (s.notes.insert note.id note).map NoteDocument.summary
    rw [h.summaries, map_insert]

theorem not_above_fresh (h : Integrity toLowercase s) {parent : Str}
    (hfresh : ¬ s.HasFolder id) (hparent : s.HasFolder parent) :
    ¬ Forest.Above (parentIn s.folders.values) parent id := by
  intro habove
  rcases Relation.ReflTransGen.cases_tail habove with rfl | ⟨child, -, hup⟩
  · exact hfresh hparent
  · change parentIn s.folders.values child = some id at hup
    rw [parentIn_values h.folderIds] at hup
    obtain ⟨folder, hget, hid⟩ := Option.bind_eq_some_iff.mp hup
    have hmem : folder ∈ s.folders.values :=
      mem_map.mpr ⟨_, get_eq_some_iff.mp hget, rfl⟩
    exact hfresh (h.folderParents folder hmem id hid)

theorem not_above_parent (h : Integrity toLowercase s) {folder : NoteFolder}
    (hmem : folder ∈ s.folders.values) {parent : Str}
    (hparent : folder.parentId = some parent) :
    ¬ Forest.Above (parentIn s.folders.values) parent folder.id := by
  apply Forest.acyclic_iff.mp h.acyclic
  rw [parentIn_of_mem h.folderIds hmem, hparent]

variable {now : Nat} {parentId : Option Str}

section

variable (h : Integrity toLowercase s)
include h

theorem createNoteFolder {name : Option Str}
    {t : Notes × NoteFolder} (hfresh : ¬ s.HasFolder id)
    (hcreate : s.createNoteFolder toLowercase id now parentId name = .ok t) :
    Integrity toLowercase t.1 := by
  obtain ⟨⟨⟩, hparent, hcreate⟩ := bind_eq_ok.mp hcreate
  obtain ⟨unique, hunique, hcreate⟩ := bind_eq_ok.mp hcreate
  obtain rfl := Except.ok.inj hcreate
  have hexists : ∀ parent, parentId = some parent → s.HasFolder parent :=
    fun parent => validateParentExists_some hparent
  apply h.writeFolder hexists
  · exact fun parent hsome => h.not_above_fresh hfresh (hexists parent hsome)
  · rw [h.summaryValues] at hunique
    exact nameFree_of_not_mem (normalizeOrUniqueName_free hunique)

theorem createNote
    {title markdown : Option Str} {t : Notes × NoteDocument}
    (hcreate : s.createNote toLowercase id now parentId title markdown =
      .ok t) :
    Integrity toLowercase t.1 := by
  obtain ⟨⟨⟩, hparent, hcreate⟩ := bind_eq_ok.mp hcreate
  obtain ⟨unique, hunique, hcreate⟩ := bind_eq_ok.mp hcreate
  obtain rfl := Except.ok.inj hcreate
  apply h.writeNote fun parent => validateParentExists_some hparent
  rw [h.summaryValues] at hunique
  exact nameFree_of_not_mem (normalizeOrUniqueName_free hunique)

theorem note_of_get (hget : s.notes.get id = some note) :
    note ∈ s.notes.values ∧ note.id = id :=
  ⟨mem_map.mpr ⟨_, get_eq_some_iff.mp hget, rfl⟩, h.noteIds.key_of_get hget⟩

theorem rewriteNote {new : NoteDocument}
    (hmem : note ∈ s.notes.values) (hid : new.id = note.id)
    (hparent : new.parentId = note.parentId)
    (hunique : validateUniqueSiblingName toLowercase s.folders.values
      s.summaries.values note.parentId new.title (some (.note, note.id)) =
        .ok ()) :
    Integrity toLowercase (s.writeNote new) := by
  rw [h.summaryValues, ← hid, ← hparent] at hunique
  apply h.writeNote
  · intro parent hnew
    exact h.noteParents note hmem parent (hparent ▸ hnew)
  · exact nameFree_of_unique hunique

theorem updateNote
    {noteId title markdown : Str} {expectedRevision : Nat} {force : Bool}
    {t : Notes × Notes.NoteUpdateResult}
    (hupdate : s.updateNote toLowercase now noteId title markdown
      expectedRevision force = .ok t) :
    Integrity toLowercase t.1 := by
  rw [Notes.updateNote] at hupdate
  cases hget : s.notes.get noteId with
  | none =>
    rw [hget] at hupdate
    cases hupdate
  | some note =>
    obtain ⟨hmem, rfl⟩ := h.note_of_get hget
    simp only [hget] at hupdate
    split at hupdate
    · cases hupdate
    · obtain ⟨normalized, -, hupdate⟩ := bind_eq_ok.mp hupdate
      obtain ⟨⟨⟩, hunique, hupdate⟩ := bind_eq_ok.mp hupdate
      split at hupdate
      · obtain rfl := Except.ok.inj hupdate
        exact h.rewriteNote hmem rfl rfl hunique
      · obtain rfl := Except.ok.inj hupdate
        exact h

theorem folderChange {changed : Bool}
    {old new : NoteFolder} (hnew : Integrity toLowercase (s.writeFolder new)) :
    Integrity toLowercase (s.folderChange changed old new).1 := by
  rw [Notes.folderChange]
  split
  · exact hnew
  · exact h

theorem noteChange {changed : Bool}
    {old new : NoteDocument} (hnew : Integrity toLowercase (s.writeNote new)) :
    Integrity toLowercase (s.noteChange changed old new).1 := by
  rw [Notes.noteChange]
  split
  · exact hnew
  · exact h

/-- The summary that is found is that of the note that is read. -/
theorem summary_of_find
    {summary : NoteSummary}
    (hfind : (s.summaries.values.find? fun item => item.id == id) =
      some summary)
    (hget : s.notes.get id = some note) : note.summary = summary := by
  have hmem := mem_of_find?_eq_some hfind
  have hid : summary.id = id := by simpa using find?_some hfind
  rw [h.summaryValues] at hmem
  obtain ⟨other, hother, rfl⟩ := mem_map.mp hmem
  obtain ⟨hnote, hkey⟩ := h.note_of_get hget
  rw [h.noteIds.eq_of_key hother hnote (hid.trans hkey.symm)]

theorem renameNoteNode
    {nodeKind nodeId name : Str} {t : Notes × Notes.NoteNodeChange}
    (hrename : s.renameNoteNode toLowercase now nodeKind nodeId name = .ok t) :
    Integrity toLowercase t.1 := by
  obtain ⟨normalized, ⟨folder, hmem, rfl, hunique, rfl⟩ |
    ⟨summary, note, hfind, hget, hunique, rfl⟩⟩ :=
    Notes.renameNoteNode_cases hrename
  · rw [h.summaryValues] at hunique
    apply h.folderChange
    apply h.writeFolder
    · exact h.folderParents folder hmem
    · exact fun parent => h.not_above_parent hmem
    · exact nameFree_of_unique hunique
  · obtain rfl := h.summary_of_find hfind hget
    obtain ⟨hmem, rfl⟩ := h.note_of_get hget
    apply h.noteChange
    exact h.rewriteNote hmem rfl rfl hunique

theorem moveNoteNode
    {nodeKind nodeId : Str} {sortOrder : Int}
    {t : Notes × Notes.NoteNodeChange}
    (hmove : s.moveNoteNode toLowercase now nodeKind nodeId parentId sortOrder =
      .ok t) :
    Integrity toLowercase t.1 := by
  obtain ⟨hparent, ⟨folder, hmem, rfl, hascend, hunique, rfl⟩ |
    ⟨summary, note, hfind, hget, hunique, rfl⟩⟩ :=
    Notes.moveNoteNode_cases hmove
  · have hexists : ∀ parent, parentId = some parent → s.HasFolder parent :=
      fun parent => validateParentExists_some hparent
    rw [h.summaryValues] at hunique
    apply h.folderChange
    apply h.writeFolder hexists
    · rintro parent rfl
      exact not_above_of_ascend hascend
    · exact nameFree_of_unique hunique
  · have hexists : ∀ parent, parentId = some parent → s.HasFolder parent :=
      fun parent => validateParentExists_some hparent
    obtain rfl := h.summary_of_find hfind hget
    obtain ⟨hmem, rfl⟩ := h.note_of_get hget
    rw [h.summaryValues] at hunique
    apply h.noteChange
    apply h.writeNote hexists
    exact nameFree_of_unique hunique

theorem removeNodes
    {folderIds noteIds : List Str}
    (hfolders : ∀ id ∈ folderIds, HasChildren s.folders.values folderIds id)
    (hnotes : ∀ note ∈ s.notes.values, ∀ parent, note.parentId = some parent →
      parent ∈ folderIds → note.id ∈ noteIds) :
    Integrity toLowercase (s.removeNodes folderIds noteIds).1 := by
  have hfolder : ∀ {folder}, folder ∈ (s.folders.removeIf fun id _ =>
        folderIds.contains id).values ↔
      folder ∈ s.folders.values ∧ folder.id ∉ folderIds := by
    intro folder
    rw [h.folderIds.mem_removeIf]
    simp
  have hnote : ∀ {note}, note ∈ (s.notes.removeIf fun id _ =>
        noteIds.contains id).values ↔
      note ∈ s.notes.values ∧ note.id ∉ noteIds := by
    intro note
    rw [h.noteIds.mem_removeIf]
    simp
  constructor
  · exact h.folderIds.removeIf _
  · exact h.noteIds.removeIf _
  · intro folder hmem parent hparent
    obtain ⟨hmem, hkept⟩ := hfolder.mp hmem
    obtain ⟨other, hother, rfl⟩ := h.folderParents folder hmem parent hparent
    refine ⟨other, hfolder.mpr ⟨hother, fun hremoved => hkept ?_⟩, rfl⟩
    exact hfolders other.id hremoved folder hmem hparent
  · intro note hmem parent hparent
    obtain ⟨hmem, hkept⟩ := hnote.mp hmem
    obtain ⟨other, hother, rfl⟩ := h.noteParents note hmem parent hparent
    refine ⟨other, hfolder.mpr ⟨hother, fun hremoved => hkept ?_⟩, rfl⟩
    exact hnotes note hmem other.id hparent hremoved
  · apply h.acyclic.mono
    intro id parent hup
    change parentIn (s.folders.removeIf fun id _ =>
      folderIds.contains id).values id = some parent at hup
    rw [parentIn_values (h.folderIds.removeIf _)] at hup
    rw [parentIn_values h.folderIds]
    obtain ⟨folder, hget, hparent⟩ := Option.bind_eq_some_iff.mp hup
    have hmem := (mem_removeIf.mp (get_eq_some_iff.mp hget)).1
    rw [get_eq_some_iff.mpr hmem]
    exact hparent
  · refine nameFree_mono ?_ h.siblings
    intro item hmem
    rcases mem_append.mp hmem with hitem | hitem
    · obtain ⟨folder, hkept, rfl⟩ := mem_map.mp hitem
      exact mem_append_left _ (mem_map_of_mem (hfolder.mp hkept).1)
    · obtain ⟨note, hkept, rfl⟩ := mem_map.mp hitem
      exact mem_append_right _ (mem_map_of_mem (hnote.mp hkept).1)
  · rw [Notes.removeNodes]
    simp only [h.summaries, map_removeIf]

theorem deleteNoteNode {nodeKind nodeId : Str}
    {t : Notes × Notes.DeleteNoteNodeResult}
    (hdelete : s.deleteNoteNode nodeKind nodeId = .ok t) :
    Integrity toLowercase t.1 := by
  rw [Notes.deleteNoteNode] at hdelete
  cases hkind : NodeKind.parse nodeKind with
  | none =>
    rw [hkind] at hdelete
    cases hdelete
  | some kind =>
    simp only [hkind] at hdelete
    cases kind with
    | folder =>
      simp only at hdelete
      split at hdelete
      · cases hdelete
      · obtain rfl := Except.ok.inj hdelete
        apply h.removeNodes (deletedFolderIds_closed s nodeId)
        intro note hmem parent hparent hremoved
        rw [h.summaryValues]
        apply mem_map.mpr
        refine ⟨note.summary, mem_filter.mpr
          ⟨mem_map_of_mem hmem, ?_⟩, rfl⟩
        have hsummary : note.summary.parentId = some parent := hparent
        simpa [hsummary] using hremoved
    | note =>
      simp only at hdelete
      split at hdelete
      · cases hdelete
      · obtain rfl := Except.ok.inj hdelete
        apply h.removeNodes
        · intro id hmem
          cases hmem
        · intro note hmem parent hparent hremoved
          cases hremoved

end

end Integrity

/-- The table of folders with distinct ids has their parents. -/
theorem parentIn_collect {folders : List NoteFolder}
    (hnodup : (folders.map NoteFolder.id).Nodup) :
    parentIn folders = parentIn (collect NoteFolder.id id folders).values := by
  funext id
  rw [parentIn_values (keyedBy_collect folders), parentIn]
  apply congrArg (Option.bind · NoteFolder.parentId)
  apply Option.ext
  intro folder
  rw [get_eq_some_iff, mem_collect hnodup]
  constructor
  · intro hby
    obtain ⟨hmem, hid⟩ := byId_some hby
    exact ⟨folder, hmem, hid, rfl⟩
  · rintro ⟨found, hmem, rfl, rfl⟩
    cases hby : byId folders found.id with
    | none =>
      have hnone := find?_eq_none.mp hby found (mem_reverse.mpr hmem)
      simp at hnone
    | some other =>
      obtain ⟨hother, hid⟩ := byId_some hby
      rw [inj_on_of_nodup_map hnodup hother hmem hid]
      rfl

/-- The ids of checked records differ. -/
theorem checkNames_nodup {α : Type} {id name : α → Str} {duplicate : Str}
    {seen : List Str} {records : List α}
    (h : checkNames id name duplicate seen records = .ok ()) :
    (records.map id).Nodup ∧ ∀ a ∈ records, id a ∉ seen := by
  induction records generalizing seen with
  | nil => exact ⟨nodup_nil, fun _ hmem => by cases hmem⟩
  | cons first rest ih =>
    obtain ⟨-, -, h⟩ := bind_eq_ok.mp h
    split at h
    · cases h
    · next hnew =>
      obtain ⟨hnodup, hunseen⟩ := ih h
      have hfirst : id first ∉ seen := by simpa using hnew
      constructor
      · rw [map_cons, nodup_cons]
        refine ⟨fun hmem => ?_, hnodup⟩
        obtain ⟨other, hother, heq⟩ := mem_map.mp hmem
        exact hunseen other hother (heq ▸ mem_cons_self)
      · intro a hmem
        rcases mem_cons.mp hmem with rfl | hmem
        · exact hfirst
        · exact fun hseen => hunseen a hmem (mem_cons_of_mem _ hseen)

theorem Integrity.replaceNotesSnapshot {snapshot : NotesSnapshot} {t : Notes}
    (h : Storage.replaceNotesSnapshot toLowercase snapshot = .ok t) :
    Integrity toLowercase t := by
  obtain ⟨⟨⟩, hvalid, h⟩ := bind_eq_ok.mp h
  obtain rfl := Except.ok.inj h
  obtain ⟨⟨⟩, hfolderNames, hvalid⟩ := bind_eq_ok.mp hvalid
  obtain ⟨⟨⟩, hnoteNames, hvalid⟩ := bind_eq_ok.mp hvalid
  obtain ⟨⟨⟩, hfolderParents, hvalid⟩ := bind_eq_ok.mp hvalid
  obtain ⟨⟨⟩, hnoteParents, hvalid⟩ := bind_eq_ok.mp hvalid
  obtain ⟨⟨⟩, hfolderUnique, hnoteUnique⟩ := bind_eq_ok.mp hvalid
  have hfolderIds := (checkNames_nodup hfolderNames).1
  have hnoteIds := (checkNames_nodup hnoteNames).1
  have hfolder : ∀ {folder}, folder ∈ (collect NoteFolder.id id
      snapshot.folders).values ↔ folder ∈ snapshot.folders :=
    mem_values_collect hfolderIds
  have hnote : ∀ {note}, note ∈ (collect NoteDocument.id id
      snapshot.notes).values ↔ note ∈ snapshot.notes :=
    mem_values_collect hnoteIds
  have hitems : ∀ {item}, item ∈ itemsOf (collect NoteFolder.id id
        snapshot.folders).values (collect NoteDocument.id id
        snapshot.notes).values ↔
      item ∈ itemsOf snapshot.folders snapshot.notes := by
    intro item
    simp only [itemsOf, mem_append, mem_map, hfolder, hnote]
  have hkeyed : Table.KeyedBy NoteFolder.id
      (.collect NoteFolder.id id snapshot.folders) :=
    keyedBy_collect snapshot.folders
  constructor
  · exact hkeyed
  · exact keyedBy_collect snapshot.notes
  · intro folder hmem parent hparent
    obtain ⟨⟨⟩, hcheck, -⟩ := bind_eq_ok.mp
      (checkAll_ok.mp hfolderParents folder (hfolder.mp hmem))
    obtain ⟨other, hother, hid⟩ := checkParent_some hcheck hparent
    exact ⟨other, hfolder.mpr hother, hid⟩
  · intro note hmem parent hparent
    obtain ⟨other, hother, hid⟩ := checkParent_some
      (checkAll_ok.mp hnoteParents note (hnote.mp hmem)) hparent
    exact ⟨other, hfolder.mpr hother, hid⟩
  · -- every walk of the snapshot's check ends without its folder
    rw [Forest.acyclic_iff]
    intro id parent hup habove
    rw [parentIn_values hkeyed] at hup
    obtain ⟨folder, hget, hparent⟩ := Option.bind_eq_some_iff.mp hup
    obtain rfl := hkeyed.key_of_get hget
    have hmem := hfolder.mp (hkeyed.mem_values.mpr hget)
    obtain ⟨⟨⟩, -, hascend⟩ := bind_eq_ok.mp
      (checkAll_ok.mp hfolderParents folder hmem)
    rw [hparent] at hascend
    apply not_above_of_ascend hascend
    rw [parentIn_collect hfolderIds]
    exact habove
  · intro item hmem
    have hfree : NameFree toLowercase
        (itemsOf snapshot.folders snapshot.notes) item := by
      rcases mem_append.mp (hitems.mp hmem) with hitem | hitem
      · obtain ⟨folder, hfolder, rfl⟩ := mem_map.mp hitem
        exact nameFree_of_unique (checkAll_ok.mp hfolderUnique folder hfolder)
      · obtain ⟨note, hnote, rfl⟩ := mem_map.mp hitem
        exact nameFree_of_unique (checkAll_ok.mp hnoteUnique note hnote)
    intro other hother
    exact hfree other (hitems.mp hother)
  · apply ext_of_mem
    rintro ⟨id, summary⟩
    rw [mem_collect hnoteIds, Table.mem_map]
    constructor
    · rintro ⟨note, hmem, rfl, rfl⟩
      exact ⟨note, (mem_collect hnoteIds).mpr ⟨note, hmem, rfl, rfl⟩, rfl⟩
    · rintro ⟨note, hmem, rfl⟩
      obtain ⟨record, hrecord, hid, rfl⟩ := (mem_collect hnoteIds).mp hmem
      exact ⟨record, hrecord, hid, rfl⟩

/-- The operations.  The id of a new item is the generator's. -/
inductive NotesOp where
  | createNoteFolder (id : Str) (now : Nat) (parentId name : Option Str)
  | createNote (id : Str) (now : Nat) (parentId title markdown : Option Str)
  | updateNote (now : Nat) (noteId title markdown : Str)
      (expectedRevision : Nat) (force : Bool)
  | renameNoteNode (now : Nat) (nodeKind nodeId name : Str)
  | moveNoteNode (now : Nat) (nodeKind nodeId : Str) (parentId : Option Str)
      (sortOrder : Int)
  | deleteNoteNode (nodeKind nodeId : Str)
  | replaceNotesSnapshot (snapshot : NotesSnapshot)

/-- The tables that an operation leaves, and its error. -/
def committed {α : Type} (s : Notes) :
    Except Str (Notes × α) → Notes × Option Str
  | .ok (t, _) => (t, none)
  | .error error => (s, some error)

def NotesOp.apply (toLowercase : Str → Str) (s : Notes) :
    NotesOp → Notes × Option Str
  | .createNoteFolder id now parentId name =>
    committed s.ensureNoteSummaryIndex
      (s.ensureNoteSummaryIndex.createNoteFolder toLowercase id now parentId
        name)
  | .createNote id now parentId title markdown =>
    committed s.ensureNoteSummaryIndex
      (s.ensureNoteSummaryIndex.createNote toLowercase id now parentId title
        markdown)
  | .updateNote now noteId title markdown expectedRevision force =>
    committed s.ensureNoteSummaryIndex
      (s.ensureNoteSummaryIndex.updateNote toLowercase now noteId title
        markdown expectedRevision force)
  | .renameNoteNode now nodeKind nodeId name =>
    committed s.ensureNoteSummaryIndex
      (s.ensureNoteSummaryIndex.renameNoteNode toLowercase now nodeKind
        nodeId name)
  | .moveNoteNode now nodeKind nodeId parentId sortOrder =>
    committed s.ensureNoteSummaryIndex
      (s.ensureNoteSummaryIndex.moveNoteNode toLowercase now nodeKind nodeId
        parentId sortOrder)
  | .deleteNoteNode nodeKind nodeId =>
    committed s.ensureNoteSummaryIndex
      (s.ensureNoteSummaryIndex.deleteNoteNode nodeKind nodeId)
  | .replaceNotesSnapshot snapshot =>
    match Storage.replaceNotesSnapshot toLowercase snapshot with
    | .ok t => (t, none)
    | .error error => (s, some error)

/-- A generated folder id is not in use. -/
def Notes.Fresh (s : Notes) : NotesOp → Prop
  | .createNoteFolder id _ _ _ => ¬ s.HasFolder id
  | _ => True

def SameTables (s t : Notes) : Prop :=
  t.folders = s.folders ∧ t.notes = s.notes ∧ t.summaries = s.summaries

/-- The operation keeps the integrity, and its failure changes no table. -/
def Notes.Sound (toLowercase : Str → Str) (s : Notes) (op : NotesOp) : Prop :=
  Integrity toLowercase (op.apply toLowercase s).1 ∧
    ((op.apply toLowercase s).2.isSome = true →
      SameTables s (op.apply toLowercase s).1)

theorem Integrity.committed {α : Type} {s : Notes}
    (h : Integrity toLowercase s) {result : Except Str (Notes × α)}
    (hresult : ∀ t, result = .ok t → Integrity toLowercase t.1) :
    Integrity toLowercase (committed s.ensureNoteSummaryIndex result).1 ∧
      ((committed s.ensureNoteSummaryIndex result).2.isSome = true →
        SameTables s (committed s.ensureNoteSummaryIndex result).1) := by
  cases result with
  | ok t => exact ⟨hresult t rfl, fun hnone => by cases hnone⟩
  | error error =>
    exact ⟨h.ensure, fun _ => ⟨Integrity.ensure_folders s,
      Integrity.ensure_notes s, h.ensure_summaries⟩⟩

theorem Integrity.sound {s : Notes} (h : Integrity toLowercase s)
    {op : NotesOp} (hfresh : s.Fresh op) : s.Sound toLowercase op := by
  cases op with
  | createNoteFolder id now parentId name =>
    apply h.committed
    intro t hcreate
    refine h.ensure.createNoteFolder (fun hfolder => hfresh ?_) hcreate
    rw [Notes.HasFolder, Integrity.ensure_folders] at hfolder
    exact hfolder
  | createNote id now parentId title markdown =>
    exact h.committed fun t hcreate => h.ensure.createNote hcreate
  | updateNote now noteId title markdown expectedRevision force =>
    exact h.committed fun t hupdate => h.ensure.updateNote hupdate
  | renameNoteNode now nodeKind nodeId name =>
    exact h.committed fun t hrename => h.ensure.renameNoteNode hrename
  | moveNoteNode now nodeKind nodeId parentId sortOrder =>
    exact h.committed fun t hmove => h.ensure.moveNoteNode hmove
  | deleteNoteNode nodeKind nodeId =>
    exact h.committed fun t hdelete => h.ensure.deleteNoteNode hdelete
  | replaceNotesSnapshot snapshot =>
    rw [Notes.Sound, NotesOp.apply]
    cases hreplace : Storage.replaceNotesSnapshot toLowercase snapshot with
    | ok t => exact ⟨.replaceNotesSnapshot hreplace, fun hnone => by cases hnone⟩
    | error error => exact ⟨h, fun _ => ⟨rfl, rfl, rfl⟩⟩

/-- The notes under the operations. -/
def notes (toLowercase : Str → Str) : System Notes NotesOp where
  init s := s = {}
  step s op := some (op.apply toLowercase s).1

/-- Whatever operations are run, the notes stay a tree of distinctly named
items with exact summaries, and failures change nothing. -/
theorem notes_sound {ops : List NotesOp}
    (hfresh : (notes toLowercase).Along Notes.Fresh {} ops) :
    (notes toLowercase).Along (Notes.Sound toLowercase) {} ops := by
  have hall : ∀ s, Integrity toLowercase s →
      (notes toLowercase).Along Notes.Fresh s ops →
      (notes toLowercase).Along (Notes.Sound toLowercase) s ops := by
    clear hfresh
    induction ops with
    | nil => exact fun _ _ _ => trivial
    | cons op rest ih =>
      intro s hs hfresh
      have hsound := hs.sound hfresh.1
      refine ⟨hsound, fun t ht => ?_⟩
      obtain rfl : (op.apply toLowercase s).1 = t := Option.some.inj ht
      exact ih _ hsound.1 (hfresh.2 _ rfl)
  exact hall {} Integrity.empty hfresh

instance (s : Notes) (op : NotesOp) : Decidable (s.Fresh op) :=
  match op with
  | .createNoteFolder id _ _ _ =>
    inferInstanceAs (Decidable (¬ ∃ folder ∈ s.folders.values, folder.id = id))
  | .createNote .. | .updateNote .. | .renameNoteNode .. | .moveNoteNode ..
  | .deleteNoteNode .. | .replaceNotesSnapshot .. =>
    inferInstanceAs (Decidable True)

/-- A folder with a folder and a note is made; it cannot be moved into itself
and is deleted. -/
def deskOps : List NotesOp :=
  [.createNoteFolder "a".toList 1 none (some "Desk".toList),
    .createNoteFolder "b".toList 2 (some "a".toList) none,
    .createNote "c".toList 3 (some "b".toList) (some "List".toList) none,
    .moveNoteNode 4 "folder".toList "a".toList (some "b".toList) 0,
    .deleteNoteNode "folder".toList "a".toList]

theorem deskOps_sound :
    (notes (List.map Char.toLower)).Along
      (Notes.Sound (List.map Char.toLower)) {} deskOps :=
  notes_sound (by decide +kernel)

end NiceTerm.Storage
