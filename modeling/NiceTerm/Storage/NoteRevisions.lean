/-
Revisions of notes.  Every operation that changes a note raises its revision,
so an editor whose note has been changed since is refused.
-/
import NiceTerm.Lib.Revising
import NiceTerm.Storage.NoteIntegrity

namespace NiceTerm.Storage

open Fallible Integrity Versioned
open RustStr (Str)
open Transition

variable {toLowercase : Str → Str} {s t : Notes}

def maxRevision : Nat := 18446744073709551615

theorem nextRevision_raises (revision : Nat) :
    revision < nextRevision revision ∨
      maxRevision ≤ revision ∧ maxRevision ≤ nextRevision revision := by
  unfold nextRevision maxRevision
  omega

/-- The table of notes after an operation of an editor: at most one note is
written, in place of the one with its id or as a new one. -/
inductive Notes.Writes (s t : Notes) : Prop
  | none (h : t.notes = s.notes)
  | rewrites {note new : NoteDocument} (hget : s.notes.get new.id = some note)
      (hrevision : new.revision = nextRevision note.revision)
      (h : t.notes = s.notes.insert new.id new)
  | creates {new : NoteDocument} (hget : s.notes.get new.id = none)
      (h : t.notes = s.notes.insert new.id new)

namespace Notes

/-- Every note is stored under its id. -/
def Keyed (s : Notes) : Prop := s.notes.KeyedBy NoteDocument.id

variable {now : Nat} {parentId : Option Str}

theorem createNoteFolder_writes {id : Str}
    {name : Option Str} {result : Notes × NoteFolder}
    (h : s.createNoteFolder toLowercase id now parentId name = .ok result) :
    s.Writes result.1 := by
  obtain ⟨⟨⟩, -, h⟩ := bind_eq_ok.mp h
  obtain ⟨normalized, -, h⟩ := bind_eq_ok.mp h
  obtain rfl := Except.ok.inj h
  exact .none rfl

theorem createNote_notes {id : Str} {title markdown : Option Str}
    {result : Notes × NoteDocument}
    (h : s.createNote toLowercase id now parentId title markdown = .ok result) :
    result.2.id = id ∧ result.1.notes = s.notes.insert id result.2 := by
  obtain ⟨⟨⟩, -, h⟩ := bind_eq_ok.mp h
  obtain ⟨normalized, -, h⟩ := bind_eq_ok.mp h
  obtain rfl := Except.ok.inj h
  exact ⟨rfl, rfl⟩

theorem updateNote_writes (hkeyed : s.Keyed)
    {noteId title markdown : Str} {expectedRevision : Nat} {force : Bool}
    {result : Notes × NoteUpdateResult}
    (h : s.updateNote toLowercase now noteId title markdown expectedRevision
      force = .ok result) : s.Writes result.1 := by
  rw [updateNote] at h
  cases hget : s.notes.get noteId with
  | none =>
    rw [hget] at h
    cases h
  | some note =>
    obtain rfl := hkeyed.key_of_get hget
    simp only [hget] at h
    split at h
    · cases h
    · obtain ⟨normalized, -, h⟩ := bind_eq_ok.mp h
      obtain ⟨⟨⟩, -, h⟩ := bind_eq_ok.mp h
      split at h
      · obtain rfl := Except.ok.inj h
        exact @Writes.rewrites s _ note { note with
            title := normalized
            markdown
            revision := nextRevision note.revision
            updatedAtMs := now } hget rfl rfl
      · obtain rfl := Except.ok.inj h
        exact .none rfl

theorem folderChange_writes (changed : Bool) (old new : NoteFolder) :
    s.Writes (s.folderChange changed old new).1 := by
  unfold folderChange
  split
  · exact .none rfl
  · exact .none rfl

theorem noteChange_writes (changed : Bool) {old new : NoteDocument}
    (hget : s.notes.get new.id = some old)
    (hrevision : new.revision = nextRevision old.revision) :
    s.Writes (s.noteChange changed old new).1 := by
  unfold noteChange
  split
  · exact .rewrites hget hrevision rfl
  · exact .none rfl

theorem renameNoteNode_writes (hkeyed : s.Keyed) {nodeKind nodeId name : Str}
    {result : Notes × NoteNodeChange}
    (h : s.renameNoteNode toLowercase now nodeKind nodeId name = .ok result) :
    s.Writes result.1 := by
  obtain ⟨normalized, ⟨folder, -, -, -, rfl⟩ | ⟨summary, note, -, hget, -, rfl⟩⟩
    := renameNoteNode_cases h
  · exact folderChange_writes _ _ _
  · obtain rfl := hkeyed.key_of_get hget
    exact noteChange_writes _ hget rfl

theorem moveNoteNode_writes (hkeyed : s.Keyed)
    {nodeKind nodeId : Str} {sortOrder : Int}
    {result : Notes × NoteNodeChange}
    (h : s.moveNoteNode toLowercase now nodeKind nodeId parentId sortOrder =
      .ok result) : s.Writes result.1 := by
  obtain ⟨-, ⟨folder, -, -, -, -, rfl⟩ | ⟨summary, note, -, hget, -, rfl⟩⟩ :=
    moveNoteNode_cases h
  · exact folderChange_writes _ _ _
  · obtain rfl := hkeyed.key_of_get hget
    exact noteChange_writes _ hget rfl

/-- The operations of editors.  A generated id is in no use. -/
def Edits (s : Notes) : NotesOp → Prop
  | .createNote id _ _ _ _ => s.notes.get id = none
  | .deleteNoteNode _ _ => False
  | .replaceNotesSnapshot _ => False
  | _ => True

theorem Writes.of_ensure (h : s.ensureNoteSummaryIndex.Writes t) :
    s.Writes t := by
  have hnotes := ensure_notes s
  cases h with
  | none h => exact .none (h.trans hnotes)
  | rewrites hget hrevision h =>
    rw [hnotes] at hget h
    exact .rewrites hget hrevision h
  | creates hget h =>
    rw [hnotes] at hget h
    exact .creates hget h

theorem committed_writes {α : Type} {result : Except Str (Notes × α)}
    (h : ∀ next, result = .ok next → s.ensureNoteSummaryIndex.Writes next.1) :
    s.Writes (committed s.ensureNoteSummaryIndex result).1 := by
  cases result with
  | ok next => exact (h next rfl).of_ensure
  | error error => exact .none (ensure_notes s)

theorem Keyed.ensure (h : s.Keyed) : s.ensureNoteSummaryIndex.Keyed := by
  unfold Keyed
  rw [ensure_notes]
  exact h

theorem apply_writes (hkeyed : s.Keyed) {op : NotesOp} (hedits : s.Edits op) :
    s.Writes (op.apply toLowercase s).1 := by
  cases op with
  | createNoteFolder id now parentId name =>
    exact committed_writes fun _ h => createNoteFolder_writes h
  | createNote id now parentId title markdown =>
    refine committed_writes fun _ h => ?_
    obtain ⟨rfl, hnotes⟩ := createNote_notes h
    refine .creates ?_ hnotes
    rw [ensure_notes]
    exact hedits
  | updateNote now noteId title markdown expectedRevision force =>
    exact committed_writes fun _ h => updateNote_writes hkeyed.ensure h
  | renameNoteNode now nodeKind nodeId name =>
    exact committed_writes fun _ h => renameNoteNode_writes hkeyed.ensure h
  | moveNoteNode now nodeKind nodeId parentId sortOrder =>
    exact committed_writes fun _ h => moveNoteNode_writes hkeyed.ensure h
  | deleteNoteNode nodeKind nodeId => exact absurd hedits id
  | replaceNotesSnapshot snapshot => exact absurd hedits id

theorem Writes.keyed (h : s.Writes t) (hkeyed : s.Keyed) : t.Keyed := by
  unfold Keyed at hkeyed ⊢
  cases h with
  | none h =>
    rw [h]
    exact hkeyed
  | rewrites hget hrevision h =>
    rw [h]
    exact hkeyed.insert _
  | creates hget h =>
    rw [h]
    exact hkeyed.insert _

/-- No note is lost, and one that is written anew has a higher revision. -/
theorem Writes.raises (h : s.Writes t) {id : Str} {note : NoteDocument}
    (hnote : s.notes.get id = some note) :
    ∃ next, t.notes.get id = some next ∧
      Raises NoteDocument.revision maxRevision note next := by
  cases h with
  | none h => exact ⟨note, h ▸ hnote, .inl rfl⟩
  | @rewrites old new hget hrevision h =>
    rw [h, Table.get_insert]
    split_ifs with hid
    · refine ⟨new, rfl, .inr ?_⟩
      rw [hid, hget] at hnote
      obtain rfl := Option.some.inj hnote
      rw [hrevision]
      exact nextRevision_raises old.revision
    · exact ⟨note, hnote, .inl rfl⟩
  | creates hget h =>
    rw [h, Table.get_insert]
    split_ifs with hid
    · rw [hid, hget] at hnote
      cases hnote
    · exact ⟨note, hnote, .inl rfl⟩

theorem keyed_of_replace {snapshot : NotesSnapshot}
    (h : replaceNotesSnapshot toLowercase snapshot = .ok t) : t.Keyed := by
  obtain ⟨⟨⟩, -, h⟩ := bind_eq_ok.mp h
  obtain rfl := Except.ok.inj h
  exact Table.keyedBy_collect _

theorem deleteNoteNode_keyed (hkeyed : s.Keyed) {nodeKind nodeId : Str}
    {result : Notes × DeleteNoteNodeResult}
    (h : s.deleteNoteNode nodeKind nodeId = .ok result) : result.1.Keyed := by
  unfold deleteNoteNode at h
  cases hkind : NodeKind.parse nodeKind with
  | none =>
    rw [hkind] at h
    cases h
  | some kind =>
    simp only [hkind] at h
    cases kind with
    | folder =>
      simp only at h
      split at h
      · cases h
      · obtain rfl := Except.ok.inj h
        exact hkeyed.removeIf _
    | note =>
      simp only at h
      split at h
      · cases h
      · obtain rfl := Except.ok.inj h
        exact hkeyed.removeIf _

theorem keyed_of_committed {α : Type} {result : Except Str (Notes × α)}
    (hkeyed : s.Keyed) (h : ∀ next, result = .ok next → next.1.Keyed) :
    (committed s.ensureNoteSummaryIndex result).1.Keyed := by
  cases result with
  | ok next => exact h next rfl
  | error error => exact hkeyed.ensure

end Notes

open Notes

theorem Notes.Keyed.apply (hkeyed : s.Keyed) (op : NotesOp) :
    (op.apply toLowercase s).1.Keyed := by
  cases op with
  | createNoteFolder id now parentId name =>
    exact keyed_of_committed hkeyed fun _ h =>
      (createNoteFolder_writes h).keyed hkeyed.ensure
  | createNote id now parentId title markdown =>
    refine keyed_of_committed hkeyed fun _ h => ?_
    obtain ⟨rfl, hnotes⟩ := createNote_notes h
    rw [Keyed, hnotes]
    exact hkeyed.ensure.insert _
  | updateNote now noteId title markdown expectedRevision force =>
    exact keyed_of_committed hkeyed fun _ h =>
      (updateNote_writes hkeyed.ensure h).keyed hkeyed.ensure
  | renameNoteNode now nodeKind nodeId name =>
    exact keyed_of_committed hkeyed fun _ h =>
      (renameNoteNode_writes hkeyed.ensure h).keyed hkeyed.ensure
  | moveNoteNode now nodeKind nodeId parentId sortOrder =>
    exact keyed_of_committed hkeyed fun _ h =>
      (moveNoteNode_writes hkeyed.ensure h).keyed hkeyed.ensure
  | deleteNoteNode nodeKind nodeId =>
    exact keyed_of_committed hkeyed fun _ h =>
      deleteNoteNode_keyed hkeyed.ensure h
  | replaceNotesSnapshot snapshot =>
    rw [NotesOp.apply]
    cases hreplace : replaceNotesSnapshot toLowercase snapshot with
    | ok t => exact keyed_of_replace hreplace
    | error error => exact hkeyed

theorem keyed_of_reachable (h : (notes toLowercase).Reachable s) : s.Keyed := by
  refine h.invariant ?_ ?_
  · rintro s rfl
    exact Table.keyedBy_empty
  · intro s op t hs hstep
    exact Option.some.inj hstep ▸ hs.apply op

theorem notes_raising (id : Str) :
    Raising (notes toLowercase) (fun s => s.notes.get id)
      NoteDocument.revision maxRevision Notes.Keyed Notes.Edits where
  inv _ _ _ hs hedits hstep :=
    Option.some.inj hstep ▸ (apply_writes hs hedits).keyed hs
  raises _ _ _ _ hs hedits hstep hnote :=
    Option.some.inj hstep ▸ (apply_writes hs hedits).raises hnote

/-- What an operation does to the notes that were there. -/
def Notes.RaisesAll (toLowercase : Str → Str) (s : Notes) (op : NotesOp) :
    Prop :=
  ∀ id note, s.notes.get id = some note →
    ∃ next, (op.apply toLowercase s).1.notes.get id = some next ∧
      Raises NoteDocument.revision maxRevision note next

/-- An editor that has read a note and saves it later. -/
structure Optimistic (toLowercase : Str → Str) (s t : Notes)
    (ops : List NotesOp) (id : Str) (note : NoteDocument) : Prop where
  succeeds : ∀ now title markdown,
    ((NotesOp.updateNote now id title markdown note.revision false).apply
      toLowercase t).2 = none →
    (notes toLowercase).Throughout (fun u => u.notes.get id = some note) s ops
  conflicts : ¬ (notes toLowercase).Throughout
      (fun u => u.notes.get id = some note) s ops →
    ∃ found, t.notes.get id = some found ∧ note.revision < found.revision ∧ ∀
      now title markdown,
        (NotesOp.updateNote now id title markdown note.revision false).apply
            toLowercase t =
          (t.ensureNoteSummaryIndex,
            some (Notes.revisionConflict note.revision found.revision)) ∧
        t.ensureNoteSummaryIndex.notes = t.notes

theorem apply_update_conflict {id : Str} {found : NoteDocument}
    (hfound : t.notes.get id = some found) {expected : Nat}
    (hstale : expected < found.revision) (now : Nat) (title markdown : Str) :
    (NotesOp.updateNote now id title markdown expected false).apply
        toLowercase t =
      (t.ensureNoteSummaryIndex,
        some (Notes.revisionConflict expected found.revision)) := by
  have hget : t.ensureNoteSummaryIndex.notes.get id = some found := by
    rw [ensure_notes]
    exact hfound
  have hdiffers : (!false && found.revision != expected) = true := by
    rw [Bool.not_false, Bool.true_and, bne_iff_ne]
    exact Nat.ne_of_gt hstale
  simp only [NotesOp.apply, Notes.updateNote, hget, hdiffers, ↓reduceIte]
  rfl

/-- Whoever edits in between, in whatever order: revisions rise with every
change of a note, so a save succeeds only if the note was not changed since it
was read, and is refused without a trace otherwise. -/
theorem updates_optimistic (hs : (notes toLowercase).Reachable s)
    {ops : List NotesOp} (hedits : (notes toLowercase).Along Notes.Edits s ops)
    (hrun : (notes toLowercase).runFrom s ops = some t) {id : Str}
    {note : NoteDocument} (hnote : s.notes.get id = some note)
    (hbelow : note.revision < maxRevision) :
    (notes toLowercase).Along (Notes.RaisesAll toLowercase) s ops ∧
      Optimistic toLowercase s t ops id note := by
  have hkeyed := keyed_of_reachable hs
  have hraised := (notes_raising id).run hkeyed hedits hrun hnote hbelow
  have hstays : ∀ s op t, s.Keyed → (notes toLowercase).step s op = some t →
      t.Keyed := fun s op t hs hstep => Option.some.inj hstep ▸ hs.apply op
  refine ⟨?_, fun now title markdown hsaved => ?_, fun hchanged => ?_⟩
  · exact System.along_of_invariant _ hstays
      (fun s op hs hop id note hnote => (apply_writes hs hop).raises hnote)
      hkeyed hedits
  · rcases hraised with hsame | ⟨found, hfound, hless⟩
    · exact hsame
    · rw [apply_update_conflict hfound hless] at hsaved
      cases hsaved
  · rcases hraised with hsame | ⟨found, hfound, hless⟩
    · exact absurd hsame hchanged
    · exact ⟨found, hfound, hless, fun now title markdown =>
        ⟨apply_update_conflict hfound hless now title markdown,
          ensure_notes t⟩⟩

/-- A note as it is stored by its creation, by a rename and by a snapshot. -/
def listNote (title : String) (revision now : Nat) : NoteDocument where
  id := "n".toList
  parentId := none
  title := title.toList
  markdown := []
  sortOrder := 0
  revision
  createdAtMs := 1
  updatedAtMs := now

def listNotes (note : NoteDocument) : Notes where
  notes := .collect NoteDocument.id id [note]
  summaries := .collect NoteDocument.id NoteDocument.summary [note]
  indexVersion := 1

theorem renamed_note_conflicts :
    (notes (List.map Char.toLower)).Along
        (Notes.RaisesAll (List.map Char.toLower))
        (listNotes (listNote "List" 1 1))
        [.renameNoteNode 2 "note".toList "n".toList "Tasks".toList] ∧
      Optimistic (List.map Char.toLower) (listNotes (listNote "List" 1 1))
        (listNotes (listNote "Tasks" 2 2))
        [.renameNoteNode 2 "note".toList "n".toList "Tasks".toList] "n".toList
        (listNote "List" 1 1) := by
  apply updates_optimistic
  · exact ⟨{}, [.createNote "n".toList 1 none (some "List".toList) none], rfl,
      by rfl⟩
  · exact ⟨trivial, fun _ _ => trivial⟩
  · rfl
  · rfl
  · decide

/-- At the last revision a change goes unseen: the second of two editors
overwrites what the first one saved. -/
theorem last_revision_overwritten :
    (notes (List.map Char.toLower)).Reachable
        (listNotes (listNote "List" maxRevision 1)) ∧
      (notes (List.map Char.toLower)).runFrom
          (listNotes (listNote "List" maxRevision 1))
          [.updateNote 2 "n".toList "Tasks".toList [] maxRevision false] =
        some (listNotes (listNote "Tasks" maxRevision 2)) ∧
      ((NotesOp.updateNote 3 "n".toList "Plans".toList [] maxRevision
          false).apply (List.map Char.toLower)
        (listNotes (listNote "Tasks" maxRevision 2))).2 = none := by
  refine ⟨⟨{}, [.replaceNotesSnapshot
    ⟨[], [listNote "List" maxRevision 1]⟩], rfl, ?_⟩, ?_, ?_⟩
  · rfl
  · rfl
  · rfl

end NiceTerm.Storage
