/-
The store of the command history and its two savers, the worker in the
background and the flush at shutdown.  A save is prepared under the lock, which
marks the store as clean, and written outside of it.
-/
import Mathlib.Data.List.Sort
import NiceTerm.Session.Submissions

namespace NiceTerm.Session

open RustStr (Str)
open Transition

def maxHistory : Nat := 5000

structure HistoryEntry where
  command : Str
  lastUsedAtMs : Nat
  useCount : Nat
  deriving DecidableEq, Repr

def saturatingAddU32 (a b : Nat) : Nat := min (a + b) 4294967295

variable (entries : List HistoryEntry)

def trimToMaxHistory : List HistoryEntry :=
  entries.drop (entries.length - maxHistory)

/-- The entry that `find` meets first, and the others. -/
def takeCommand (command : Str) (entries : List HistoryEntry) :
    Option HistoryEntry × List HistoryEntry :=
  (entries.find? fun entry => entry.command == command,
    entries.eraseP fun entry => entry.command == command)

def mergeEntry (incoming : HistoryEntry) : List HistoryEntry :=
  match takeCommand incoming.command entries with
  | (some existing, others) =>
    others ++ [{ existing with
      lastUsedAtMs := max existing.lastUsedAtMs incoming.lastUsedAtMs
      useCount := saturatingAddU32 existing.useCount incoming.useCount }]
  | (none, _) => entries ++ [incoming]

/-- The loop of `normalize_v2_entries`. -/
def normalizeEntry (state : List HistoryEntry × Bool) (entry : HistoryEntry) :
    List HistoryEntry × Bool :=
  let useCount := max entry.useCount 1
  match sanitizeHistoryCommand entry.command with
  | none => (state.1, true)
  | some command =>
    (mergeEntry state.1 ⟨command, entry.lastUsedAtMs, useCount⟩,
      state.2 || command != entry.command || useCount != entry.useCount)

def normalizeV2Entries :
    List HistoryEntry × Bool :=
  let normalized := entries.foldl normalizeEntry ([], false)
  let sorted := normalized.1.insertionSort fun a b =>
    a.lastUsedAtMs ≤ b.lastUsedAtMs
  (trimToMaxHistory sorted,
    normalized.2 || decide (maxHistory < sorted.length) ||
      (trimToMaxHistory sorted).length != entries.length)

/-- A payload of version 2, which is read back as the entries it was written
from.  The path is that of the tests. -/
inductive PreparedHistorySave where
  | file (path : Str) (entries : List HistoryEntry)
  | redb (entries : List HistoryEntry)
  deriving DecidableEq, Repr

/-- What `flush_prepared_save` writes when it succeeds. -/
def PreparedHistorySave.content : PreparedHistorySave → List HistoryEntry
  | .file _ entries => entries
  | .redb entries => (normalizeV2Entries entries).1

structure CommandHistoryStore where
  entries : List HistoryEntry
  dirty : Bool
  historyPath : Option Str
  deriving DecidableEq, Repr

namespace CommandHistoryStore

def new : CommandHistoryStore := ⟨[], false, none⟩

variable (store : CommandHistoryStore)

def payload : PreparedHistorySave :=
  match store.historyPath with
  | some path => .file path store.entries
  | none => .redb store.entries

/-- The entries as a save writes them. -/
def content (store : CommandHistoryStore) : List HistoryEntry :=
  store.payload.content

def prepareSave :
    Option PreparedHistorySave × CommandHistoryStore :=
  if store.dirty then (some store.payload, { store with dirty := false })
  else (none, store)

def add (command : Str) (now : Nat) : Bool × CommandHistoryStore :=
  match sanitizeHistoryCommand command with
  | none => (false, store)
  | some command =>
    let entries :=
      match takeCommand command store.entries with
      | (some existing, others) =>
        others ++ [{ existing with
          lastUsedAtMs := now
          useCount := saturatingAddU32 existing.useCount 1 }]
      | (none, _) => store.entries ++ [⟨command, now, 1⟩]
    (true, { store with entries := trimToMaxHistory entries, dirty := true })

def deleteCommand (command : Str) : Bool × CommandHistoryStore :=
  match sanitizeHistoryCommand command with
  | none => (false, store)
  | some command =>
    let kept := store.entries.filter fun entry => entry.command != command
    if kept.length = store.entries.length then (false, store)
    else (true, { store with entries := kept, dirty := true })

end CommandHistoryStore

/-- Where the worker stands: it waits for a permit, lets the permits settle,
writes, and looks whether the store has become dirty again. -/
inductive Worker where
  | waiting
  | settling
  | writing (pending : PreparedHistorySave)
  | checking
  deriving DecidableEq, Repr

inductive Shutdown where
  | off
  | flushing
  | writing (pending : PreparedHistorySave)
  deriving DecidableEq, Repr

/-- `written` is the content of the last write that succeeded, and `notified`
the permit of `history_save_notify`. -/
structure HistoryState where
  store : CommandHistoryStore
  written : List HistoryEntry
  notified : Bool
  worker : Worker
  shutdown : Shutdown
  deriving DecidableEq, Repr

inductive HistoryEvent where
  | add (command : Str) (now : Nat)
  | delete (command : Str)
  | workerWake
  | workerPrepare
  | workerWrite (succeeds : Bool)
  | workerCheck
  | shutdownStart (pendingCommands : List Str) (now : Nat)
  | shutdownPrepare
  | shutdownWrite (succeeds : Bool)
  deriving DecidableEq, Repr

namespace HistoryState

variable (state : HistoryState)

/-- `add_history_entry` and `delete_history_command` ask for a save when the
store has changed. -/
def edit (result : Bool × CommandHistoryStore) : HistoryState :=
  { state with store := result.2, notified := state.notified || result.1 }

def workerPrepare : HistoryState :=
  match state.store.prepareSave with
  | (none, _) => { state with worker := .checking }
  | (some pending, store) =>
    { state with store := store, worker := .writing pending }

def shutdownPrepare : HistoryState :=
  match state.store.prepareSave with
  | (none, _) => { state with shutdown := .off }
  | (some pending, store) =>
    { state with store := store, shutdown := .writing pending }

def write (succeeds : Bool)
    (pending : PreparedHistorySave) : List HistoryEntry :=
  if succeeds then pending.content else state.written

def step (state : HistoryState) : HistoryEvent → Option HistoryState
  | .add command now => some (state.edit (state.store.add command now))
  | .delete command => some (state.edit (state.store.deleteCommand command))
  | .workerWake =>
    if (state.worker = .waiting ∨ state.worker = .settling) ∧ state.notified
    then some { state with worker := .settling, notified := false }
    else none
  | .workerPrepare =>
    if state.worker = .settling then some state.workerPrepare else none
  | .workerWrite succeeds =>
    match state.worker with
    | .writing pending =>
      some { state with
        written := state.write succeeds pending, worker := .checking }
    | _ => none
  | .workerCheck =>
    if state.worker = .checking then
      some { state with
        worker := if state.store.dirty then .settling else .waiting }
    else none
  | .shutdownStart pendingCommands now =>
    if state.shutdown = .off then
      some { state with
        store := pendingCommands.foldl
          (fun store command => (store.add command now).2) state.store
        shutdown := .flushing }
    else none
  | .shutdownPrepare =>
    if state.shutdown = .flushing then some state.shutdownPrepare else none
  | .shutdownWrite succeeds =>
    match state.shutdown with
    | .writing pending =>
      some { state with
        written := state.write succeeds pending
        shutdown := if succeeds then .flushing else .off }
    | _ => none

/-- The saves that have been prepared and not written yet. -/
def workerPending : Worker → List PreparedHistorySave
  | .writing pending => [pending]
  | _ => []

def shutdownPending : Shutdown → List PreparedHistorySave
  | .writing pending => [pending]
  | _ => []

def pending : List PreparedHistorySave :=
  workerPending state.worker ++ shutdownPending state.shutdown

/-- A store that reports it is not dirty has been written as it is. -/
def Clean : Prop :=
  state.store.dirty = false → state.written.Perm state.store.content

/-- Nothing has changed since the history was read from the storage. -/
structure Loaded (state : HistoryState) : Prop where
  clean : state.store.dirty = false
  written : state.written.Perm state.store.content
  worker : state.worker = .waiting
  shutdown : state.shutdown = .off

/-- No save is prepared while another one is on its way, and no write fails. -/
def Calm : HistoryEvent → Prop
  | .workerPrepare => state.pending = []
  | .shutdownPrepare => state.pending = []
  | .workerWrite succeeds => succeeds = true
  | .shutdownWrite succeeds => succeeds = true
  | _ => True

end HistoryState

def historySaving : System HistoryState HistoryEvent where
  init := HistoryState.Loaded
  step := HistoryState.step

/-! ## What a step does -/

namespace CommandHistoryStore

variable (store : CommandHistoryStore)

/-- An edit leaves the store as it was or makes it dirty. -/
theorem add_or_same (command : Str) (now : Nat) :
    (store.add command now).2 = store ∨
      (store.add command now).2.dirty = true := by
  cases hcommand : sanitizeHistoryCommand command with
  | none => exact .inl (by rw [add, hcommand])
  | some command => exact .inr (by rw [add, hcommand])

theorem deleteCommand_or_same (command : Str) :
    (store.deleteCommand command).2 = store ∨
      (store.deleteCommand command).2.dirty = true := by
  cases hcommand : sanitizeHistoryCommand command with
  | none => exact .inl (by rw [deleteCommand, hcommand])
  | some command =>
    rw [deleteCommand, hcommand]
    simp only
    split
    · exact .inl rfl
    · exact .inr rfl

theorem adds_or_same (commands : List Str) (now : Nat) :
    commands.foldl (fun store command => (store.add command now).2) store =
        store ∨
      (commands.foldl (fun store command => (store.add command now).2)
        store).dirty = true := by
  induction commands generalizing store with
  | nil => exact .inl rfl
  | cons command commands ih =>
    rw [List.foldl_cons]
    rcases ih (store.add command now).2 with hsame | hdirty
    · rw [hsame]
      exact store.add_or_same command now
    · exact .inr hdirty

theorem prepareSave_dirty {store : CommandHistoryStore}
    (h : store.dirty = true) :
    store.prepareSave = (some store.payload, { store with dirty := false }) :=
  if_pos h

theorem prepareSave_clean {store : CommandHistoryStore}
    (h : store.dirty = false) : store.prepareSave = (none, store) := by
  rw [prepareSave, h, if_neg Bool.false_ne_true]

end CommandHistoryStore

namespace HistoryState

open List Option

/-- Every step edits the store, moves on without a change to it, prepares a
save or finishes one. -/
inductive Moves (state after : HistoryState) : HistoryEvent → Prop
  | edits {event : HistoryEvent}
      (hstore : after.store = state.store ∨ after.store.dirty = true)
      (hwritten : after.written = state.written)
      (hpending : after.pending = state.pending) : Moves state after event
  | prepares {event : HistoryEvent} (front back : List PreparedHistorySave)
      (hdirty : state.store.dirty = true)
      (hstore : after.store = { state.store with dirty := false })
      (hwritten : after.written = state.written)
      (hbefore : state.pending = front ++ back)
      (hpending : after.pending = front ++ state.store.payload :: back)
      (hcalm : Calm state event → state.pending = []) : Moves state after event
  | writes {event : HistoryEvent} (front back : List PreparedHistorySave)
      (save : PreparedHistorySave) (hstore : after.store = state.store)
      (hbefore : state.pending = front ++ save :: back)
      (hpending : after.pending = front ++ back)
      (hcalm : Calm state event → after.written = save.content) :
      Moves state after event

variable {state : HistoryState}

theorem workerPrepare_moves (hworker : state.worker = .settling) :
    Moves state state.workerPrepare .workerPrepare := by
  cases hdirty : state.store.dirty with
  | false =>
    have hprepare : state.workerPrepare =
        { state with worker := .checking } := by
      rw [workerPrepare, CommandHistoryStore.prepareSave_clean hdirty]
    rw [hprepare]
    refine .edits (.inl rfl) rfl ?_
    rw [pending, pending, hworker]
    rfl
  | true =>
    have hprepare : state.workerPrepare = { state with
          store := { state.store with dirty := false }
          worker := .writing state.store.payload } := by
      rw [workerPrepare, CommandHistoryStore.prepareSave_dirty hdirty]
    rw [hprepare]
    refine .prepares [] (shutdownPending state.shutdown) hdirty rfl rfl ?_ rfl
      id
    rw [pending, hworker]
    rfl

theorem shutdownPrepare_moves (hshutdown : state.shutdown = .flushing) :
    Moves state state.shutdownPrepare .shutdownPrepare := by
  cases hdirty : state.store.dirty with
  | false =>
    have hprepare : state.shutdownPrepare =
        { state with shutdown := .off } := by
      rw [shutdownPrepare, CommandHistoryStore.prepareSave_clean hdirty]
    rw [hprepare]
    refine .edits (.inl rfl) rfl ?_
    rw [pending, pending, hshutdown]
    rfl
  | true =>
    have hprepare : state.shutdownPrepare = { state with
          store := { state.store with dirty := false }
          shutdown := .writing state.store.payload } := by
      rw [shutdownPrepare, CommandHistoryStore.prepareSave_dirty hdirty]
    rw [hprepare]
    refine .prepares (workerPending state.worker) [] hdirty rfl rfl ?_ rfl id
    rw [pending, hshutdown]
    rfl

theorem moves_of_step {after : HistoryState} {event : HistoryEvent}
    (h : historySaving.step state event = some after) :
    Moves state after event := by
  cases event with
  | add command now =>
    obtain rfl := some.inj h
    exact .edits (state.store.add_or_same command now) rfl rfl
  | delete command =>
    obtain rfl := some.inj h
    exact .edits (state.store.deleteCommand_or_same command) rfl rfl
  | workerWake =>
    obtain ⟨hguard, hafter⟩ := ite_none_right_eq_some.mp h
    obtain rfl := some.inj hafter
    refine .edits (.inl rfl) rfl ?_
    rcases hguard.1 with hworker | hworker
    · simp only [pending, hworker, workerPending]
    · simp only [pending, hworker, workerPending]
  | workerPrepare =>
    obtain ⟨hworker, hafter⟩ := ite_none_right_eq_some.mp h
    obtain rfl := some.inj hafter
    exact workerPrepare_moves hworker
  | workerWrite succeeds =>
    cases hworker : state.worker with
    | writing save =>
      simp only [historySaving, step, hworker, some.injEq] at h
      subst h
      refine .writes [] (shutdownPending state.shutdown) save rfl ?_ rfl
        fun h => if_pos h
      rw [pending, hworker]
      rfl
    | waiting => simp [historySaving, step, hworker] at h
    | settling => simp [historySaving, step, hworker] at h
    | checking => simp [historySaving, step, hworker] at h
  | workerCheck =>
    obtain ⟨hworker, hafter⟩ := ite_none_right_eq_some.mp h
    obtain rfl := some.inj hafter
    refine .edits (.inl rfl) rfl ?_
    cases hdirty : state.store.dirty with
    | true => simp [pending, hworker, workerPending]
    | false => simp [pending, hworker, workerPending]
  | shutdownStart pendingCommands now =>
    obtain ⟨hshutdown, hafter⟩ := ite_none_right_eq_some.mp h
    obtain rfl := some.inj hafter
    refine .edits (state.store.adds_or_same pendingCommands now) rfl ?_
    simp only [pending, hshutdown, shutdownPending]
  | shutdownPrepare =>
    obtain ⟨hshutdown, hafter⟩ := ite_none_right_eq_some.mp h
    obtain rfl := some.inj hafter
    exact shutdownPrepare_moves hshutdown
  | shutdownWrite succeeds =>
    cases hshutdown : state.shutdown with
    | writing save =>
      simp only [historySaving, step, hshutdown, some.injEq] at h
      subst h
      refine .writes (workerPending state.worker) [] save rfl ?_ ?_
        fun h => if_pos h
      · simp only [pending, hshutdown, shutdownPending]
      · cases succeeds with
        | true => rfl
        | false => rfl
    | off => simp [historySaving, step, hshutdown] at h
    | flushing => simp [historySaving, step, hshutdown] at h

/-! ## Runs -/

/-- Between the saves of a calm run the flag is honest, and the one save that
waits has what the store still has if it is clean. -/
structure Settles (state : HistoryState) : Prop where
  clean : state.pending = [] → Clean state
  waiting : ∀ save ∈ state.pending, state.store.dirty = false →
    save.content.Perm state.store.content
  single : state.pending.length ≤ 1

theorem Settles.step {after : HistoryState} {event : HistoryEvent}
    (h : Settles state) (hcalm : Calm state event)
    (hstep : historySaving.step state event = some after) :
    Settles after := by
  cases moves_of_step hstep with
  | edits hstore hwritten hpending =>
    refine ⟨?_, ?_, hpending ▸ h.single⟩
    · intro hnone hafter
      rcases hstore with hsame | hdirty
      · rw [hwritten, hsame]
        exact h.clean (hpending ▸ hnone) (hsame ▸ hafter)
      · cases hdirty.symm.trans hafter
    · intro save hsave hafter
      rcases hstore with hsame | hdirty
      · rw [hsame] at hafter ⊢
        exact h.waiting save (hpending ▸ hsave) hafter
      · cases hdirty.symm.trans hafter
  | prepares front back hdirty hstore hwritten hbefore hpending hnone =>
    obtain ⟨rfl, rfl⟩ := append_eq_nil_iff.mp
      (hbefore.symm.trans (hnone hcalm))
    refine ⟨?_, ?_, by rw [hpending]; exact Nat.le_refl 1⟩
    · intro hempty
      cases hempty.symm.trans hpending
    · intro save hsave _
      rw [hpending] at hsave
      rw [mem_singleton.mp hsave, hstore]
      exact Perm.refl _
  | writes front back save hstore hbefore hpending hsucceeds =>
    have hlength := h.single
    rw [hbefore, length_append, length_cons] at hlength
    obtain rfl := length_eq_zero_iff.mp (show front.length = 0 by omega)
    obtain rfl := length_eq_zero_iff.mp (show back.length = 0 by omega)
    refine ⟨?_, ?_, by rw [hpending]; exact Nat.zero_le 1⟩
    · intro _ hafter
      rw [hsucceeds hcalm, hstore]
      refine h.waiting save ?_ (hstore ▸ hafter)
      rw [hbefore]
      exact mem_cons_self
    · intro other hother
      rw [hpending] at hother
      exact absurd hother not_mem_nil

/-- Where saves neither fail nor overlap, a store that is not dirty has been
written whenever no save is on its way; and the save on its way has all that
the store has, unless the store is dirty again. -/
theorem settled_clean {state last : HistoryState} {events : List HistoryEvent}
    (hloaded : Loaded state) (hcalm : historySaving.Along Calm state events)
    (hrun : historySaving.runFrom state events = some last) :
    (last.pending = [] → Clean last) ∧
      ∀ save ∈ last.pending, last.store.dirty = false →
        save.content.Perm last.store.content := by
  have hnone : state.pending = [] := by
    rw [pending, hloaded.worker, hloaded.shutdown]
    rfl
  have hsettles : Settles state := by
    refine ⟨fun _ _ => hloaded.written, ?_, by rw [hnone]; exact Nat.zero_le 1⟩
    intro save hsave
    rw [hnone] at hsave
    exact absurd hsave not_mem_nil
  have hlast := historySaving.run_invariant_along
    (fun _ _ _ h hcalm hstep => h.step hcalm hstep) hsettles hcalm hrun
  exact ⟨hlast.clean, hlast.waiting⟩

theorem new_loaded :
    Loaded ⟨CommandHistoryStore.new, [], false, .waiting, .off⟩ :=
  ⟨rfl, Perm.nil, rfl, rfl⟩

end HistoryState

/-- A command, and a save of it that is prepared. -/
def historyRun : List HistoryEvent :=
  [.add "ls".toList 7, .workerWake, .workerPrepare]

/-- Another command comes in during the save, which is then followed by one of
both. -/
def savedRun : List HistoryEvent :=
  historyRun ++ [.add "pwd".toList 8, .workerWrite true, .workerCheck,
    .workerPrepare, .workerWrite true]

theorem savedRun_calm :
    historySaving.Along HistoryState.Calm
      ⟨CommandHistoryStore.new, [], false, .waiting, .off⟩ savedRun := by
  refine historySaving.along_cons trivial rfl ?_
  refine historySaving.along_cons trivial rfl ?_
  refine historySaving.along_cons rfl rfl (historySaving.along_cons trivial rfl
    (historySaving.along_cons rfl rfl ?_))
  refine historySaving.along_cons trivial rfl ?_
  exact historySaving.along_cons rfl rfl
    (historySaving.along_cons rfl rfl trivial)

theorem savedRun_clean :
    ∃ last, historySaving.runFrom
        ⟨CommandHistoryStore.new, [], false, .waiting, .off⟩ savedRun =
          some last ∧ last.store.dirty = false ∧ last.written.length = 2 ∧
      ((last.pending = [] → last.Clean) ∧
        ∀ save ∈ last.pending, last.store.dirty = false →
          save.content.Perm last.store.content) := by
  refine ⟨_, rfl, rfl, by decide, ?_⟩
  exact HistoryState.settled_clean HistoryState.new_loaded savedRun_calm rfl

/-- The write fails, and the worker goes back to wait. -/
def failingRun : List HistoryEvent :=
  historyRun ++ [.workerWrite false, .workerCheck]

/-- The flush at shutdown writes both commands, and then the worker the first
one alone. -/
def overtakenRun : List HistoryEvent :=
  historyRun ++ [.add "pwd".toList 8, .shutdownStart [] 8, .shutdownPrepare,
    .shutdownWrite true, .workerWrite true, .shutdownPrepare]

/-- Afterwards no save is on its way and the store is not dirty. -/
theorem history_lost :
    (∃ last, historySaving.runFrom
        ⟨CommandHistoryStore.new, [], false, .waiting, .off⟩ failingRun =
          some last ∧ last.pending = [] ∧ ¬ last.Clean) ∧
      ∃ last, historySaving.runFrom
        ⟨CommandHistoryStore.new, [], false, .waiting, .off⟩ overtakenRun =
          some last ∧ last.pending = [] ∧ ¬ last.Clean := by
  refine ⟨⟨_, rfl, rfl, ?_⟩, _, rfl, rfl, ?_⟩
  · intro h
    exact absurd (h rfl).length_eq (by decide)
  · intro h
    exact absurd (h rfl).length_eq (by decide)

end NiceTerm.Session
