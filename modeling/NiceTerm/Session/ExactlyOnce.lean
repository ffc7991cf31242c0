/-
Each submitted command is handed over exactly once, as long as no report of the
shell comes before the command it reports, and none is made to a session
that is not there.
-/
import NiceTerm.Session.Submissions

namespace NiceTerm.Session

open RustStr (Str)

namespace SessionManager

open List Option

variable {manager : SessionManager} {id : Str}

def pendingOf (manager : SessionManager) (id : Str) : List Str :=
  (manager.commandSubmissions id).elim []
    CommandSubmissionState.pendingCandidates

/-- How often a command has been handed over or is pending. -/
def total (manager : SessionManager) (id command : Str) : Nat :=
  manager.handed.count (id, command) + (manager.pendingOf id).count command

/-- A session that has not been added, or has been removed. -/
def Absent (manager : SessionManager) (id : Str) : Prop :=
  manager.sessions id = false ∧
    (manager.removal id = .none ∨ manager.removal id = .done)

/-- Nothing is lost or handed over twice, and only sessions that are there have
a state. -/
structure Accounted (manager : SessionManager) : Prop where
  balanced : ∀ id command,
    manager.total id command = manager.submitted.count (id, command)
  staying : ∀ id, manager.sessions id = true → manager.removal id = .none
  absent : ∀ id, manager.Absent id → manager.commandSubmissions id = none

theorem count_map_pair (id other command : Str) (commands : List Str) :
    (commands.map fun command => (id, command)).count (other, command) =
      if other = id then commands.count command else 0 := by
  induction commands with
  | nil => simp
  | cons first commands ih =>
    rw [map_cons, count_cons, ih, count_cons]
    by_cases hsame : other = id
    · simp [hsame]
    · have hne : ¬ id = other := fun h => hsame h.symm
      simp [hsame, hne]

theorem total_hand (manager : SessionManager) (id other command : Str)
    (commands : List Str) :
    (manager.hand id commands).total other command =
      manager.total other command +
        if other = id then commands.count command else 0 := by
  have hpending : (manager.hand id commands).pendingOf other =
      manager.pendingOf other := rfl
  rw [total, total, hpending, hand, count_append, count_map_pair]
  omega

theorem setState_self (manager : SessionManager) (id : Str)
    (state : Option CommandSubmissionState) :
    (manager.setState id state).commandSubmissions id = state :=
  Function.update_self ..

theorem setState_of_ne (manager : SessionManager) {id other : Str}
    (h : other ≠ id) (state : Option CommandSubmissionState) :
    (manager.setState id state).commandSubmissions other =
      manager.commandSubmissions other :=
  Function.update_of_ne h ..

variable {state : CommandSubmissionState}

theorem pendingOf_of_some (h : manager.commandSubmissions id = some state) :
    manager.pendingOf id = state.pendingCandidates := by
  rw [pendingOf, h]
  rfl

theorem pendingOf_of_none (h : manager.commandSubmissions id = none) :
    manager.pendingOf id = [] := by
  rw [pendingOf, h]
  rfl

theorem pendingOf_setState_of_ne {other : Str} (h : other ≠ id)
    (state : Option CommandSubmissionState) :
    (manager.setState id state).pendingOf other = manager.pendingOf other := by
  rw [pendingOf, setState_of_ne manager h, pendingOf]

/-- A session gives commands away and keeps others. -/
theorem total_moved (manager : SessionManager) (id other command : Str)
    (state : CommandSubmissionState) (commands : List Str) :
    ((manager.setState id (some state)).hand id commands).total other command +
        (if other = id then (manager.pendingOf id).count command else 0) =
      manager.total other command +
        if other = id then
          commands.count command + state.pendingCandidates.count command
        else 0 := by
  have hhanded : (manager.setState id (some state)).handed = manager.handed :=
    rfl
  rw [total_hand, total, total, hhanded]
  by_cases hsame : other = id
  · subst hsame
    rw [pendingOf_of_some (setState_self manager other (some state)),
      if_pos rfl, if_pos rfl, if_pos rfl]
    omega
  · rw [pendingOf_setState_of_ne hsame, if_neg hsame, if_neg hsame,
      if_neg hsame]

theorem hand_nil (manager : SessionManager) (id : Str) :
    manager.hand id [] = manager := by
  rw [hand, map_nil, append_nil]

theorem total_registerCommand (manager : SessionManager)
    (id other command counted : Str) :
    (manager.registerCommand id command).total other counted =
      manager.total other counted +
        if other = id then [command].count counted else 0 := by
  rw [registerCommand]
  cases hstate : manager.commandSubmissions id with
  | none => exact total_hand manager id other counted [command]
  | some state =>
    dsimp only
    split
    · split
      · have hmoved := total_moved manager id other counted { state with
            pendingCandidates := []
            awaitsShellEvent := false
            confirmationOverflowDegraded := true
            lastShellEvent := none }
          (state.pendingCandidates ++ [command])
        simp only [pendingOf_of_some hstate, count_append,
          count_nil, Nat.add_zero] at hmoved
        by_cases hsame : other = id
        · rw [if_pos hsame, if_pos hsame] at hmoved
          rw [if_pos hsame]
          omega
        · rw [if_neg hsame, if_neg hsame] at hmoved
          rw [if_neg hsame]
          exact hmoved
      · have hmoved := total_moved manager id other counted { state with
            pendingCandidates := state.pendingCandidates ++ [command] } []
        rw [hand_nil] at hmoved
        simp only [pendingOf_of_some hstate, count_append,
          count_nil, Nat.zero_add] at hmoved
        by_cases hsame : other = id
        · rw [if_pos hsame, if_pos hsame] at hmoved
          rw [if_pos hsame]
          omega
        · rw [if_neg hsame, if_neg hsame] at hmoved
          rw [if_neg hsame]
          exact hmoved
    · exact total_hand manager id other counted [command]

theorem submitted_registerCommand (manager : SessionManager)
    (id command : Str) :
    (manager.registerCommand id command).submitted = manager.submitted := by
  rw [registerCommand]
  split
  · rfl
  · split
    · dsimp only
      split <;> rfl
    · rfl

theorem commandSubmissions_registerCommand (manager : SessionManager)
    (id command other : Str) (h : manager.commandSubmissions other = none) :
    (manager.registerCommand id command).commandSubmissions other = none := by
  rw [registerCommand]
  cases hstate : manager.commandSubmissions id with
  | none => exact h
  | some state =>
    have hne : other ≠ id := by
      rintro rfl
      exact some_ne_none _ (hstate.symm.trans h)
    have hset (after : CommandSubmissionState) :
        (manager.setState id (some after)).commandSubmissions other = none :=
      (setState_of_ne manager hne _).trans h
    dsimp only
    split
    · split
      · exact hset _
      · exact hset _
    · exact h

/-- The sessions themselves, and how far their removals have come. -/
def life (manager : SessionManager) : (Str → Bool) × (Str → Removal) :=
  (manager.sessions, manager.removal)

theorem life_registerCommand (manager : SessionManager) (id command : Str) :
    (manager.registerCommand id command).life = manager.life := by
  rw [registerCommand]
  split
  · rfl
  · split
    · dsimp only
      split <;> rfl
    · rfl

variable {after : SessionManager}

theorem absent_of_life (hlife : after.life = manager.life)
    (habsent : after.Absent id) : manager.Absent id := by
  obtain ⟨hsessions, hremoval⟩ := Prod.mk.inj hlife
  rw [Absent, ← hsessions, ← hremoval]
  exact habsent

theorem staying_of_life (hlife : after.life = manager.life)
    (h : ∀ id, manager.sessions id = true → manager.removal id = .none) :
    ∀ id, after.sessions id = true → after.removal id = .none := by
  obtain ⟨hsessions, hremoval⟩ := Prod.mk.inj hlife
  rw [hsessions, hremoval]
  exact h

theorem register_accounted (h : manager.Accounted) (id command : Str) :
    (manager.registerCommandSubmission id command).Accounted := by
  rw [registerCommandSubmission]
  cases sanitizeHistoryCommand command with
  | none => exact h
  | some command =>
    dsimp only
    have hlife := life_registerCommand
      { manager with submitted := manager.submitted ++ [(id, command)] }
      id command
    refine ⟨?_, staying_of_life hlife h.staying, ?_⟩
    · intro other counted
      rw [total_registerCommand, submitted_registerCommand,
        count_append, ← h.balanced other counted]
      have hone : [(id, command)].count (other, counted) =
          if other = id then [command].count counted else 0 :=
        count_map_pair id other counted [command]
      rw [hone]
      rfl
    · intro other habsent
      have hnone := h.absent other (absent_of_life hlife habsent)
      exact commandSubmissions_registerCommand _ _ _ _ hnone

/-- A session that is not there has no state that could be touched. -/
theorem absent_setState (h : manager.Accounted)
    {before : CommandSubmissionState}
    (hbefore : manager.commandSubmissions id = some before)
    (state : CommandSubmissionState) (other : Str)
    (habsent : manager.Absent other) :
    (manager.setState id (some state)).commandSubmissions other = none := by
  have hnone := h.absent other habsent
  have hne : other ≠ id := by
    rintro rfl
    exact some_ne_none _ (hbefore.symm.trans hnone)
  exact (setState_of_ne manager hne _).trans hnone

theorem moved_counts (h : manager.Accounted) {commands : List Str}
    (hafter : ((manager.setState id (some state)).hand id commands).Accounted)
    (command : Str) :
    commands.count command + state.pendingCandidates.count command =
      (manager.pendingOf id).count command := by
  have hmoved := total_moved manager id id command state commands
  have hsubmitted :
      ((manager.setState id (some state)).hand id commands).submitted =
        manager.submitted := rfl
  rw [hafter.balanced, hsubmitted, h.balanced, if_pos rfl, if_pos rfl]
    at hmoved
  omega

theorem accounted_moved_iff (h : manager.Accounted)
    {before : CommandSubmissionState}
    (hbefore : manager.commandSubmissions id = some before)
    (state : CommandSubmissionState) (commands : List Str) :
    ((manager.setState id (some state)).hand id commands).Accounted ↔
      ∀ command, commands.count command +
        state.pendingCandidates.count command =
          before.pendingCandidates.count command := by
  rw [← pendingOf_of_some hbefore]
  refine ⟨moved_counts h, fun hcounts => ?_⟩
  refine ⟨fun other command => ?_, h.staying, absent_setState h hbefore state⟩
  have hmoved := total_moved manager id other command state commands
  have hsubmitted :
      ((manager.setState id (some state)).hand id commands).submitted =
        manager.submitted := rfl
  rw [hsubmitted, ← h.balanced other command]
  by_cases hsame : other = id
  · rw [if_pos hsame, if_pos hsame, hcounts command] at hmoved
    omega
  · rw [if_neg hsame, if_neg hsame] at hmoved
    exact hmoved

/-- What is handed over and was not pending is handed over once too often. -/
theorem handed_unexpected (h : manager.Accounted) {command : Str}
    (hpending : state.pendingCandidates = manager.pendingOf id) :
    ¬ ((manager.setState id (some state)).hand id [command]).Accounted := by
  intro hafter
  have hcount := moved_counts h hafter command
  rw [hpending, count_cons_self] at hcount
  omega

theorem flush_accounted (h : manager.Accounted) (id : Str) :
    (manager.flushPendingSubmission id).Accounted := by
  rw [flushPendingSubmission]
  cases hstate : manager.commandSubmissions id with
  | none => exact h
  | some state => exact (accounted_moved_iff h hstate _ _).mpr fun _ => rfl

theorem removal_flush (manager : SessionManager) (id : Str) :
    (manager.flushPendingSubmission id).removal = manager.removal := by
  rw [flushPendingSubmission]
  split <;> rfl

/-- A command that is reported is waited for, unless the report is not going to
be heeded. -/
def Expects (state : CommandSubmissionState) (command : Str) : Prop :=
  state.confirmationOverflowDegraded = true ∨
    command ∈ state.pendingCandidates ∨ state.lastShellEvent = some command

/-- A report finds a session that expects it. -/
def Expected (manager : SessionManager) (id command : Str) : Prop :=
  ∃ state ∈ manager.commandSubmissions id, Expects state command

theorem confirm_accounted_iff (h : manager.Accounted) (id command : Str) :
    (manager.confirmCommand id command).Accounted ↔
      manager.Expected id command := by
  rw [confirmCommand, Expected]
  cases hstate : manager.commandSubmissions id with
  | none =>
    refine iff_of_false (handed_unexpected h ?_) (by simp)
    exact (pendingOf_of_none hstate).symm
  | some state =>
    have hkept : (manager.setState id (some state)).Accounted := by
      have hmoved := accounted_moved_iff h hstate state []
      rw [hand_nil] at hmoved
      exact hmoved.mpr fun _ => Nat.zero_add _
    simp only [getD_some, mem_def, some.injEq,
      exists_eq_left', Expects]
    by_cases hdegraded : state.confirmationOverflowDegraded = true
    · rw [if_pos hdegraded]
      exact iff_of_true hkept (.inl hdegraded)
    · rw [if_neg hdegraded]
      by_cases hpending : command ∈ state.pendingCandidates
      · rw [if_pos hpending]
        refine iff_of_true ?_ (.inr (.inl hpending))
        refine (accounted_moved_iff h hstate _ _).mpr fun counted => ?_
        have hperm := (perm_cons_erase hpending).count_eq counted
        refine Eq.trans ?_ hperm.symm
        exact count_append.symm
      · rw [if_neg hpending]
        by_cases hlast : state.lastShellEvent = some command
        · rw [if_pos hlast]
          exact iff_of_true hkept (.inr (.inr hlast))
        · rw [if_neg hlast]
          refine iff_of_false (handed_unexpected h ?_) (by simp [*])
          exact (pendingOf_of_some hstate).symm

theorem staying_setRemoval (h : manager.Accounted) (removal : Removal)
    (hremoving : manager.removal id ≠ .none) (other : Str)
    (hsession : manager.sessions other = true) :
    (manager.setRemoval id removal).removal other = .none := by
  have hnone := h.staying other hsession
  have hne : other ≠ id := by
    rintro rfl
    exact hremoving hnone
  exact (Function.update_of_ne hne ..).trans hnone

theorem drop_accounted_iff (h : manager.Accounted)
    (hremoving : manager.removal id = .drop) :
    ((manager.setState id none).setRemoval id .done).Accounted ↔
      manager.pendingOf id = [] := by
  have hdropped : ((manager.setState id none).setRemoval id .done).pendingOf
      id = [] := pendingOf_of_none (setState_self manager id none)
  have hhanded : ((manager.setState id none).setRemoval id .done).handed =
      manager.handed := rfl
  have hsubmitted : ((manager.setState id none).setRemoval id .done).submitted =
      manager.submitted := rfl
  constructor
  · intro hafter
    refine eq_nil_iff_forall_not_mem.mpr fun command hmem => ?_
    have hnow := hafter.balanced id command
    have hbefore := h.balanced id command
    rw [total, hdropped, hhanded, hsubmitted, count_nil] at hnow
    rw [total] at hbefore
    have hpositive := count_pos_iff.mpr hmem
    omega
  · intro hempty
    have hstaying := staying_setRemoval h .done (by rw [hremoving]; decide)
    refine ⟨fun other command => ?_, hstaying, fun other habsent => ?_⟩
    · rw [total, hhanded, hsubmitted, ← h.balanced other command, total]
      by_cases hsame : other = id
      · rw [hsame, hdropped, hempty]
      · have hother : ((manager.setState id none).setRemoval id .done).pendingOf
            other = manager.pendingOf other :=
          pendingOf_setState_of_ne hsame none
        rw [hother]
    · by_cases hsame : other = id
      · rw [hsame]
        exact setState_self manager id none
      · refine (setState_of_ne manager hsame none).trans (h.absent other ?_)
        have hremoval : ((manager.setState id none).setRemoval id .done).removal
            other = manager.removal other := Function.update_of_ne hsame ..
        rw [Absent, ← hremoval]
        exact habsent

/-- What keeps the account: the shell reports no command too early and no
command of a session that is not there, and no command is registered while
its session is being removed. -/
def InOrder (manager : SessionManager) : SubmissionEvent → Prop
  | .confirm id command =>
    ∀ sanitized ∈ sanitizeHistoryCommand command, manager.Expected id sanitized
  | .removeDrop id => manager.pendingOf id = []
  | _ => True

instance (state : CommandSubmissionState) (command : Str) :
    Decidable (Expects state command) :=
  inferInstanceAs (Decidable (_ ∨ _))

instance (manager : SessionManager) (id command : Str) :
    Decidable (manager.Expected id command) :=
  inferInstanceAs (Decidable (∃ state ∈ manager.commandSubmissions id, _))

instance (manager : SessionManager) :
    ∀ event, Decidable (manager.InOrder event)
  | .confirm _ command =>
    inferInstanceAs (Decidable (∀ sanitized ∈ sanitizeHistoryCommand command,
      _))
  | .removeDrop _ => inferInstanceAs (Decidable (_ = _))
  | .addSession _ _ | .register _ _ | .flush _ | .removeSession _
  | .removeFlush _ => isTrue trivial

theorem addSession_accounted (h : manager.Accounted) {awaits : Bool}
    (hstep : manager.addSession id awaits = some after) : after.Accounted := by
  rw [addSession] at hstep
  split at hstep
  · exact absurd hstep.symm (some_ne_none after)
  · rename_i hnew
    simp only [Bool.or_eq_true, not_or, Bool.not_eq_true, bne_eq_false_iff_eq]
      at hnew
    obtain ⟨hsessions, hremoval⟩ := hnew
    have hnone := h.absent id ⟨hsessions, .inl hremoval⟩
    obtain rfl := some.inj hstep
    have hmoved (other command : Str) :
        (manager.setState id (some { awaitsShellEvent := awaits })).total
          other command = manager.total other command := by
      have hmoved := total_moved manager id other command
        { awaitsShellEvent := awaits } []
      rw [hand_nil, pendingOf_of_none hnone] at hmoved
      simpa using hmoved
    refine ⟨fun other command => ?_, fun other hsession => ?_,
      fun other habsent => ?_⟩
    · exact (hmoved other command).trans (h.balanced other command)
    · by_cases hsame : other = id
      · exact hsame ▸ hremoval
      · refine h.staying other ?_
        exact (Function.update_of_ne hsame ..).symm.trans hsession
    · have hne : other ≠ id := by
        rintro rfl
        have hself : Function.update manager.sessions other true other = true :=
          Function.update_self ..
        exact absurd (hself.symm.trans habsent.1) (by decide)
      refine (setState_of_ne manager hne _).trans (h.absent other ⟨?_, habsent.2⟩)
      exact (Function.update_of_ne hne ..).symm.trans habsent.1

/-- The removal of a session that is no longer open is under way. -/
theorem accounted_setRemoval (h : manager.Accounted) (id : Str)
    {removal : Removal} (hstart : removal = .flush ∨ removal = .drop)
    (hopen : manager.removal id ≠ .none) :
    (manager.setRemoval id removal).Accounted := by
  refine ⟨h.balanced, staying_setRemoval h removal hopen,
    fun other habsent => h.absent other ?_⟩
  have hne : other ≠ id := by
    rintro rfl
    have hself : (manager.setRemoval other removal).removal other = removal :=
      Function.update_self ..
    have hboth := habsent.2
    rw [hself] at hboth
    rcases hstart with rfl | rfl <;> simp at hboth
  have hother : (manager.setRemoval id removal).removal other =
      manager.removal other := Function.update_of_ne hne ..
  rw [Absent, ← hother]
  exact habsent

theorem removeSession_accounted (h : manager.Accounted) (id : Str) :
    ({ (manager.setRemoval id .flush) with
        sessions := Function.update manager.sessions id false } :
      SessionManager).Accounted := by
  refine ⟨h.balanced, fun other hsession => ?_, fun other habsent => ?_⟩
  · have hne : other ≠ id := by
      rintro rfl
      have hself : Function.update manager.sessions other false other = false :=
        Function.update_self ..
      exact absurd (hself.symm.trans hsession) (by decide)
    refine (Function.update_of_ne hne ..).trans (h.staying other ?_)
    exact (Function.update_of_ne hne ..).symm.trans hsession
  · have hne : other ≠ id := by
      rintro rfl
      have hself : Function.update manager.removal other .flush other =
          .flush := Function.update_self ..
      have hboth : Removal.flush = .none ∨ Removal.flush = .done :=
        hself ▸ habsent.2
      simp at hboth
    refine h.absent other ⟨?_, ?_⟩
    · exact (Function.update_of_ne hne ..).symm.trans habsent.1
    · have hother : Function.update manager.removal id .flush other =
          manager.removal other := Function.update_of_ne hne ..
      exact hother ▸ habsent.2

theorem step_accounted_iff (h : manager.Accounted) (event : SubmissionEvent)
    (hstep : manager.step event = some after) :
    after.Accounted ↔ manager.InOrder event := by
  cases event with
  | addSession id awaits => exact iff_of_true (addSession_accounted h hstep) trivial
  | register id command =>
    obtain rfl := some.inj hstep
    exact iff_of_true (register_accounted h id command) trivial
  | confirm id command =>
    obtain rfl := some.inj hstep
    rw [confirmCommandSubmission, InOrder]
    cases hsanitized : sanitizeHistoryCommand command with
    | none => exact iff_of_true h (by simp)
    | some sanitized =>
      simpa using confirm_accounted_iff h id sanitized
  | flush id =>
    obtain rfl := some.inj hstep
    exact iff_of_true (flush_accounted h id) trivial
  | removeSession id =>
    obtain rfl := some.inj hstep
    refine iff_of_true ?_ trivial
    split
    · exact removeSession_accounted h id
    · exact h
  | removeFlush id =>
    rw [step] at hstep
    split at hstep
    · rename_i hflush
      obtain rfl := some.inj hstep
      refine iff_of_true ?_ trivial
      refine accounted_setRemoval (flush_accounted h id) id (.inr rfl) ?_
      rw [removal_flush, hflush]
      decide
    · exact absurd hstep.symm (some_ne_none after)
  | removeDrop id =>
    rw [step] at hstep
    split at hstep
    · rename_i hdrop
      obtain rfl := some.inj hstep
      exact drop_accounted_iff h hdrop
    · exact absurd hstep.symm (some_ne_none after)

theorem empty_accounted : empty.Accounted :=
  ⟨fun _ _ => rfl, fun _ _ => rfl, fun _ _ => rfl⟩

theorem run_accounted {events : List SubmissionEvent}
    (horder : system.Along InOrder manager events) (h : manager.Accounted)
    (hrun : system.runFrom manager events = some after) : after.Accounted := by
  refine system.run_invariant_along ?_ h horder hrun
  intro before event next hbefore hinOrder hstep
  exact (step_accounted_iff hbefore event hstep).mpr hinOrder

/-- A run accounts for all commands in each of its states exactly if it is in
order.  Then the commands of a session that has been removed have been handed
over as often as they were submitted, and the session has no state. -/
theorem handed_once_iff (events : List SubmissionEvent)
    (manager : SessionManager)
    (hrun : system.runFrom empty events = some manager) :
    (system.Throughout Accounted empty events ↔
      system.Along InOrder empty events) ∧
    (system.Along InOrder empty events → ∀ id, manager.Absent id →
        manager.commandSubmissions id = none ∧
        ∀ command, manager.handed.count (id, command) =
          manager.submitted.count (id, command)) := by
  constructor
  · refine system.throughout_iff_along (fun _ => True) ?_ trivial
      empty_accounted hrun
    intro before event _ next _ hbefore hstep
    exact ⟨trivial, step_accounted_iff hbefore event hstep⟩
  · intro horder id habsent
    have haccounted := run_accounted horder empty_accounted hrun
    have hnone := haccounted.absent id habsent
    refine ⟨hnone, fun command => ?_⟩
    rw [← haccounted.balanced id command, total, pendingOf_of_none hnone]
    rfl

/-- A command is submitted twice, reported twice and then its session removed. -/
def reportedTwice : List SubmissionEvent :=
  [.addSession ['s'] true, .register ['s'] ['l', 's'], .register ['s']
    ['l', 's'], .confirm ['s'] ['l', 's'], .confirm ['s'] ['l', 's'],
    .removeSession ['s'], .removeFlush ['s'], .removeDrop ['s']]

theorem reported_twice_handed_twice : ∃ manager,
    system.runFrom empty reportedTwice = some manager ∧
      manager.handed.count (['s'], ['l', 's']) =
        manager.submitted.count (['s'], ['l', 's']) := by
  refine ⟨_, rfl, ?_⟩
  have honce := handed_once_iff reportedTwice _ rfl
  refine ((honce.2 ?_) ['s'] ⟨rfl, ?_⟩).2 ['l', 's']
  · decide +kernel
  · exact .inr rfl

/-- The shell reports a command before it is registered, and once more after the
session has been removed. -/
def reportedEarly : List SubmissionEvent :=
  [.addSession ['s'] true, .confirm ['s'] ['l', 's'],
    .register ['s'] ['l', 's'], .removeSession ['s'], .removeFlush ['s'],
    .removeDrop ['s'], .confirm ['s'] ['p', 's']]

theorem early_report_handed_twice : ∃ manager,
    system.runFrom empty reportedEarly = some manager ∧
      manager.handed.count (['s'], ['l', 's']) = 2 ∧
      manager.submitted.count (['s'], ['l', 's']) = 1 ∧
      manager.removal ['s'] = .done ∧
      manager.commandSubmissions ['s'] ≠ none := by
  refine ⟨_, rfl, ?_⟩
  decide +kernel

end SessionManager

end NiceTerm.Session
