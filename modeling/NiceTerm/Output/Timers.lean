/-
Flush timers.  Pending output of an attached renderer is always waited for: by
the timer that is scheduled, or by a caller that has yet to flush or to
schedule one.
-/
import NiceTerm.Output.Threads

namespace NiceTerm.Output

open List Option RustStr

/-- What a critical section leaves scheduled or to do. -/
structure Covers (criticalSection : Section) (state : OutputState) : Prop where
  armed : ∀ id, (criticalSection.run state).2.scheduledFlushId = some id →
    state.scheduledFlushId = some id ∨
      .scheduleFlush id ∈ (criticalSection.run state).1
  covered : (criticalSection.run state).2.attached = true →
    (criticalSection.run state).2.pending ≠ [] →
      (criticalSection.run state).2.scheduledFlushId.isSome = true ∨
        .reschedule ∈ (criticalSection.run state).1 ∨
        .flushPending ∈ (criticalSection.run state).1 ∨
        (state.attached = true ∧ state.pending ≠ [] ∧
          (criticalSection.run state).2.scheduledFlushId =
            state.scheduledFlushId ∧
          criticalSection ≠ .flushPending ∧ criticalSection ≠ .reschedule)

section

variable (state : OutputState)
include state

@[simp] theorem updateFlowState_attached :
    (updateFlowState state).2.attached = state.attached := by
  unfold updateFlowState
  split
  · rfl
  · split <;> rfl

@[simp] theorem updateFlowState_scheduledFlushId :
    (updateFlowState state).2.scheduledFlushId = state.scheduledFlushId := by
  unfold updateFlowState
  split
  · rfl
  · split <;> rfl

@[simp] theorem shouldClose_attached :
    (shouldCloseForCatastrophicBacklog state).2.attached =
      state.attached := by
  unfold shouldCloseForCatastrophicBacklog
  split <;> rfl

@[simp] theorem shouldClose_scheduledFlushId :
    (shouldCloseForCatastrophicBacklog state).2.scheduledFlushId =
      state.scheduledFlushId := by
  unfold shouldCloseForCatastrophicBacklog
  split <;> rfl

@[simp] theorem takePendingBatch_scheduledFlushId :
    (takePendingBatch state).2.scheduledFlushId = state.scheduledFlushId := by
  simp only [takePendingBatch]
  split
  · rfl
  · split <;> rfl

@[simp] theorem flushFromState_scheduledFlushId :
    (flushFromState state).2.scheduledFlushId = state.scheduledFlushId := by
  simp [flushFromState]

end

/-- A flush that leaves output to an attached renderer asks for another one. -/
theorem reschedule_mem_of_flush {state : OutputState}
    (hattached : (flushFromState state).2.attached = true)
    (hpending : (flushFromState state).2.pending ≠ []) :
    .reschedule ∈ applyFlushResult (flushFromState state).1 := by
  have hagain : (flushFromState state).1.reschedule =
      ((flushFromState state).2.attached &&
        !(flushFromState state).2.pending.isEmpty) := rfl
  have hreschedule : (flushFromState state).1.reschedule = true := by
    rw [hagain, hattached]
    simpa using hpending
  simp [applyFlushResult, hreschedule]

/-- A section that flushes a state with no timer. -/
theorem covers_flush {criticalSection : Section} {state : OutputState}
    (cleared : OutputState)
    (hrun : criticalSection.run state =
      (applyFlushResult (flushFromState cleared).1,
        (flushFromState cleared).2))
    (hcleared : cleared.scheduledFlushId = none) :
    Covers criticalSection state := by
  refine ⟨fun id hid => ?_, fun hattached hpending => ?_⟩
  · rw [hrun] at hid
    simp [hcleared] at hid
  · rw [hrun] at hattached hpending ⊢
    exact .inr (.inl (reschedule_mem_of_flush hattached hpending))

open OutputState

theorem pushOwned_covers (text : Str) (state : OutputState) :
    Covers (.call (.push text)) state := by
  by_cases htext : text = []
  · subst htext
    have hrun : (Section.call (.push [])).run state = ([], state) := by
      simp [Section.run, Operation.run, pushOwned]
    refine ⟨fun id hid => .inl (by rwa [hrun] at hid),
      fun hattached hpending => ?_⟩
    rw [hrun] at hattached hpending
    exact .inr (.inr (.inr ⟨hattached, hpending, by rw [hrun], nofun, nofun⟩))
  · refine ⟨fun id => ?_, fun hattached _ => ?_⟩
    · simp only [Section.run, Operation.run, pushOwned, htext, ↓reduceIte]
      split
      · simp [disarm]
      · split
        · intro hid
          right
          simp_all [arm, scheduleFlush]
        · intro hid
          left
          simpa using hid
    · simp only [Section.run, Operation.run, pushOwned, htext,
        ↓reduceIte] at hattached ⊢
      split
      · simp
      · next hbelow =>
        split
        · simp [arm]
        · next hunarmed =>
          rw [if_neg hbelow, if_neg hunarmed] at hattached
          simp only [shouldClose_attached, updateFlowState_attached]
            at hattached
          by_cases hscheduled : state.scheduledFlushId.isSome = true
          · left
            simpa using hscheduled
          · right; right; right
            have hnone : state.scheduledFlushId = none := by
              simpa using hscheduled
            have hnonempty : state.pending ≠ [] := by
              rintro hnil
              apply hunarmed
              simp [hattached, hnil, hnone]
            exact ⟨hattached, hnonempty, by simp, nofun, nofun⟩

theorem ack_covers (bytes : Nat) (state : OutputState) :
    Covers (.call (.ack bytes)) state := by
  by_cases hbytes : bytes = 0
  · subst hbytes
    have hrun : (Section.call (.ack 0)).run state = ([], state) := rfl
    refine ⟨fun id hid => .inl (by rwa [hrun] at hid),
      fun hattached hpending => ?_⟩
    rw [hrun] at hattached hpending
    exact .inr (.inr (.inr ⟨hattached, hpending, by rw [hrun], nofun, nofun⟩))
  · refine ⟨fun id => ?_, fun hattached hpending => ?_⟩
    · simp only [Section.run, Operation.run, ack, hbytes, ↓reduceIte]
      split
      · intro hid
        right
        simp_all [arm, scheduleFlush]
      · intro hid
        left
        simpa using hid
    · left
      simp only [Section.run, Operation.run, ack, hbytes,
        ↓reduceIte] at hattached hpending ⊢
      split
      · simp [arm]
      · next hunarmed =>
        rw [if_neg hunarmed] at hattached hpending
        simp_all [isNone_iff_eq_none, isSome_iff_ne_none]

variable (state : OutputState)

theorem close_covers : Covers (.call .close) state := by
  have hpending : (Section.run (.call .close) state).2.pending = [] := by
    have htake : ∀ state, (takeAllPending state).2.pending = [] := by
      intro state
      simp only [takeAllPending]
      split
      · next hpending => exact hpending
      · split <;> rfl
    simp [Section.run, Operation.run, close, flushAllFromState, htake]
  have hscheduled :
      (Section.run (.call .close) state).2.scheduledFlushId = none := by
    have htake : ∀ state, (takeAllPending state).2.scheduledFlushId =
        state.scheduledFlushId := by
      intro state
      simp only [takeAllPending]
      split
      · rfl
      · split <;> rfl
    have htrim : ∀ state maxBytes,
        (trimPendingToMax state maxBytes).scheduledFlushId =
          state.scheduledFlushId := by
      intro state maxBytes
      unfold trimPendingToMax
      split <;> rfl
    simp [Section.run, Operation.run, close, flushAllFromState, htake, htrim,
      disarm]
  refine ⟨fun id hid => ?_, fun _ hne => absurd hpending hne⟩
  simp [hscheduled] at hid

/-- Every critical section sees to the output it leaves. -/
theorem section_covers (criticalSection : Section) (state : OutputState) :
    Covers criticalSection state := by
  cases criticalSection with
  | call operation =>
    cases operation with
    | push text => exact pushOwned_covers text state
    | ack bytes => exact ack_covers bytes state
    | attach => exact covers_flush _ rfl rfl
    | detach =>
      refine ⟨fun id hid => ?_, fun hattached => ?_⟩
      · simp [Section.run, Operation.run, detach, disarm]
          at hid
      · simp [Section.run, Operation.run, detach, disarm]
          at hattached
    | close => exact close_covers state
  | flushIfScheduled flushId =>
    by_cases hstale : state.scheduledFlushId = some flushId
    · by_cases hattached : state.attached = true
      · apply covers_flush { state with scheduledFlushId := none } _ rfl
        simp [Section.run, flushIfScheduled, hstale, hattached]
      · have hrun : (Section.flushIfScheduled flushId).run state =
            ([], { state with scheduledFlushId := none }) := by
          simp [Section.run, flushIfScheduled, hstale, hattached]
        refine ⟨fun id hid => ?_, fun hattached' => ?_⟩
        · rw [hrun] at hid
          cases hid
        · rw [hrun] at hattached'
          exact absurd hattached' hattached
    · have hrun : (Section.flushIfScheduled flushId).run state =
          ([], state) := by
        simp [Section.run, flushIfScheduled, hstale]
      refine ⟨fun id hid => .inl (by rwa [hrun] at hid),
        fun hattached hpending => ?_⟩
      rw [hrun] at hattached hpending
      exact .inr (.inr (.inr ⟨hattached, hpending, by rw [hrun], nofun, nofun⟩))
  | flushPending =>
    by_cases hattached : state.attached = true
    · apply covers_flush state.disarm _ rfl
      simp [Section.run, flushPending, hattached]
    · have hrun : Section.flushPending.run state = ([], state) := by
        simp [Section.run, flushPending, hattached]
      refine ⟨fun id hid => .inl (by rwa [hrun] at hid),
        fun hattached' => ?_⟩
      rw [hrun] at hattached'
      exact absurd hattached' hattached
  | reschedule =>
    refine ⟨fun id => ?_, fun hattached hpending => ?_⟩
    · simp only [Section.run, reschedule]
      split
      · exact .inl
      · intro hid
        right
        simpa [arm, scheduleFlush, eq_comm] using hid
    · left
      simp only [Section.run, reschedule] at hattached hpending ⊢
      split
      · next hidle =>
        rw [if_pos hidle] at hattached hpending
        simp_all
      · rfl

theorem reschedule_not_mem :
    .reschedule ∉ (Section.reschedule.run state).1 := by
  simp only [Section.run, reschedule]
  split <;> simp [arm, scheduleFlush]

theorem flushPending_not_mem :
    .flushPending ∉ (Section.flushPending.run state).1 := by
  simp only [Section.run, flushPending]
  split
  · simp
  · simp [applyFlushResult, sendFlowChange]

structure TimerInvariant (w : World) : Prop where
  armed : ∀ id, w.state.scheduledFlushId = some id →
    id ∈ w.timers ∨ .scheduleFlush id ∈ w.outstanding
  covered : w.state.attached = true → w.state.pending ≠ [] →
    w.state.scheduledFlushId.isSome = true ∨
      .reschedule ∈ w.outstanding ∨ .flushPending ∈ w.outstanding

theorem timerInvariant_initial : TimerInvariant {} where
  armed := nofun
  covered := nofun

variable {w t : World}

/-- A step that runs a critical section, and may use up the action that led to
it. -/
theorem TimerInvariant.of_section (hw : TimerInvariant w)
    (criticalSection : Section) (consumed : Option Action)
    (hstate : t.state = (criticalSection.run w.state).2)
    (hconsumed : ∀ action, consumed = some action →
      (action = .flushPending ∧ criticalSection = .flushPending) ∨
        (action = .reschedule ∧ criticalSection = .reschedule))
    (hmem : ∀ action ∈ w.outstanding ++ (criticalSection.run w.state).1,
      consumed = some action ∨ action ∈ t.outstanding)
    (htimers : ∀ id ∈ w.timers, t.state.scheduledFlushId = some id →
      id ∈ t.timers) : TimerInvariant t := by
  have hcovers := section_covers criticalSection w.state
  have hkept : ∀ action, action ≠ .flushPending → action ≠ .reschedule →
      action ∈ w.outstanding ++ (criticalSection.run w.state).1 →
        action ∈ t.outstanding := by
    intro action hflush hreschedule haction
    rcases hmem action haction with hused | hin
    · rcases hconsumed action hused with ⟨heq, -⟩ | ⟨heq, -⟩
      · exact absurd heq hflush
      · exact absurd heq hreschedule
    · exact hin
  refine ⟨fun id hid => ?_, fun hattached hpending => ?_⟩
  · rcases hcovers.armed id (hstate ▸ hid) with hold | hnew
    · rcases hw.armed id hold with htimer | hwaiting
      · exact .inl (htimers id htimer hid)
      · exact .inr (hkept _ nofun nofun (mem_append_left _ hwaiting))
    · exact .inr (hkept _ nofun nofun (mem_append_right _ hnew))
  · rw [hstate] at hattached hpending ⊢
    rcases hcovers.covered hattached hpending with
      hscheduled | hreschedule | hflush | ⟨hold, hnonempty, hsame, hf, hr⟩
    · exact .inl hscheduled
    · right; left
      rcases hmem _ (mem_append_right _ hreschedule) with hused | hin
      · rcases hconsumed _ hused with ⟨heq, -⟩ | ⟨-, rfl⟩
        · cases heq
        · exact absurd hreschedule (reschedule_not_mem w.state)
      · exact hin
    · right; right
      rcases hmem _ (mem_append_right _ hflush) with hused | hin
      · rcases hconsumed _ hused with ⟨-, rfl⟩ | ⟨heq, -⟩
        · exact absurd hflush (flushPending_not_mem w.state)
        · cases heq
      · exact hin
    · have hin : ∀ action ∈ w.outstanding, action ∈ t.outstanding := by
        intro action haction
        rcases hmem action (mem_append_left _ haction) with hused | hin
        · rcases hconsumed action hused with ⟨-, heq⟩ | ⟨-, heq⟩
          · exact absurd heq hf
          · exact absurd heq hr
        · exact hin
      rw [hsame]
      rcases hw.covered hold hnonempty with hscheduled | hwait | hwait
      · exact .inl hscheduled
      · exact .inr (.inl (hin _ hwait))
      · exact .inr (.inr (hin _ hwait))

theorem TimerInvariant.of_action (hw : TimerInvariant w)
    (consumed : Action) (hstate : t.state = w.state)
    (hflush : consumed ≠ .flushPending) (hreschedule : consumed ≠ .reschedule)
    (hmem : ∀ action ∈ w.outstanding,
      consumed = action ∨ action ∈ t.outstanding)
    (htimers : w.timers ⊆ t.timers)
    (harmed : ∀ id, consumed = .scheduleFlush id → id ∈ t.timers) :
    TimerInvariant t := by
  refine ⟨fun id hid => ?_, fun hattached hpending => ?_⟩
  · rcases hw.armed id (hstate ▸ hid) with htimer | hwaiting
    · exact .inl (htimers htimer)
    · rcases hmem _ hwaiting with hused | hin
      · exact .inl (harmed id hused)
      · exact .inr hin
  · rw [hstate] at hattached hpending ⊢
    rcases hw.covered hattached hpending with hscheduled | hwait | hwait
    · exact .inl hscheduled
    · rcases hmem _ hwait with hused | hin
      · exact absurd hused hreschedule
      · exact .inr (.inl hin)
    · rcases hmem _ hwait with hused | hin
      · exact absurd hused hflush
      · exact .inr (.inr hin)

/-- What the callers have to do after one of them has moved on. -/
theorem mem_outstanding_set {index : Nat} {action : Action}
    {rest : List Action} (h : w.threads[index]? = some (action :: rest))
    (more : List Action) :
    ∀ other ∈ w.outstanding ++ more, action = other ∨
      other ∈ (w.threads.set index (more ++ rest)).flatten := by
  intro other hother
  have hperm := Programs.cons_flatten_set_perm h more
  rcases mem_cons.mp (hperm.mem_iff.mpr hother) with heq | hin
  · exact .inl heq.symm
  · exact .inr hin

theorem TimerInvariant.step {w t : World} {event : Event}
    (hw : TimerInvariant w) (h : w.step event = some t) : TimerInvariant t := by
  cases event with
  | call operation =>
    obtain rfl := some.inj h
    apply hw.of_section (.call operation) none rfl (by simp)
    · intro action haction
      right
      simpa [World.outstanding, World.enter, World.locked, Section.run]
        using haction
    · exact fun id hid _ => hid
  | timer index =>
    simp only [World.step] at h
    cases htimer : w.timers[index]? with
    | none => simp [htimer] at h
    | some flushId =>
      simp only [htimer, some.injEq] at h
      subst t
      apply hw.of_section (.flushIfScheduled flushId) none rfl (by simp)
      · intro action haction
        right
        simpa [World.outstanding, World.enter, World.locked, Section.run]
          using haction
      · intro id hid hscheduled
        -- the timer that has fired is not the one still scheduled
        have hne : id ≠ flushId := by
          rintro rfl
          have hnone := hscheduled
          simp only [World.enter, World.locked, flushIfScheduled]
            at hnone
          split at hnone
          · next hstale => exact hstale hnone
          · split at hnone <;> simp at hnone
        obtain ⟨place, hlt, hplace⟩ := getElem_of_mem hid
        have hother : place ≠ index := by
          rintro rfl
          rw [List.getElem?_eq_getElem hlt, hplace] at htimer
          exact hne (some.inj htimer)
        exact mem_eraseIdx_iff_getElem?.mpr
          ⟨place, hother, by rw [List.getElem?_eq_getElem hlt, hplace]⟩
  | perform index =>
    simp only [World.step] at h
    split at h
    · next action rest hthread =>
      obtain rfl := some.inj h
      have hmem := mem_outstanding_set hthread
      cases action with
      | flushPending =>
        apply hw.of_section .flushPending (some .flushPending) rfl
        · rintro action heq
          exact .inl ⟨(some.inj heq).symm, rfl⟩
        · intro action haction
          exact (hmem _ action haction).imp (congrArg some) id
        · exact fun id hid _ => hid
      | reschedule =>
        apply hw.of_section .reschedule (some .reschedule) rfl
        · rintro action heq
          exact .inr ⟨(some.inj heq).symm, rfl⟩
        · intro action haction
          exact (hmem _ action haction).imp (congrArg some) id
        · exact fun id hid _ => hid
      | scheduleFlush flushId =>
        apply hw.of_action (t := w.perform index rest (.scheduleFlush flushId))
          (.scheduleFlush flushId) rfl (by simp) (by simp)
        · intro action haction
          exact hmem [] action (mem_append_left _ haction)
        · exact subset_append_left _ _
        · rintro id heq
          obtain rfl : flushId = id := by simpa using heq
          exact mem_append_right _ mem_cons_self
      | sendFlowChange paused =>
        apply hw.of_action (t := w.perform index rest (.sendFlowChange paused))
          (.sendFlowChange paused) rfl (by simp) (by simp) _
          (List.Subset.refl _) (by simp)
        intro action haction
        exact hmem [] action (mem_append_left _ haction)
      | sendCloseForOverflow =>
        apply hw.of_action (t := w.perform index rest .sendCloseForOverflow)
          .sendCloseForOverflow rfl (by simp) (by simp) _
          (List.Subset.refl _) (by simp)
        intro action haction
        exact hmem [] action (mem_append_left _ haction)
      | sink payload =>
        apply hw.of_action (t := w.perform index rest (.sink payload))
          (.sink payload) rfl (by simp) (by simp) _
          (List.Subset.refl _) (by simp)
        intro action haction
        exact hmem [] action (mem_append_left _ haction)
    · cases h

theorem run_timerInvariant {events : List Event} (hw : TimerInvariant w)
    (hrun : system.runFrom w events = some t) : TimerInvariant t :=
  system.run_invariant (fun _ _ _ hs hst => hs.step hst) hw hrun

/-- A timer that is not the scheduled one changes nothing. -/
theorem stale_timer {index id : Nat} (htimer : w.timers[index]? = some id)
    (hstale : w.state.scheduledFlushId ≠ some id)
    (h : w.step (.timer index) = some t) :
    t.state = w.state ∧ t.taken = w.taken ∧ t.outstanding = w.outstanding := by
  simp only [World.step, htimer, some.injEq] at h
  subst t
  simp [World.enter, World.locked, flushIfScheduled, hstale, World.outstanding]

/-- When no caller is between its critical sections, the pending output of an
attached renderer waits for a live timer, and no other timer flushes it or
disarms that one. -/
theorem no_stranded_output {events : List Event} {w : World}
    (hrun : system.runFrom {} events = some w) :
    (w.outstanding = [] → w.state.attached = true → w.state.pending ≠ [] →
      ∃ id, w.state.scheduledFlushId = some id ∧ id ∈ w.timers) ∧
    ∀ index id t, w.timers[index]? = some id →
      w.state.scheduledFlushId ≠ some id →
        w.step (.timer index) = some t →
          t.state = w.state ∧ t.taken = w.taken ∧
            t.outstanding = w.outstanding := by
  have hw := run_timerInvariant timerInvariant_initial hrun
  refine ⟨fun hidle hattached hpending => ?_,
    fun index id t => stale_timer⟩
  rcases hw.covered hattached hpending with hscheduled | hwait | hwait
  · obtain ⟨id, hid⟩ := isSome_iff_exists.mp hscheduled
    rcases hw.armed id hid with htimer | hwait
    · exact ⟨id, hid, htimer⟩
    · simp [hidle] at hwait
  · simp [hidle] at hwait
  · simp [hidle] at hwait

/-- Output pushed to an attached renderer waits for timer 2. -/
theorem pushed_output_waits :
    ∃ w, system.runFrom {} [.call .attach, .call (.push ['a']),
        .perform 1] = some w ∧
      w.state.pending = [['a']] ∧ w.outstanding = [] ∧
      ∃ id, w.state.scheduledFlushId = some id ∧ id ∈ w.timers :=
  ⟨_, rfl, rfl, rfl, (no_stranded_output
    (show system.runFrom {} [.call .attach, .call (.push ['a']),
      .perform 1] = some _ from rfl)).1 rfl rfl (by decide)⟩

end NiceTerm.Output
