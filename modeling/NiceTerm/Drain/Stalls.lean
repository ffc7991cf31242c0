/-
A drain with output queued is woken again.  Every callback that leaves output
in the queue leaves a write, a scheduler or a poll behind, unless it is a poll
of `waitForIdle` that finds its deadline passed.
-/
import NiceTerm.Drain.Accounting
import NiceTerm.Drain.Wakeups

namespace NiceTerm.Drain

open List Transition

namespace TerminalOutputDrain

variable {d : TerminalOutputDrain} {answers : Answers}

open Alarms

theorem clearForegroundSchedulers_armed (howned : d.alarms.Owned)
    (hstanding : d.alarms.Standing) (generation : Nat) :
    Alarms.Armed { d.clearForegroundSchedulers.alarms with generation } := by
  have hcancelled := cancel_owned (cancel_owned howned d.foregroundFrame)
    d.foregroundTimer
  rw [cancel_alarms, cancel_alarms] at hcancelled
  change Alarms.Armed
    { ((d.cancel d.foregroundFrame).cancel d.foregroundTimer).alarms with
      foregroundFrame := none
      foregroundTimer := none
      generation }
  rw [cancel_alarms, cancel_alarms]
  refine ⟨{ hcancelled with
    frame := owns_none _
    timer := owns_none _ }, ?_⟩
  refine ⟨⟨?_, hstanding.microtask, hstanding.writing⟩, ?_, ?_⟩
  · intro handle hfield
    have hmem := hstanding.background handle hfield
    exact mem_cancel.mpr ⟨mem_cancel.mpr
      ⟨hmem, howned.frame.survives hmem rfl⟩,
      howned.timer.survives hmem rfl⟩
  · intro handle hfield
    exact absurd hfield (by simp)
  · intro handle hfield
    exact absurd hfield (by simp)

theorem cancelForeground_armed (h : d.alarms.Armed) :
    d.cancelForeground.alarms.Armed := by
  have hcleared := clearForegroundSchedulers_armed h.owned
    h.pending.toStanding (d.foregroundScheduleGeneration + 1)
  refine ⟨{ hcleared.owned with }, { hcleared.pending with microtask := ?_ }⟩
  intro hpending
  exact absurd hpending (by simp [cancelForeground, alarms])

theorem cancelBackground_armed (h : d.alarms.Armed) :
    d.cancelBackground.alarms.Armed := by
  have hcancelled := cancel_owned h.owned d.backgroundTimer
  rw [cancel_alarms] at hcancelled
  change Alarms.Armed
    { (d.cancel d.backgroundTimer).alarms with backgroundTimer := none }
  rw [cancel_alarms]
  refine ⟨{ hcancelled with background := owns_none _ }, ?_⟩
  refine ⟨⟨?_, h.pending.microtask, h.pending.writing⟩, ?_, ?_⟩
  · intro handle hfield
    exact absurd hfield (by simp)
  · intro handle hfield
    have hmem := h.pending.frame handle hfield
    exact mem_cancel.mpr ⟨hmem, h.owned.background.survives hmem rfl⟩
  · intro handle hfield
    obtain ⟨callback, hmem, hkind, hdrains⟩ := h.pending.timer handle hfield
    refine ⟨callback, mem_cancel.mpr
      ⟨hmem, h.owned.background.survives hmem ?_⟩, hkind, hdrains⟩
    cases callback with
    | background => exact absurd hkind (by decide)
    | _ => rfl

theorem mem_append_self {timer : Nat × TimerCallback}
    {timers : List (Nat × TimerCallback)} : timer ∈ timers ++ [timer] :=
  mem_append_right _ (mem_singleton_self _)

section

variable (h : d.alarms.Armed)
include h

theorem scheduleForeground_watched :
    (d.scheduleForeground answers).Watched := by
  unfold scheduleForeground
  split_ifs with hscheduled hdelay hlow
  · refine ⟨h, fun hlive _ _ => ?_⟩
    simp only [Bool.or_eq_true, or_assoc] at hscheduled
    rcases hscheduled with hframe | htimer | hmicrotask | hdisposed
    · exact h.pending.awake_of_frame hframe
    · exact h.pending.awake_of_timer htimer
    · exact .inr (.inr (h.pending.microtask hmicrotask))
    · exact absurd (hdisposed.symm.trans hlive) (by simp)
  · exact watched_of_awake
      (h.armTimer .foregroundDelay rfl rfl)
      (awake_of_timer mem_append_self rfl)
  · refine watched_of_awake ⟨{ h.owned with }, { h.pending with
      microtask := fun _ => Nat.succ_pos _ }⟩ ?_
    exact .inr (.inr (Nat.succ_pos _))
  · simp only [Bool.or_eq_true, not_or, Bool.not_eq_true,
      Option.isSome_eq_false_iff, Option.isNone_iff_eq_none] at hscheduled
    obtain ⟨⟨⟨hframe, htimer⟩, -⟩, -⟩ := hscheduled
    have hcycle := h.newCycle hframe htimer
      (d.foregroundScheduleGeneration + 1)
    have harmed := hcycle.armFrame.armTimer
      (.foregroundFallback (d.foregroundScheduleGeneration + 1))
      rfl (beq_self_eq_true _)
    refine watched_of_awake harmed ?_
    exact awake_of_timer mem_append_self (beq_self_eq_true _)

theorem armBackground_watched : d.armBackground.Watched :=
  watched_of_awake h.armBackground (awake_of_timer mem_append_self rfl)

theorem scheduleBackground_watched :
    d.scheduleBackground.Watched := by
  unfold scheduleBackground
  simp only
  split_ifs with hdisposed hscheduled hcatchUp
  · exact ⟨h, fun hlive => absurd (hdisposed.symm.trans hlive) (by simp)⟩
  · exact armBackground_watched
      (cancelBackground_armed (d := d.resolveBackgroundSchedule) h)
  · exact watched_of_awake h (h.pending.awake_of_background hscheduled)
  · exact armBackground_watched (d := d.resolveBackgroundSchedule) h

/-- Whoever ends with `schedule` leaves the drain watched. -/
theorem schedule_watched :
    (d.schedule answers).Watched := by
  unfold schedule
  split_ifs with hdisposed hempty hidle hbackground
  · exact ⟨h, fun hlive => absurd (hdisposed.symm.trans hlive) (by simp)⟩
  · apply (flushPendingAck_undisturbed true).watched
    exact watched_of_empty h hempty
  · refine ⟨h, fun _ hmode _ => ?_⟩
    simp only [Bool.or_eq_true, beq_iff_eq, or_assoc] at hidle
    rcases hidle with hwriting | hhibernating | hhibernated
    · exact h.pending.awake_of_writing hwriting
    · exact absurd hmode (by simp [hhibernating])
    · exact absurd hmode (by simp [hhibernated])
  · exact scheduleBackground_watched h
  · exact scheduleForeground_watched h

/-- The job of a payload keeps the drain awake until its continuation has
run. -/
theorem writePayload_watched (payload : QueuedOutputChunk)
    (next : Continuation) : (writePayload payload next d).Watched := by
  refine watched_of_awake ⟨{ h.owned with }, { h.pending with
    writing := fun _ => ?_ }⟩ (.inl ?_)
  · exact ⟨_, mem_append_right _ (mem_singleton_self _), rfl⟩
  · exact ⟨_, mem_append_right _ (mem_singleton_self _), rfl⟩

end

theorem empty_of_dequeue_none {queue next : OutputQueue} {maxBytes : Nat}
    (hroom : 0 < maxBytes)
    (h : dequeueOutputChunk queue maxBytes = (none, next)) :
    hasOutputQueueItems next = false := by
  rw [dequeueOutputChunk_eq_none h]
  by_contra hitems
  rw [dequeueOutputChunk_of_items (Nat.ne_of_gt hroom)
    (Bool.of_not_eq_false hitems)] at h
  exact absurd (congrArg Prod.fst h) (Option.some_ne_none _)

theorem flushOne_watched (h : d.alarms.Armed) {maxBytes : Nat}
    (hroom : 0 < maxBytes) : (d.flushOne answers maxBytes).Watched := by
  unfold flushOne
  split_ifs
  · exact schedule_watched h
  · split
    · next queue hdequeue =>
        apply (flushPendingAck_undisturbed true).watched
        exact watched_of_empty h (empty_of_dequeue_none hroom hdequeue)
    · next payload queue hdequeue =>
        exact writePayload_watched (d := { d with queue }) h payload .schedule

theorem flushForeground_watched (h : d.alarms.Armed)
    (hroom : 0 < answers.writeChunkBytes) :
    (d.flushForeground answers).Watched := by
  unfold flushForeground
  split_ifs
  · exact schedule_watched h
  · apply flushOne_watched _ hroom
    exact h

theorem backgroundChunkBytes_pos : 0 < d.backgroundChunkBytes := by
  unfold backgroundChunkBytes
  split_ifs
  · decide
  · decide

theorem flushBackground_watched (h : d.alarms.Armed) :
    (d.flushBackground answers).Watched := by
  unfold flushBackground
  split_ifs
  · exact schedule_watched h
  · exact flushOne_watched (d := d.resolveBackgroundSchedule) h
      backgroundChunkBytes_pos

theorem pollRest_watched (h : d.alarms.Armed) (deadline : Nat)
    (hempty : hasOutputQueueItems d.queue = false) :
    (d.pollRest deadline).Watched := by
  unfold pollRest
  split_ifs
  · exact watched_of_empty (h.arm (.poll deadline)) hempty
  · have hflushed := (flushPendingAck_undisturbed true).watched
      (watched_of_empty h hempty)
    exact ⟨hflushed.armed, hflushed.live⟩

/-- A poll in time goes on writing, waits for a write or finds the queue
empty. -/
theorem poll_watched (h : d.alarms.Armed) (hlive : d.disposed = false)
    (hroom : 0 < answers.writeChunkBytes) {deadline : Nat}
    (hintime : ¬ deadline < answers.now) :
    (d.poll answers deadline).Watched := by
  have hopen : ¬ d.disposed = true := by simp [hlive]
  rw [poll, if_neg hopen, if_neg hintime]
  split_ifs with hitems
  · split
    · next payload queue hdequeue =>
        exact writePayload_watched (d := { d with queue }) h payload _
    · next queue hdequeue =>
        exact pollRest_watched (d := { d with queue }) h deadline
          (empty_of_dequeue_none hroom hdequeue)
  · exact pollRest_watched h deadline (Bool.of_not_eq_true hitems)

/-- A late poll gives up and schedules nothing. -/
theorem poll_late {deadline : Nat} (hlate : deadline < answers.now) :
    d.poll answers deadline = d.resolveIdle false := by
  unfold poll
  split_ifs
  · rfl
  · rfl

theorem cancelForeground_frame :
    d.cancelForeground.queue = d.queue ∧ d.cancelForeground.mode = d.mode ∧
      d.cancelForeground.disposed = d.disposed := by
  obtain ⟨hqueue, hmode, hdisposed⟩ := cancel_frame (d := d) d.foregroundFrame
  obtain ⟨hqueue', hmode', hdisposed'⟩ :=
    cancel_frame (d := d.cancel d.foregroundFrame) d.foregroundTimer
  exact ⟨hqueue'.trans hqueue, hmode'.trans hmode, hdisposed'.trans hdisposed⟩

theorem waitForIdle_watched (h : d.alarms.Armed)
    (hlive : d.disposed = false) (hroom : 0 < answers.writeChunkBytes)
    (timeoutMs : Nat) : (d.waitForIdle answers timeoutMs).Watched := by
  have hcancelled := cancelBackground_armed (cancelForeground_armed h)
  refine poll_watched hcancelled ?_ hroom (by omega)
  exact ((cancel_frame _).2.2.trans cancelForeground_frame.2.2).trans hlive

theorem setMode_watched (h : d.alarms.Armed) (hlive : d.disposed = false)
    (mode : TerminalOutputDrainMode) : (d.setMode answers mode).Watched := by
  have hopen : ¬ d.disposed = true := by simp [hlive]
  by_cases hmode : d.mode = mode
  · rw [setMode, if_neg hopen, if_pos hmode]
    exact schedule_watched h
  · rw [setMode, if_neg hopen, if_neg hmode]
    apply schedule_watched
    simp only
    split_ifs
    · exact cancelBackground_armed
        (cancelForeground_armed (d := { d with mode }) h)
    · exact cancelBackground_armed (d := { d with mode }) h
    · exact cancelForeground_armed (d := { d with mode }) h
    · exact h

theorem enqueue_watched (h : d.Watched) (chunk : QueuedOutputChunk) :
    (d.enqueue answers chunk).Watched := by
  unfold enqueue
  split_ifs
  · exact h
  · apply schedule_watched
    exact h.armed

/-- What is left when the timer at `index` fires. -/
def fired (index : Nat) (d : TerminalOutputDrain) : TerminalOutputDrain :=
  { d with timers := d.timers.eraseIdx index }

theorem fired_owned (h : d.alarms.Owned) (index : Nat) :
    (d.fired index).alarms.Owned := by
  have hsubset : (d.fired index).timers ⊆ d.alarms.timers :=
    fun _ hmem => mem_of_mem_eraseIdx hmem
  exact
    { fresh := fun timer hmem => h.fresh timer (hsubset hmem)
      frame := h.frame.subset hsubset
      timer := h.timer.subset hsubset
      background := h.background.subset hsubset
      ack := h.ack.subset hsubset }

variable {index handle : Nat} {callback : TimerCallback}

section

variable (hfired : d.timers[index]? = some (handle, callback))
include hfired

theorem mem_fired {timer : Nat × TimerCallback} (hmem : timer ∈ d.timers)
    (hother : timer.2 ≠ callback) : timer ∈ (d.fired index).timers := by
  obtain ⟨position, hposition⟩ := mem_iff_getElem?.mp hmem
  refine mem_eraseIdx_iff_getElem?.mpr ⟨position, ?_, hposition⟩
  rintro rfl
  rw [hposition, Option.some.injEq] at hfired
  exact hother (congrArg Prod.snd hfired)

theorem fired_standing
    (h : d.alarms.Standing) (hother : callback ≠ .background) :
    (d.fired index).alarms.Standing where
  background handle hfield :=
    mem_fired hfired (h.background handle hfield) hother.symm
  microtask := h.microtask
  writing := h.writing

/-- A timer outside the current schedule fires without being missed. -/
theorem fired_armed
    (h : d.alarms.Armed) (hbackground : callback ≠ .background)
    (hforeground : callback.isForeground = true →
      callback.drains d.foregroundScheduleGeneration = false) :
    (d.fired index).alarms.Armed := by
  have hother : ∀ other : TimerCallback, other.isForeground = true →
      other.drains d.foregroundScheduleGeneration = true →
      other ≠ callback := by
    rintro other hkind hdrains rfl
    exact absurd (hdrains.symm.trans (hforeground hkind)) (by simp)
  refine ⟨fired_owned h.owned index,
    ⟨fired_standing hfired h.pending.toStanding hbackground, ?_, ?_⟩⟩
  · intro handle hfield
    refine mem_fired hfired (h.pending.frame handle hfield) ?_
    exact hother _ rfl (beq_self_eq_true _)
  · intro handle hfield
    obtain ⟨other, hmem, hkind, hdrains⟩ := h.pending.timer handle hfield
    exact ⟨other, mem_fired hfired hmem (hother other hkind hdrains), hkind,
      hdrains⟩

/-- A callback that does not look at the queue is not missed either. -/
theorem fired_live (h : d.Live)
    (hidle : callback.drains d.foregroundScheduleGeneration = false) :
    (d.fired index).Live := by
  intro hlive hmode hitems
  rcases h hlive hmode hitems with hjob | ⟨timer, hmem, hdrains⟩ | hmicrotask
  · exact .inl hjob
  · refine awake_of_timer (mem_fired hfired hmem ?_) hdrains
    rintro rfl
    exact absurd (hdrains.symm.trans hidle) (by simp)
  · exact .inr (.inr hmicrotask)

end

theorem claimAndFlush_watched {generation : Nat}
    (hfired : d.timers[index]? = some (handle, callback)) (h : d.Watched)
    (hkind : callback.isForeground = true)
    (hdrains : callback.drains d.foregroundScheduleGeneration =
      (generation == d.foregroundScheduleGeneration))
    (hlive : d.disposed = false) (hroom : 0 < answers.writeChunkBytes) :
    ((d.fired index).claimAndFlush answers generation).Watched := by
  have hbackground : callback ≠ .background := by
    rintro rfl
    exact absurd hkind (by decide)
  by_cases hclaimed : generation = d.foregroundScheduleGeneration
  · have hopen : ¬ (generation ≠
        (d.fired index).foregroundScheduleGeneration ∨
        (d.fired index).disposed = true) := by
      simp [fired, hclaimed, hlive]
    rw [claimAndFlush, if_neg hopen]
    apply flushForeground_watched _ hroom
    exact clearForegroundSchedulers_armed (fired_owned h.armed.owned index)
      (fired_standing hfired h.armed.pending.toStanding hbackground) _
  · have hidle : callback.drains d.foregroundScheduleGeneration = false := by
      rw [hdrains]
      exact beq_false_of_ne hclaimed
    have hstale : generation ≠
        (d.fired index).foregroundScheduleGeneration ∨
        (d.fired index).disposed = true := .inl hclaimed
    rw [claimAndFlush, if_pos hstale]
    exact ⟨fired_armed hfired h.armed hbackground fun _ => hidle,
      fired_live hfired h.live hidle⟩

theorem foregroundDelay_watched
    (hfired : d.timers[index]? = some (handle, .foregroundDelay))
    (h : d.alarms.Armed) (hroom : 0 < answers.writeChunkBytes) :
    ((d.fired index).runTimer answers .foregroundDelay).Watched := by
  apply flushForeground_watched _ hroom
  have howned := fired_owned h.owned index
  have hstanding := fired_standing hfired h.pending.toStanding (by simp)
  refine ⟨{ howned with timer := owns_none _ },
    ⟨{ hstanding with }, ?_, ?_⟩⟩
  · intro handle hfield
    exact mem_fired hfired (h.pending.frame handle hfield) (by simp)
  · intro handle hfield
    exact absurd hfield (by simp [alarms])

theorem background_watched
    (hfired : d.timers[index]? = some (handle, .background))
    (h : d.alarms.Armed) :
    ((d.fired index).runTimer answers .background).Watched := by
  apply flushBackground_watched
  have howned := fired_owned h.owned index
  refine ⟨{ howned with background := owns_none _ },
    ⟨⟨?_, h.pending.microtask, h.pending.writing⟩, ?_, ?_⟩⟩
  · intro handle hfield
    exact absurd hfield (by simp [alarms])
  · intro handle hfield
    exact mem_fired hfired (h.pending.frame handle hfield) (by simp)
  · intro handle hfield
    obtain ⟨other, hmem, hkind, hdrains⟩ := h.pending.timer handle hfield
    refine ⟨other, mem_fired hfired hmem ?_, hkind, hdrains⟩
    rintro rfl
    exact absurd hkind (by decide)

theorem ack_watched (hfired : d.timers[index]? = some (handle, .ack))
    (h : d.Watched) : ((d.fired index).runTimer answers .ack).Watched := by
  apply (flushPendingAck_undisturbed true).watched
  have harmed := fired_armed hfired h.armed (by simp) (by simp
    [TimerCallback.isForeground])
  exact ⟨⟨{ harmed.owned with ack := owns_none _ },
    { harmed.pending with }⟩, fired_live hfired h.live rfl⟩

variable {jobs : List WriteJob}

/-- A change of the jobs that leaves each payload and each open write. -/
theorem writeQueue_watched (h : d.Watched)
    (hpayload : (∃ job ∈ d.writeQueue, job.isPayload = true) →
      ∃ job ∈ jobs, job.isPayload = true)
    (hopen : d.writeInFlight = true → ∃ job ∈ jobs, job.isOpen = true) :
    Watched { d with writeQueue := jobs } where
  armed := ⟨{ h.armed.owned with }, { h.armed.pending with writing := hopen }⟩
  live hlive hmode hitems := by
    rcases h.live hlive hmode hitems with hjob | hrest
    · exact .inl (hpayload hjob)
    · exact .inr hrest

theorem headMoves_payload {job job' : WriteJob}
    (hkind : job'.isPayload = job.isPayload)
    (h : ∃ other ∈ job :: jobs, other.isPayload = true) :
    ∃ other ∈ job' :: jobs, other.isPayload = true := by
  obtain ⟨other, hmem, hpayload⟩ := h
  rcases mem_cons.mp hmem with rfl | hrest
  · exact ⟨job', mem_cons_self, hkind.trans hpayload⟩
  · exact ⟨other, mem_cons_of_mem _ hrest, hpayload⟩

theorem headMoves_open {job job' : WriteJob}
    (hkind : job.isOpen = true → job'.isOpen = true)
    (h : ∃ other ∈ job :: jobs, other.isOpen = true) :
    ∃ other ∈ job' :: jobs, other.isOpen = true := by
  obtain ⟨other, hmem, hopen⟩ := h
  rcases mem_cons.mp hmem with rfl | hrest
  · exact ⟨job', mem_cons_self, hkind hopen⟩
  · exact ⟨other, mem_cons_of_mem _ hrest, hopen⟩

/-- The write of the first job settles: its continuation is still to run. -/
theorem settled_watched {payload : QueuedOutputChunk} {next : Continuation}
    {phase : JobPhase} (h : d.Watched)
    (hjobs : d.writeQueue = ⟨.payload payload next, phase⟩ :: jobs) :
    Watched { d with
      writeQueue := ⟨.payload payload next, .settled⟩ :: jobs
      writeInFlight := false } := by
  refine ⟨⟨{ h.armed.owned with }, { h.armed.pending with
    writing := fun hwriting => ?_ }⟩, fun hlive hmode hitems => ?_⟩
  · exact absurd hwriting (by simp [alarms])
  · rcases h.live hlive hmode hitems with hjob | hrest
    · change ∃ job ∈ d.writeQueue, _ at hjob
      rw [hjobs] at hjob
      refine .inl (headMoves_payload ?_ hjob)
      rfl
    · exact .inr hrest

theorem startWrite_watched {outcome : WriteOutcome}
    {next : TerminalOutputDrain} (h : d.Watched)
    (hstep : d.startWrite outcome = some next) : next.Watched := by
  have hwriting := h.armed.pending.writing
  unfold startWrite at hstep
  split at hstep
  · next payload continuation jobs hjobs =>
      have hsettled := settled_watched h hjobs
      cases outcome with
      | accepts =>
        rw [← Option.some.inj hstep]
        apply writeQueue_watched h
        · rw [hjobs]
          exact headMoves_payload rfl
        · intro hflight
          have hopen := hwriting hflight
          change ∃ job ∈ d.writeQueue, _ at hopen
          rw [hjobs] at hopen
          exact headMoves_open (fun _ => rfl) hopen
      | noTerminal =>
        rw [← Option.some.inj hstep]
        exact ⟨hsettled.armed, hsettled.live⟩
      | throws =>
        rw [← Option.some.inj hstep]
        exact ⟨hsettled.armed, hsettled.live⟩
  · next jobs hjobs =>
      rw [← Option.some.inj hstep]
      apply writeQueue_watched h
      · rw [hjobs]
        exact headMoves_payload rfl
      · intro hflight
        have hopen := hwriting hflight
        change ∃ job ∈ d.writeQueue, _ at hopen
        rw [hjobs] at hopen
        exact headMoves_open (fun hjob => absurd hjob (by decide)) hopen
  · exact absurd hstep (by simp)

theorem finishWrite_watched {next : TerminalOutputDrain} (h : d.Watched)
    (hstep : d.finishWrite = some next) : next.Watched := by
  have hwriting := h.armed.pending.writing
  unfold finishWrite at hstep
  split at hstep
  · next payload continuation jobs hjobs =>
      rw [← Option.some.inj hstep]
      apply (flushPendingAck_undisturbed _).watched
      have hsettled := settled_watched h hjobs
      exact ⟨hsettled.armed, hsettled.live⟩
  · next jobs hjobs =>
      rw [← Option.some.inj hstep]
      apply writeQueue_watched h
      · rw [hjobs]
        exact headMoves_payload rfl
      · intro hflight
        have hopen := hwriting hflight
        change ∃ job ∈ d.writeQueue, _ at hopen
        rw [hjobs] at hopen
        exact headMoves_open (fun hjob => absurd hjob (by decide)) hopen
  · exact absurd hstep (by simp)

theorem dropSettled_armed {task : WriteTask}
    (h : d.alarms.Armed) (hjobs : d.writeQueue = ⟨task, .settled⟩ :: jobs) :
    Alarms.Armed { d.alarms with writeQueue := jobs } := by
  refine ⟨{ h.owned with }, { h.pending with writing := ?_ }⟩
  intro hflight
  obtain ⟨job, hmem, hopen⟩ := h.pending.writing hflight
  change job ∈ d.writeQueue at hmem
  rw [hjobs] at hmem
  rcases mem_cons.mp hmem with rfl | hrest
  · exact absurd hopen (by simp [WriteJob.isOpen])
  · exact ⟨job, hrest, hopen⟩

/-- The drain can do without the poll that ends here: its queue is empty, its
mode drains nothing, or a write, a scheduler callback or another poll is still
to run. -/
def Dispensable (rest : TerminalOutputDrain) : Prop :=
  hasOutputQueueItems rest.queue = false ∨ rest.mode = .hibernating ∨
    rest.mode = .hibernated ∨ rest.alarms.Awake

theorem live_iff_dispensable (hlive : d.disposed = false) :
    d.Live ↔ d.Dispensable := by
  unfold Live Dispensable
  rw [← Bool.not_eq_true]
  cases hmode : d.mode with
  | foreground => simp [hlive, or_iff_not_imp_left]
  | background => simp [hlive, or_iff_not_imp_left]
  | hibernating => simp
  | hibernated => simp

end TerminalOutputDrain

open TerminalOutputDrain

/-- A poll of `waitForIdle` whose deadline has passed ends only when the drain
can do without it. -/
def PollDispensable (d : TerminalOutputDrain) (event : Answers × Action) :
    Prop :=
  match event.2 with
  | .timer index => ∀ handle deadline,
      d.timers[index]? = some (handle, .poll deadline) →
      deadline < event.1.now →
      Dispensable { d with timers := d.timers.eraseIdx index }
  | .settleWrite => ∀ payload deadline jobs,
      d.writeQueue = ⟨.payload payload (.poll deadline), .settled⟩ :: jobs →
      deadline < event.1.now → Dispensable { d with writeQueue := jobs }
  | _ => True

/-- What one callback does to the watch: it keeps the bookkeeping, and keeps
the drain live exactly when it ends no poll too early. -/
structure Watches (next : TerminalOutputDrain) (condition : Prop) : Prop where
  armed : next.disposed = false → next.alarms.Armed
  live_iff : next.Live ↔ condition

variable {next : TerminalOutputDrain}

theorem watches_of_watched {condition : Prop}
    (h : next.Watched) (hcondition : condition) : Watches next condition :=
  ⟨fun _ => h.armed, iff_of_true h.live hcondition⟩

theorem fireTimer_watches {d : TerminalOutputDrain} {answers : Answers}
    {index : Nat} (h : d.Watched) (hlive : d.disposed = false)
    (hroom : 0 < answers.writeChunkBytes)
    (hstep : d.fireTimer answers index = some next) :
    Watches next (PollDispensable d (answers, .timer index)) := by
  unfold fireTimer at hstep
  split at hstep
  · exact absurd hstep (by simp)
  · next handle callback hfired =>
      rw [← Option.some.inj hstep]
      have hother : (∀ deadline, callback ≠ .poll deadline) →
          PollDispensable d (answers, .timer index) := by
        intro hpoll _ deadline hsame
        rw [hfired, Option.some.injEq, Prod.mk.injEq] at hsame
        exact absurd hsame.2 (hpoll deadline)
      cases callback with
      | foregroundDelay =>
        exact watches_of_watched
          (foregroundDelay_watched hfired h.armed hroom) (hother (by simp))
      | foregroundFrame generation =>
        exact watches_of_watched
          (claimAndFlush_watched hfired h rfl rfl hlive hroom)
          (hother (by simp))
      | foregroundFallback generation =>
        exact watches_of_watched
          (claimAndFlush_watched hfired h rfl rfl hlive hroom)
          (hother (by simp))
      | background =>
        exact watches_of_watched (background_watched hfired h.armed)
          (hother (by simp))
      | ack =>
        exact watches_of_watched (ack_watched hfired h) (hother (by simp))
      | poll deadline =>
        have harmed := fired_armed hfired h.armed (by simp)
          (by simp [TimerCallback.isForeground])
        by_cases hlate : deadline < answers.now
        · change Watches ((d.fired index).poll answers deadline) _
          rw [poll_late hlate]
          refine ⟨fun _ => harmed, ?_⟩
          have hrest : (d.fired index).Live ↔ (d.fired index).Dispensable :=
            live_iff_dispensable hlive
          refine hrest.trans ⟨fun hneeded handle' deadline' hsame _ => ?_,
            fun hall => hall handle deadline hfired hlate⟩
          exact hneeded
        · refine watches_of_watched (poll_watched harmed hlive hroom hlate) ?_
          intro handle' deadline' hsame hlate'
          rw [hfired, Option.some.injEq, Prod.mk.injEq,
            TimerCallback.poll.injEq] at hsame
          exact absurd (hsame.2 ▸ hlate') hlate

theorem settleWrite_watches {d : TerminalOutputDrain} {answers : Answers}
    (h : d.Watched) (hlive : d.disposed = false)
    (hroom : 0 < answers.writeChunkBytes)
    (hstep : d.settleWrite answers = some next) :
    Watches next (PollDispensable d (answers, .settleWrite)) := by
  unfold settleWrite at hstep
  split at hstep
  · next payload jobs hjobs =>
      rw [← Option.some.inj hstep]
      refine watches_of_watched
        (schedule_watched (dropSettled_armed h.armed hjobs)) ?_
      intro other deadline rest hsame
      rw [hjobs] at hsame
      exact absurd hsame (by simp)
  · next payload deadline jobs hjobs =>
      rw [← Option.some.inj hstep]
      have harmed : Alarms.Armed (alarms { d with writeQueue := jobs }) :=
        dropSettled_armed h.armed hjobs
      have hflush := flushPendingAck_undisturbed
        (d := { d with writeQueue := jobs }) true
      have hflushed := hflush.armed harmed
      have hopen := hflush.disposed.trans hlive
      by_cases hlate : deadline < answers.now
      · rw [poll_late hlate]
        refine ⟨fun _ => hflushed, ?_⟩
        have hsame := hflush.live_iff harmed
        refine (hsame.trans (live_iff_dispensable hlive)).trans ⟨?_,
          fun hall => hall payload deadline jobs hjobs hlate⟩
        intro hneeded other deadline' rest hother _
        rw [hjobs, cons.injEq] at hother
        rw [← hother.2]
        exact hneeded
      · refine watches_of_watched (poll_watched hflushed hopen hroom hlate) ?_
        intro other deadline' rest hother hlate'
        rw [hjobs, cons.injEq, WriteJob.mk.injEq, WriteTask.payload.injEq,
          Continuation.poll.injEq] at hother
        exact absurd (hother.1.1.2 ▸ hlate') hlate
  · next jobs hjobs =>
      rw [← Option.some.inj hstep]
      refine watches_of_watched ⟨dropSettled_armed h.armed hjobs, ?_⟩ ?_
      · intro _ hmode hitems
        rcases h.live hlive hmode hitems with ⟨job, hmem, hpayload⟩ | hrest
        · change job ∈ d.writeQueue at hmem
          rw [hjobs] at hmem
          rcases mem_cons.mp hmem with rfl | hmem
          · exact absurd hpayload (by decide)
          · exact .inl ⟨job, hmem, hpayload⟩
        · exact .inr hrest
      · intro other deadline rest hsame
        rw [hjobs] at hsame
        exact absurd hsame (by simp)
  · exact absurd hstep (by simp)

/-- One callback keeps the drain live exactly when no poll that it ends is
still needed. -/
theorem drainStep_watches {d : TerminalOutputDrain} {event : Answers × Action}
    (h : d.Watched) (hroom : 0 < event.1.writeChunkBytes)
    (hstep : drainStep d event = some next) :
    Watches next (PollDispensable d event) := by
  obtain ⟨answers, action⟩ := event
  have hopen := live_of_step hstep
  unfold drainStep at hstep
  split_ifs at hstep
  cases action with
  | enqueue chunk =>
    rw [← Option.some.inj hstep]
    exact watches_of_watched (enqueue_watched h _) trivial
  | setMode mode =>
    rw [← Option.some.inj hstep]
    exact watches_of_watched (setMode_watched h.armed hopen mode) trivial
  | waitForIdle timeoutMs =>
    rw [← Option.some.inj hstep]
    exact watches_of_watched
      (waitForIdle_watched h.armed hopen hroom timeoutMs) trivial
  | writeExternal =>
    rw [← Option.some.inj hstep]
    refine watches_of_watched (writeQueue_watched h ?_ ?_) trivial
    · rintro ⟨job, hmem, hpayload⟩
      exact ⟨job, mem_append_left _ hmem, hpayload⟩
    · intro hflight
      obtain ⟨job, hmem, hjob⟩ := h.armed.pending.writing hflight
      exact ⟨job, mem_append_left _ hmem, hjob⟩
  | dispose ackRemaining =>
    have hdisposed := dispose_disposed (d := d) ackRemaining
    rw [Option.some.inj hstep] at hdisposed
    have hnot : next.disposed ≠ false := by simp [hdisposed]
    exact ⟨fun hlive => absurd hlive hnot,
      iff_of_true (fun hlive => absurd hlive hnot) trivial⟩
  | timer index => exact fireTimer_watches h hopen hroom hstep
  | microtask =>
    unfold runMicrotask at hstep
    split_ifs at hstep
    rw [← Option.some.inj hstep]
    refine watches_of_watched (flushForeground_watched ?_ hroom) trivial
    exact ⟨{ h.armed.owned with }, { h.armed.pending with
      microtask := fun hpending => absurd hpending (by simp [alarms]) }⟩
  | startWrite outcome =>
    exact watches_of_watched (startWrite_watched h hstep) trivial
  | finishWrite =>
    exact watches_of_watched (finishWrite_watched h hstep) trivial
  | settleWrite => exact settleWrite_watches h hopen hroom hstep

theorem armed_initial : (alarms {}).Armed := by
  have hnone : ∀ kind, Alarms.Owns (alarms {}) none kind :=
    fun _ _ hfield => absurd hfield (by simp)
  refine ⟨⟨fun _ hmem => absurd hmem not_mem_nil, hnone _, hnone _,
    hnone _, hnone _⟩, ⟨⟨?_, ?_, ?_⟩, ?_, ?_⟩⟩
  · intro handle hfield
    exact absurd hfield (by simp [alarms])
  · intro hpending
    exact absurd hpending (by simp [alarms])
  · intro hwriting
    exact absurd hwriting (by simp [alarms])
  · intro handle hfield
    exact absurd hfield (by simp [alarms])
  · intro handle hfield
    exact absurd hfield (by simp [alarms])

/-- With write chunks of at least one byte, no state of a run stalls if and
only if every poll of `waitForIdle` that gives up can be done without. -/
theorem never_stalls_iff {events : List (Answers × Action)}
    {d : TerminalOutputDrain}
    (hroom : ∀ event ∈ events, 0 < event.1.writeChunkBytes)
    (hrun : drainSystem.runFrom {} events = some d) :
    drainSystem.Throughout Live {} events ↔
      drainSystem.Along PollDispensable {} events := by
  refine drainSystem.throughout_iff_along
    (fun d => d.disposed = false → d.alarms.Armed) ?_
    (fun _ => armed_initial) (fun _ _ hitems => absurd hitems (by decide)) hrun
  intro d event hmem next harmed hlive hstep
  have hwatches := drainStep_watches ⟨harmed (live_of_step hstep), hlive⟩
    (hroom event hmem) hstep
  exact ⟨hwatches.armed, hwatches.live_iff⟩

/-- One byte is being written for `waitForIdle` while another is enqueued; the
write finishes `lateMs` after the start, the deadline being at 100. -/
def lateWriteRun (lateMs : Nat) : List (Answers × Action) :=
  let answers : Answers := ⟨32 * 1024, 0, false, 0⟩
  [(answers, .enqueue ⟨⟨[98], 1⟩, rfl⟩), (answers, .waitForIdle 100),
    (answers, .startWrite .accepts), (answers, .enqueue ⟨⟨[99], 1⟩, rfl⟩),
    ({ answers with now := lateMs }, .finishWrite),
    ({ answers with now := lateMs }, .settleWrite)]

/-- What remains: a byte in the queue, no job, no timer and no microtask. -/
def strandedDrain : TerminalOutputDrain where
  queue := ⟨[⟨[99], 1⟩], 1⟩
  backendUnackedBytes := 1
  foregroundScheduleGeneration := 2
  nextHandle := 3
  idleResults := [false]
  acked := 1
  enqueued := 2

/-- The poll gives up at the end of its write and the second byte stays. -/
theorem late_poll_strands :
    drainSystem.runFrom {} (lateWriteRun 101) = some strandedDrain ∧
      ¬ strandedDrain.Live := by
  constructor
  · decide +kernel
  · intro hlive
    have hawake := hlive rfl (.inl rfl) rfl
    exact absurd hawake (by simp [Alarms.Awake, alarms, strandedDrain])

/-- Written in time, the second byte is given to the terminal next. -/
theorem timely_poll_goes_on :
    drainSystem.Throughout Live {} (lateWriteRun 0) := by
  have hrun : drainSystem.runFrom {} (lateWriteRun 0) = some
      { strandedDrain with
        queue := {}
        writingBytes := 1
        writeInFlight := true
        writeQueue := [⟨.payload ⟨[99], 1⟩ (.poll 100), .waiting⟩]
        idleResults := [] } := by
    decide +kernel
  refine (never_stalls_iff (by simp [lateWriteRun]) hrun).mpr ?_
  apply drainSystem.along_of_forall
  intro event hevent d
  have hnow : ∀ deadline, ¬ deadline < event.1.now := by
    simp only [lateWriteRun, mem_cons, not_mem_nil, or_false]
      at hevent
    rcases hevent with rfl | rfl | rfl | rfl | rfl | rfl <;>
      exact fun deadline => Nat.not_lt_zero deadline
  obtain ⟨answers, action⟩ := event
  cases action with
  | timer index => exact fun _ deadline _ h => absurd h (hnow deadline)
  | settleWrite => exact fun _ deadline _ _ h => absurd h (hnow deadline)
  | _ => trivial

end NiceTerm.Drain
