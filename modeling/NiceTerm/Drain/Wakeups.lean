/-
What can still wake the drain.  A handle field names a timer that is armed,
`writeInFlight` a payload whose write has not settled; so a callback that
returns early because something is scheduled is right to do so.
-/
import NiceTerm.Drain.TerminalOutputDrain

namespace NiceTerm.Drain

open Transition

def WriteJob.isPayload (job : WriteJob) : Bool :=
  match job.task with
  | .payload _ _ => true
  | .external => false

/-- A payload whose write has neither finished nor failed. -/
def WriteJob.isOpen (job : WriteJob) : Bool :=
  job.isPayload && job.phase != .settled

namespace TimerCallback

def isForeground : TimerCallback → Bool
  | .foregroundDelay => true
  | .foregroundFrame _ => true
  | .foregroundFallback _ => true
  | _ => false

/-- The callback looks at the queue when it runs: it is a frame or a timer of
the current schedule cycle, the background timer or a poll. -/
def drains (generation : Nat) : TimerCallback → Bool
  | .foregroundFrame armed => armed == generation
  | .foregroundFallback armed => armed == generation
  | .ack => false
  | _ => true

end TimerCallback

/-- The fields that arm, name and cancel what is still to run. -/
structure Alarms where
  timers : List (Nat × TimerCallback)
  nextHandle : Nat
  foregroundFrame : Option Nat
  foregroundTimer : Option Nat
  backgroundTimer : Option Nat
  ackTimer : Option Nat
  generation : Nat
  microtaskPending : Bool
  microtasks : Nat
  writeInFlight : Bool
  writeQueue : List WriteJob

namespace Alarms

variable {a : Alarms}

/-- A handle field names timers of one kind only. -/
def Owns (a : Alarms) (field : Option Nat)
    (kind : TimerCallback → Bool) : Prop :=
  ∀ handle, field = some handle → handle < a.nextHandle ∧
    ∀ callback, (handle, callback) ∈ a.timers → kind callback = true

structure Owned (a : Alarms) : Prop where
  fresh : ∀ timer ∈ a.timers, timer.1 < a.nextHandle
  frame : a.Owns a.foregroundFrame TimerCallback.isForeground
  timer : a.Owns a.foregroundTimer TimerCallback.isForeground
  background : a.Owns a.backgroundTimer (· == .background)
  ack : a.Owns a.ackTimer (· == .ack)

/-- What is scheduled outside the foreground cycle. -/
structure Standing (a : Alarms) : Prop where
  background : ∀ handle, a.backgroundTimer = some handle →
    (handle, .background) ∈ a.timers
  microtask : a.microtaskPending = true → 0 < a.microtasks
  writing : a.writeInFlight = true → ∃ job ∈ a.writeQueue, job.isOpen = true

/-- What a field says is scheduled is scheduled. -/
structure Pending (a : Alarms) : Prop extends Standing a where
  frame : ∀ handle, a.foregroundFrame = some handle →
    (handle, .foregroundFrame a.generation) ∈ a.timers
  timer : ∀ handle, a.foregroundTimer = some handle →
    ∃ callback, (handle, callback) ∈ a.timers ∧
      callback.isForeground = true ∧ callback.drains a.generation = true

structure Armed (a : Alarms) : Prop where
  owned : a.Owned
  pending : a.Pending

/-- A write, a scheduler callback or a poll is still to run. -/
def Awake (a : Alarms) : Prop :=
  (∃ job ∈ a.writeQueue, job.isPayload = true) ∨
    (∃ timer ∈ a.timers, timer.2.drains a.generation = true) ∨
    0 < a.microtasks

end Alarms

namespace TerminalOutputDrain

variable {d : TerminalOutputDrain} {answers : Answers}

def alarms (d : TerminalOutputDrain) : Alarms where
  timers := d.timers
  nextHandle := d.nextHandle
  foregroundFrame := d.foregroundFrame
  foregroundTimer := d.foregroundTimer
  backgroundTimer := d.backgroundTimer
  ackTimer := d.ackTimer
  generation := d.foregroundScheduleGeneration
  microtaskPending := d.microtaskPending
  microtasks := d.microtasks
  writeInFlight := d.writeInFlight
  writeQueue := d.writeQueue

/-- A drain that still has to write has something that will run. -/
def Live (d : TerminalOutputDrain) : Prop :=
  d.disposed = false → d.mode = .foreground ∨ d.mode = .background →
    hasOutputQueueItems d.queue = true → d.alarms.Awake

structure Watched (d : TerminalOutputDrain) : Prop where
  armed : d.alarms.Armed
  live : d.Live

theorem watched_of_awake (h : d.alarms.Armed) (hawake : d.alarms.Awake) :
    d.Watched :=
  ⟨h, fun _ _ _ => hawake⟩

theorem watched_of_empty (h : d.alarms.Armed)
    (hempty : hasOutputQueueItems d.queue = false) : d.Watched :=
  ⟨h, fun _ _ hitems => absurd (hitems.symm.trans hempty) (by simp)⟩

end TerminalOutputDrain

namespace Alarms

open List Option

variable {a : Alarms}

variable {field : Option Nat} {kind : TimerCallback → Bool}

theorem Owns.arm (h : a.Owns field kind) (callback : TimerCallback) :
    Owns { a with
      timers := a.timers ++ [(a.nextHandle, callback)]
      nextHandle := a.nextHandle + 1 } field kind := by
  intro handle hfield
  obtain ⟨hlt, howned⟩ := h handle hfield
  refine ⟨Nat.lt_succ_of_lt hlt, fun other hother => ?_⟩
  rcases mem_append.mp hother with hold | hnew
  · exact howned other hold
  · rw [mem_singleton, Prod.mk.injEq] at hnew
    exact absurd hnew.1 (Nat.ne_of_lt hlt)

/-- The handle just given out names the timer just armed. -/
theorem owns_new (hfresh : ∀ timer ∈ a.timers, timer.1 < a.nextHandle)
    {callback : TimerCallback} (hkind : kind callback = true) :
    Owns { a with
      timers := a.timers ++ [(a.nextHandle, callback)]
      nextHandle := a.nextHandle + 1 } (some a.nextHandle) kind := by
  intro handle hfield
  rw [← some.inj hfield]
  refine ⟨Nat.lt_succ_self _, fun other hother => ?_⟩
  rcases mem_append.mp hother with hold | hnew
  · exact absurd (hfresh _ hold) (Nat.lt_irrefl _)
  · rw [mem_singleton, Prod.mk.injEq] at hnew
    rw [hnew.2]
    exact hkind

theorem Owns.subset {timers : List (Nat × TimerCallback)}
    (h : a.Owns field kind) (hsubset : timers ⊆ a.timers) :
    Owns { a with timers } field kind := by
  intro handle hfield
  obtain ⟨hlt, howned⟩ := h handle hfield
  exact ⟨hlt, fun callback hmem => howned callback (hsubset hmem)⟩

theorem owns_none (kind : TimerCallback → Bool) : a.Owns none kind :=
  fun _ h => absurd h (by simp)

/-- A timer of another kind survives the cancelling of a field. -/
theorem Owns.survives (h : a.Owns field kind) {timer : Nat × TimerCallback}
    (hmem : timer ∈ a.timers) (hkind : kind timer.2 = false) :
    field ≠ some timer.1 := by
  intro hfield
  have howned := (h timer.1 hfield).2 timer.2 hmem
  exact absurd (howned.symm.trans hkind) (by simp)

theorem Owned.arm (h : a.Owned) (callback : TimerCallback) :
    Owned { a with
      timers := a.timers ++ [(a.nextHandle, callback)]
      nextHandle := a.nextHandle + 1 } where
  fresh := by
    intro timer hmem
    rcases mem_append.mp hmem with hold | hnew
    · exact Nat.lt_succ_of_lt (h.fresh timer hold)
    · rw [mem_singleton.mp hnew]
      exact Nat.lt_succ_self _
  frame := h.frame.arm callback
  timer := h.timer.arm callback
  background := h.background.arm callback
  ack := h.ack.arm callback

theorem Pending.arm (h : a.Pending) (callback : TimerCallback) :
    Pending { a with
      timers := a.timers ++ [(a.nextHandle, callback)]
      nextHandle := a.nextHandle + 1 } where
  frame handle hfield := mem_append_left _ (h.frame handle hfield)
  timer handle hfield := by
    obtain ⟨other, hmem, hkind⟩ := h.timer handle hfield
    exact ⟨other, mem_append_left _ hmem, hkind⟩
  background handle hfield :=
    mem_append_left _ (h.background handle hfield)
  microtask := h.microtask
  writing := h.writing

theorem Armed.arm (h : a.Armed) (callback : TimerCallback) :
    Armed { a with
      timers := a.timers ++ [(a.nextHandle, callback)]
      nextHandle := a.nextHandle + 1 } :=
  ⟨h.owned.arm callback, h.pending.arm callback⟩

theorem Armed.armFrame (h : a.Armed) :
    Armed { a with
      timers := a.timers ++ [(a.nextHandle, .foregroundFrame a.generation)]
      nextHandle := a.nextHandle + 1
      foregroundFrame := some a.nextHandle } := by
  have harmed := h.arm (.foregroundFrame a.generation)
  refine ⟨{ harmed.owned with frame := owns_new h.owned.fresh rfl },
    { harmed.pending with frame := ?_ }⟩
  intro handle hfield
  rw [← some.inj hfield]
  exact mem_append_right _ (mem_singleton_self _)

theorem Armed.armTimer (h : a.Armed) (callback : TimerCallback)
    (hkind : callback.isForeground = true)
    (hdrains : callback.drains a.generation = true) :
    Armed { a with
      timers := a.timers ++ [(a.nextHandle, callback)]
      nextHandle := a.nextHandle + 1
      foregroundTimer := some a.nextHandle } := by
  have harmed := h.arm callback
  refine ⟨{ harmed.owned with timer := owns_new h.owned.fresh hkind },
    { harmed.pending with timer := ?_ }⟩
  intro handle hfield
  rw [← some.inj hfield]
  exact ⟨callback, mem_append_right _ (mem_singleton_self _), hkind, hdrains⟩

theorem Armed.armBackground (h : a.Armed) :
    Armed { a with
      timers := a.timers ++ [(a.nextHandle, .background)]
      nextHandle := a.nextHandle + 1
      backgroundTimer := some a.nextHandle } := by
  have harmed := h.arm .background
  refine ⟨{ harmed.owned with background := owns_new h.owned.fresh rfl },
    { harmed.pending with background := ?_ }⟩
  intro handle hfield
  rw [← some.inj hfield]
  exact mem_append_right _ (mem_singleton_self _)

/-- A cycle that has nothing armed can be given another number. -/
theorem Armed.newCycle (h : a.Armed) (hframe : a.foregroundFrame = none)
    (htimer : a.foregroundTimer = none) (generation : Nat) :
    Armed { a with generation } := by
  refine ⟨{ h.owned with }, ⟨{ h.pending.toStanding with }, ?_, ?_⟩⟩
  · intro handle hfield
    exact absurd (hframe.symm.trans hfield) (by simp)
  · intro handle hfield
    exact absurd (htimer.symm.trans hfield) (by simp)

theorem awake_of_timer {timer : Nat × TimerCallback} (hmem : timer ∈ a.timers)
    (h : timer.2.drains a.generation = true) : a.Awake :=
  .inr (.inl ⟨timer, hmem, h⟩)

theorem Pending.awake_of_frame (h : a.Pending)
    (hframe : a.foregroundFrame.isSome = true) : a.Awake := by
  obtain ⟨handle, hfield⟩ := isSome_iff_exists.mp hframe
  exact awake_of_timer (h.frame handle hfield) (beq_self_eq_true _)

theorem Pending.awake_of_timer (h : a.Pending)
    (htimer : a.foregroundTimer.isSome = true) : a.Awake := by
  obtain ⟨handle, hfield⟩ := isSome_iff_exists.mp htimer
  obtain ⟨callback, hmem, -, hdrains⟩ := h.timer handle hfield
  exact Alarms.awake_of_timer hmem hdrains

theorem Pending.awake_of_background (h : a.Pending)
    (htimer : a.backgroundTimer.isSome = true) : a.Awake := by
  obtain ⟨handle, hfield⟩ := isSome_iff_exists.mp htimer
  exact Alarms.awake_of_timer (h.background handle hfield) rfl

theorem Pending.awake_of_writing (h : a.Pending)
    (hwriting : a.writeInFlight = true) : a.Awake := by
  obtain ⟨job, hmem, hopen⟩ := h.writing hwriting
  exact .inl ⟨job, hmem, (Bool.and_eq_true_iff.mp hopen).1⟩

end Alarms

namespace TerminalOutputDrain

variable {d : TerminalOutputDrain} {answers : Answers}

theorem mem_cancel {handle : Option Nat} {timer : Nat × TimerCallback} :
    timer ∈ (d.cancel handle).timers ↔
      timer ∈ d.timers ∧ handle ≠ some timer.1 := by
  cases handle with
  | none => exact ⟨fun h => ⟨h, by simp⟩, And.left⟩
  | some handle =>
    simp only [cancel, List.mem_filter, bne_iff_ne, ne_eq, Option.some.injEq]
    exact and_congr_right fun _ => not_congr eq_comm

variable (handle : Option Nat)

theorem cancel_alarms :
    (d.cancel handle).alarms =
      { d.alarms with timers := (d.cancel handle).timers } := by
  cases handle with
  | none => rfl
  | some handle => rfl

theorem cancel_frame :
    (d.cancel handle).queue = d.queue ∧ (d.cancel handle).mode = d.mode ∧
      (d.cancel handle).disposed = d.disposed := by
  cases handle with
  | none => exact ⟨rfl, rfl, rfl⟩
  | some handle => exact ⟨rfl, rfl, rfl⟩

theorem cancel_subset :
    (d.cancel handle).timers ⊆ d.timers :=
  fun _ hmem => (mem_cancel.mp hmem).1

theorem cancel_owned (h : d.alarms.Owned) (handle : Option Nat) :
    (d.cancel handle).alarms.Owned := by
  have hsubset : (d.cancel handle).timers ⊆ d.alarms.timers :=
    cancel_subset handle
  rw [cancel_alarms]
  exact
    { fresh := fun timer hmem => h.fresh timer (hsubset hmem)
      frame := h.frame.subset hsubset
      timer := h.timer.subset hsubset
      background := h.background.subset hsubset
      ack := h.ack.subset hsubset }

theorem clearAckTimer_owned (h : d.alarms.Owned) :
    d.clearAckTimer.alarms.Owned := by
  have hcancel := cancel_owned h d.ackTimer
  rw [cancel_alarms] at hcancel
  change Alarms.Owned { (d.cancel d.ackTimer).alarms with ackTimer := none }
  rw [cancel_alarms]
  exact { hcancel with ack := Alarms.owns_none _ }

theorem mem_clearAckTimer (h : d.alarms.Owned) {timer : Nat × TimerCallback}
    (hmem : timer ∈ d.timers) (hother : (timer.2 == .ack) = false) :
    timer ∈ d.clearAckTimer.timers :=
  mem_cancel.mpr ⟨hmem, h.ack.survives hmem hother⟩

theorem clearAckTimer_armed (h : d.alarms.Armed) :
    d.clearAckTimer.alarms.Armed := by
  refine ⟨clearAckTimer_owned h.owned, ?_⟩
  change Alarms.Pending { (d.cancel d.ackTimer).alarms with ackTimer := none }
  rw [cancel_alarms]
  refine ⟨⟨?_, h.pending.microtask, h.pending.writing⟩, ?_, ?_⟩
  · intro handle hfield
    exact mem_clearAckTimer h.owned (h.pending.background handle hfield) rfl
  · intro handle hfield
    exact mem_clearAckTimer h.owned (h.pending.frame handle hfield) rfl
  · intro handle hfield
    obtain ⟨callback, hmem, hkind, hdrains⟩ := h.pending.timer handle hfield
    refine ⟨callback, mem_clearAckTimer h.owned hmem ?_, hkind, hdrains⟩
    cases callback with
    | ack => exact absurd hkind (by decide)
    | _ => rfl

theorem drains_not_ack {generation : Nat} {callback : TimerCallback}
    (h : callback.drains generation = true) : (callback == .ack) = false := by
  cases callback with
  | ack => exact absurd h (by simp [TimerCallback.drains])
  | _ => rfl

theorem clearAckTimer_awake (h : d.alarms.Owned) :
    d.clearAckTimer.alarms.Awake ↔ d.alarms.Awake := by
  change Alarms.Awake { (d.cancel d.ackTimer).alarms with ackTimer := none } ↔ _
  rw [cancel_alarms]
  refine or_congr Iff.rfl (or_congr ⟨?_, ?_⟩ Iff.rfl)
  · rintro ⟨timer, hmem, hdrains⟩
    exact ⟨timer, cancel_subset _ hmem, hdrains⟩
  · rintro ⟨timer, hmem, hdrains⟩
    exact ⟨timer, mem_clearAckTimer h hmem (drains_not_ack hdrains), hdrains⟩

/-- A stretch of code that touches no scheduler but the one of the
acknowledgements. -/
structure Undisturbed (before after : TerminalOutputDrain) : Prop where
  armed : before.alarms.Armed → after.alarms.Armed
  awake : before.alarms.Armed → (after.alarms.Awake ↔ before.alarms.Awake)
  queue : after.queue = before.queue
  mode : after.mode = before.mode
  disposed : after.disposed = before.disposed

variable {before after : TerminalOutputDrain}

theorem Undisturbed.live_iff (h : Undisturbed before after)
    (harmed : before.alarms.Armed) : after.Live ↔ before.Live := by
  unfold Live
  rw [h.queue, h.mode, h.disposed, h.awake harmed]

theorem Undisturbed.watched (h : Undisturbed before after)
    (hbefore : before.Watched) : after.Watched :=
  ⟨h.armed hbefore.armed, (h.live_iff hbefore.armed).mpr hbefore.live⟩

theorem Undisturbed.trans {first second third : TerminalOutputDrain}
    (h : Undisturbed first second) (h' : Undisturbed second third) :
    Undisturbed first third where
  armed hfirst := h'.armed (h.armed hfirst)
  awake hfirst := (h'.awake (h.armed hfirst)).trans (h.awake hfirst)
  queue := h'.queue.trans h.queue
  mode := h'.mode.trans h.mode
  disposed := h'.disposed.trans h.disposed

theorem undisturbed_of_alarms (halarms : after.alarms = before.alarms)
    (hqueue : after.queue = before.queue) (hmode : after.mode = before.mode)
    (hdisposed : after.disposed = before.disposed) : Undisturbed before after :=
  ⟨fun h => halarms ▸ h, fun _ => by rw [halarms], hqueue, hmode, hdisposed⟩

theorem clearAckTimer_undisturbed : Undisturbed d d.clearAckTimer := by
  obtain ⟨hqueue, hmode, hdisposed⟩ := cancel_frame (d := d) d.ackTimer
  exact ⟨clearAckTimer_armed, fun h => clearAckTimer_awake h.owned, hqueue,
    hmode, hdisposed⟩

theorem armAck_undisturbed :
    Undisturbed d { d.arm .ack with ackTimer := some d.nextHandle } := by
  refine ⟨fun h => ⟨?_, { h.pending.arm .ack with }⟩, fun h => ?_, rfl, rfl,
    rfl⟩
  · have harmed := h.owned.arm .ack
    exact { harmed with ack := Alarms.owns_new h.owned.fresh rfl }
  · refine or_congr Iff.rfl (or_congr ⟨?_, ?_⟩ Iff.rfl)
    · rintro ⟨timer, hmem, hdrains⟩
      rcases List.mem_append.mp hmem with hold | hnew
      · exact ⟨timer, hold, hdrains⟩
      · rw [List.mem_singleton.mp hnew] at hdrains
        exact absurd hdrains (by simp [TimerCallback.drains])
    · rintro ⟨timer, hmem, hdrains⟩
      exact ⟨timer, List.mem_append_left _ hmem, hdrains⟩

theorem scheduleAckFlush_undisturbed : Undisturbed d d.scheduleAckFlush := by
  unfold scheduleAckFlush
  split_ifs
  · exact undisturbed_of_alarms rfl rfl rfl rfl
  · exact armAck_undisturbed

theorem sendAck_undisturbed (bytes : Nat) :
    Undisturbed d (d.sendAck bytes) := by
  unfold sendAck
  simp only
  split_ifs
  · exact undisturbed_of_alarms rfl rfl rfl rfl
  · exact undisturbed_of_alarms rfl rfl rfl rfl

theorem flushPendingAck_undisturbed (force : Bool) :
    Undisturbed d (d.flushPendingAck force) := by
  unfold flushPendingAck
  split_ifs
  · exact clearAckTimer_undisturbed
  · exact undisturbed_of_alarms rfl rfl rfl rfl
  · exact scheduleAckFlush_undisturbed
  · have hcleared : Undisturbed d { d.clearAckTimer with
        pendingAckBytes := 0 } :=
      clearAckTimer_undisturbed.trans (undisturbed_of_alarms rfl rfl rfl rfl)
    exact hcleared.trans (sendAck_undisturbed _)

end TerminalOutputDrain

end NiceTerm.Drain
