/-
What the status of a tunnel says about its task.
-/
import NiceTerm.Ssh.TunnelOwnership

namespace NiceTerm.Ssh.Tunnels

open Option TunnelManager
open RustStr (Str)

def status (entry : Option TunnelRuntimeEntry) : Option TunnelRuntimeStatus :=
  entry.map TunnelRuntimeEntry.status

/-- The call stands between taking the entry over and its end. -/
def UnderWay (manager : TunnelManager) (i : Nat) : Prop :=
  (∃ connectionId, manager.opens i = .starting connectionId) ∨
    ∃ connectionId, manager.opens i = .spawned connectionId

/-- A call that is under way may still set the status. -/
def Awaited (manager : TunnelManager) : Prop :=
  ∃ i, UnderWay manager i ∧ manager.isCurrent i = true

/-- No call is under way, and no task has ended without having finished. -/
def Quiescent (manager : TunnelManager) : Prop :=
  ∀ i, (manager.opens i = .idle ∨ ∃ ok, manager.opens i = .returned ok) ∧
    ∀ exit, manager.tasks i ≠ .exited exit

/-- The tunnel has a connection, its running task is not marked as
reconnecting, and a task that a call installs finds the tunnel starting, or
another task running. -/
structure Undisturbed (manager : TunnelManager) (event : TunnelEvent) : Prop
    where
  fresh : FreshGeneration manager event
  connected : ∀ i, event ≠ .check i none
  marked : ∀ connectionId, event = .markReconnecting connectionId →
    status manager.entry ≠ some .running
  installed : ∀ i, event = .installTask i →
    status manager.entry = some .starting ∨
      status manager.entry = some .running

variable {manager next : TunnelManager} {i : Nat}

theorem isCurrent_iff :
    manager.isCurrent i = true ↔ ∃ entry, manager.entry = some entry ∧
        entry.generation = manager.generations i := by
  rw [isCurrent]
  cases manager.entry with
  | none => simp
  | some entry => simp

theorem setGenerationStatus_cases (entry : Option TunnelRuntimeEntry)
    (generation : Nat) (newStatus : TunnelRuntimeStatus) (error : Option Str) :
    (∃ old, entry = some old ∧ old.generation = generation ∧
        setGenerationStatus entry generation newStatus error true =
          (some { old with
              shutdownTx := none
              status := newStatus
              error := error },
            (sender entry).toList)) ∨
      ((∀ old, entry = some old → old.generation ≠ generation) ∧
        (setGenerationStatus entry generation newStatus error true).1 =
          entry) := by
  by_cases hstale : ∀ old, entry = some old → old.generation ≠ generation
  · exact .inr ⟨hstale, setGenerationStatus_stale hstale _ _ _⟩
  · simp only [not_forall, not_not] at hstale
    obtain ⟨old, hentry, hgeneration⟩ := hstale
    refine .inl ⟨old, hentry, hgeneration, ?_⟩
    rw [hentry, setGenerationStatus, if_neg (not_not.mpr hgeneration),
      if_pos rfl]
    rfl

theorem finishTask_cases (entry : Option TunnelRuntimeEntry)
    (generation : Nat) (exit : TunnelTaskExit) :
    (∃ old, entry = some old ∧ old.generation = generation ∧
        finishTask entry generation exit =
          (some { old with
              shutdownTx := none
              status := (exitStatus old.status old.error exit).1
              error := (exitStatus old.status old.error exit).2 },
            (sender entry).toList)) ∨
      ((∀ old, entry = some old → old.generation ≠ generation) ∧
        (finishTask entry generation exit).1 = entry) := by
  by_cases hstale : ∀ old, entry = some old → old.generation ≠ generation
  · exact .inr ⟨hstale, finishTask_stale hstale _⟩
  · simp only [not_forall, not_not] at hstale
    obtain ⟨old, hentry, hgeneration⟩ := hstale
    refine .inl ⟨old, hentry, hgeneration, ?_⟩
    rw [hentry, finishTask, if_neg (not_not.mpr hgeneration)]
    rfl

theorem markConnectionReconnecting_eq (entry : Option TunnelRuntimeEntry)
    (connectionId : Str) :
    markConnectionReconnecting entry connectionId =
      (some { entry.getD (.new (some connectionId)) with
          status := .reconnecting
          error := none }, []) := by
  rw [markConnectionReconnecting, markEnabled,
    if_neg fun h => TunnelRuntimeStatus.noConfusion h.2,
    if_neg Bool.false_ne_true]

theorem status_markReconnecting (entry : Option TunnelRuntimeEntry)
    (connectionId : Str) :
    status (markConnectionReconnecting entry connectionId).1 =
      some .reconnecting := by
  rw [markConnectionReconnecting_eq]
  rfl

theorem sender_markReconnecting (entry : Option TunnelRuntimeEntry)
    (connectionId : Str) :
    sender (markConnectionReconnecting entry connectionId).1 =
      sender entry := by
  rw [markConnectionReconnecting_eq]
  exact sender_getD entry (some connectionId)

/-- A task that ends leaves the tunnel neither starting nor running. -/
theorem exitStatus_ne (old : TunnelRuntimeStatus) (error : Option Str)
    (exit : TunnelTaskExit) :
    (exitStatus old error exit).1 ≠ .starting ∧
      (exitStatus old error exit).1 ≠ .running := by
  cases exit with
  | stopped =>
    by_cases h : old = .stopped <;> simp [exitStatus, h]
  | disconnected message =>
    by_cases h : old = .reconnecting <;> simp [exitStatus, h]
  | error message => simp [exitStatus]

/-- The entry says that the tunnel runs exactly if it holds a sender. -/
def Runs (entry : Option TunnelRuntimeEntry) : Prop :=
  status entry = some .running ↔ ∃ i, sender entry = some i

theorem runs_of_stopped {entry : TunnelRuntimeEntry}
    (hstatus : entry.status ≠ .running) (hsender : entry.shutdownTx = none) :
    Runs (some entry) := by
  refine iff_of_false (fun h => hstatus (some.inj h)) ?_
  rintro ⟨i, hi⟩
  exact absurd (hsender.symm.trans hi) (some_ne_none i).symm

variable {entry : Option TunnelRuntimeEntry}

theorem setGenerationStatus_runs
    (h : Runs entry) (generation : Nat) (error : Option Str) :
    Runs (setGenerationStatus entry generation .error error true).1 := by
  rcases setGenerationStatus_cases entry generation .error error with
    ⟨old, -, -, hresult⟩ | ⟨-, hresult⟩
  · rw [hresult]
    exact runs_of_stopped TunnelRuntimeStatus.noConfusion rfl
  · rw [hresult]
    exact h

theorem installTask_runs (h : Runs entry)
    (generation task : Nat) (connectionId : Option Str) :
    Runs (installTask entry generation task connectionId).1 := by
  rcases installTask_cases entry generation task connectionId with
    ⟨old, -, -, -, hresult⟩ | ⟨-, hresult⟩
  · rw [hresult]
    exact iff_of_true rfl ⟨task, rfl⟩
  · rw [hresult]
    exact h

theorem finishTask_runs (h : Runs entry) (generation : Nat)
    (exit : TunnelTaskExit) : Runs (finishTask entry generation exit).1 := by
  rcases finishTask_cases entry generation exit with
    ⟨old, -, -, hresult⟩ | ⟨-, hresult⟩
  · rw [hresult]
    exact runs_of_stopped (exitStatus_ne old.status old.error exit).2 rfl
  · rw [hresult]
    exact h

theorem markReconnecting_runs (h : Runs entry)
    (hstatus : status entry ≠ some .running) (connectionId : Str) :
    Runs (markConnectionReconnecting entry connectionId).1 := by
  have hsender : sender entry = none := by
    cases hsome : sender entry with
    | none => rfl
    | some i => exact absurd (h.mpr ⟨i, hsome⟩) hstatus
  rw [markConnectionReconnecting_eq]
  exact runs_of_stopped TunnelRuntimeStatus.noConfusion
    ((sender_getD entry (some connectionId)).trans hsender)

theorem markDisconnected_runs (h : Runs entry) (connectionId : Str) :
    Runs (markConnectionDisconnected entry connectionId).1 := by
  by_cases hstatus : isReconnecting entry = true
  · rw [markConnectionDisconnected_spared hstatus]
    exact h
  · rw [markConnectionDisconnected_taken (Bool.eq_false_iff.mpr hstatus)]
    exact runs_of_stopped TunnelRuntimeStatus.noConfusion rfl

theorem Runs.step {manager next : TunnelManager} {event : TunnelEvent}
    (h : Runs manager.entry) (hsteady : Undisturbed manager event)
    (hstep : manager.step event = some next) : Runs next.entry := by
  cases stepped_of_step hstep with
  | alreadyOpen | check | noConnection | spawn | exit => exact h
  | beginStarting hphase =>
    exact runs_of_stopped TunnelRuntimeStatus.noConfusion rfl
  | fail hphase => exact setGenerationStatus_runs h _ _
  | installTask hphase => exact installTask_runs h _ _ _
  | close => exact runs_of_stopped TunnelRuntimeStatus.noConfusion rfl
  | delete =>
    exact iff_of_false (some_ne_none _).symm
      fun ⟨i, hi⟩ => absurd hi (some_ne_none i).symm
  | markReconnecting =>
    exact markReconnecting_runs h (hsteady.marked _ rfl) _
  | spared | markDisconnected => exact markDisconnected_runs h _
  | finishTask hphase => exact finishTask_runs h _ _

/-- The task whose sender the entry holds is of its generation and has not
finished, and neither has a task that a call is about to install. -/
structure Alive (manager : TunnelManager) : Prop where
  held : ∀ i, sender manager.entry = some i →
    manager.isCurrent i = true ∧ manager.tasks i ≠ .finished
  inHand : ∀ i connectionId, manager.opens i = .spawned connectionId →
    manager.isCurrent i = true → status manager.entry = some .starting →
      manager.tasks i ≠ .finished

theorem isCurrent_congr (hentry : next.entry = manager.entry)
    (hgenerations : next.generations = manager.generations) (i : Nat) :
    next.isCurrent i = manager.isCurrent i := by
  rw [isCurrent, isCurrent, hentry, hgenerations]

theorem Alive.congr (h : Alive manager)
    (hentry : next.entry = manager.entry)
    (hgenerations : next.generations = manager.generations)
    (hopens : ∀ i c, next.opens i = .spawned c →
      (∃ c, manager.opens i = .spawned c) ∨ next.tasks i ≠ .finished)
    (htasks : ∀ i, manager.isCurrent i = true → next.tasks i = .finished →
      manager.tasks i = .finished) : Alive next := by
  have hcurrent := isCurrent_congr hentry hgenerations
  refine ⟨fun i hi => ?_, fun i c hi hnext hstatus hfinished => ?_⟩
  · obtain ⟨hbefore, hunfinished⟩ := h.held i (hentry ▸ hi)
    exact ⟨(hcurrent i).trans hbefore,
      fun hfinished => hunfinished (htasks i hbefore hfinished)⟩
  · have hbefore : manager.isCurrent i = true := (hcurrent i).symm.trans hnext
    rcases hopens i c hi with ⟨c', hspawned⟩ | hrunning
    · exact h.inHand i c' hspawned hbefore (hentry ▸ hstatus)
        (htasks i hbefore hfinished)
    · exact hrunning hfinished

theorem alive_of_stopped (hsender : sender manager.entry = none)
    (hstatus : status manager.entry ≠ some .starting) : Alive manager :=
  ⟨fun i hi => absurd (hsender.symm.trans hi) (some_ne_none i).symm,
    fun _ _ _ _ hstarting => absurd hstarting hstatus⟩

variable {phase : OpenPhase}

/-- A call that returns or has spawned nothing has no task to install. -/
theorem spawned_setOpen (hphase : ∀ c, phase ≠ .spawned c) {j : Nat}
    {connectionId : Option Str}
    (h : (manager.setOpen i phase).opens j = .spawned connectionId) :
    manager.opens j = .spawned connectionId := by
  by_cases hji : j = i
  · rw [hji, manager.setOpen_self] at h
    exact absurd h (hphase connectionId)
  · rw [manager.setOpen_of_ne phase hji] at h
    exact h

theorem finished_setTask {j : Nat} (hji : j ≠ i) {phase : TaskPhase}
    (h : (manager.setTask i phase).tasks j = .finished) :
    manager.tasks j = .finished := by
  rw [manager.setTask_of_ne phase hji] at h
  exact h

theorem not_isCurrent
    (h : ∀ old, manager.entry = some old →
      old.generation ≠ manager.generations i) :
    manager.isCurrent i ≠ true := by
  intro hcurrent
  obtain ⟨entry, hentry, hgeneration⟩ := isCurrent_iff.mp hcurrent
  exact h entry hentry hgeneration

theorem Alive.setGenerationStatus {manager : TunnelManager} (h : Alive manager)
    (i : Nat) (error : Option Str) :
    Alive ((manager.leave (setGenerationStatus manager.entry
      (manager.generations i) .error error true)).setOpen i
        (.returned false)) := by
  rcases setGenerationStatus_cases manager.entry (manager.generations i)
    .error error with ⟨old, -, -, hresult⟩ | ⟨-, hresult⟩
  · rw [hresult]
    exact alive_of_stopped rfl (by simp [status, setOpen, leave])
  · exact h.congr hresult rfl (fun j c hj => .inl ⟨c, spawned_setOpen
        (fun _ => OpenPhase.noConfusion) hj⟩)
      (fun _ _ hfinished => hfinished)

theorem Alive.installTask {manager : TunnelManager} (h : Alive manager)
    {i : Nat} {connectionId : Option Str}
    (hphase : manager.opens i = .spawned connectionId) :
    Alive ((manager.leave (installTask manager.entry (manager.generations i) i
      connectionId)).setOpen i (.returned true)) := by
  rcases installTask_cases manager.entry (manager.generations i) i
    connectionId with ⟨old, hold, hgeneration, hstarting, hresult⟩ |
      ⟨-, hresult⟩
  · have hcurrent : manager.isCurrent i = true :=
      isCurrent_iff.mpr ⟨old, hold, hgeneration⟩
    have hunfinished := h.inHand i connectionId hphase hcurrent
      (by rw [hold]; exact congrArg some hstarting)
    rw [hresult]
    refine ⟨fun j hj => ?_, fun j c _ _ hstatus => ?_⟩
    · rw [← some.inj hj]
      exact ⟨isCurrent_iff.mpr ⟨_, rfl, hgeneration⟩, hunfinished⟩
    · exact absurd (some.inj hstatus) TunnelRuntimeStatus.noConfusion
  · exact h.congr (congrArg Prod.fst hresult) rfl
      (fun j c hj => .inl ⟨c, spawned_setOpen
        (fun _ => OpenPhase.noConfusion) hj⟩)
      (fun _ _ hfinished => hfinished)

theorem Alive.finishTask {manager : TunnelManager} (h : Alive manager)
    (i : Nat) (exit : TunnelTaskExit) :
    Alive ((manager.leave (finishTask manager.entry (manager.generations i)
      exit)).setTask i .finished) := by
  rcases finishTask_cases manager.entry (manager.generations i) exit with
    ⟨old, -, -, hresult⟩ | ⟨hstale, hresult⟩
  · rw [hresult]
    exact alive_of_stopped rfl fun hstarting =>
      (exitStatus_ne old.status old.error exit).1 (some.inj hstarting)
  · refine h.congr hresult rfl (fun j c hj => .inl ⟨c, hj⟩)
      (fun j hcurrent hfinished => ?_)
    have hji : j ≠ i := by
      rintro rfl
      exact not_isCurrent hstale hcurrent
    exact finished_setTask hji hfinished

theorem Alive.markReconnecting {manager : TunnelManager} (h : Alive manager)
    (connectionId : Str) :
    Alive (manager.leave
      (markConnectionReconnecting manager.entry connectionId)) := by
  refine ⟨fun i hi => ?_, fun i c _ _ hstarting => ?_⟩
  · have hbefore : sender manager.entry = some i :=
      (sender_markReconnecting manager.entry connectionId).symm.trans hi
    obtain ⟨hcurrent, hunfinished⟩ := h.held i hbefore
    obtain ⟨entry, hentry, hgeneration⟩ := isCurrent_iff.mp hcurrent
    refine ⟨isCurrent_iff.mpr ⟨_, congrArg Prod.fst
      (markConnectionReconnecting_eq manager.entry connectionId), ?_⟩,
      hunfinished⟩
    rw [hentry]
    exact hgeneration
  · have hstatus := status_markReconnecting manager.entry connectionId
    exact absurd (some.inj (hstatus.symm.trans hstarting))
      TunnelRuntimeStatus.noConfusion

theorem Alive.beginStarting {manager : TunnelManager} {i : Nat}
    (connectionId : Option Str)
    (hfresh : FreshGeneration manager (.beginStarting i)) :
    Alive (((manager.leave (beginStarting manager.entry connectionId)).take
      i).setOpen i (.starting connectionId)) := by
  refine ⟨fun j hj => absurd hj.symm (some_ne_none j),
    fun j c hj hcurrent _ => ?_⟩
  have hspawned := spawned_setOpen (fun _ => OpenPhase.noConfusion) hj
  have hji : j ≠ i := by
    rintro rfl
    rw [setOpen_self] at hj
    exact OpenPhase.noConfusion hj
  obtain ⟨entry, hentry, hgeneration⟩ := isCurrent_iff.mp hcurrent
  have hnew : entry.generation = nextGeneration manager.generation :=
    (congrArg TunnelRuntimeEntry.generation (some.inj
      (hentry.symm.trans (congrArg Prod.fst
        (beginStarting_eq manager.entry connectionId)))))
  have hsame : (((manager.leave (Tunnels.beginStarting manager.entry
      connectionId)).take i).setOpen i (.starting
        connectionId)).generations j = manager.generations j :=
    Function.update_of_ne hji _ manager.generations
  rw [hsame, hnew] at hgeneration
  exact absurd hgeneration.symm (hfresh _ rfl j (.inr (.inl ⟨c, hspawned⟩)))

theorem Alive.step {manager next : TunnelManager} {event : TunnelEvent}
    (h : Alive manager) (hfresh : FreshGeneration manager event)
    (hstep : manager.step event = some next) : Alive next := by
  have hquiet : ∀ {i : Nat} {phase : OpenPhase}, (∀ c, phase ≠ .spawned c) →
      Alive (manager.setOpen i phase) := by
    intro i phase hphase
    exact h.congr rfl rfl (fun j c hj => .inl ⟨c, spawned_setOpen hphase hj⟩)
      (fun _ _ hfinished => hfinished)
  have hok : ∀ {middle : TunnelManager} {ok : Bool}, Alive middle →
      Alive (middle.setOk ok) := by
    intro middle ok hmiddle
    exact hmiddle.congr rfl rfl (fun j c hj => .inl ⟨c, hj⟩)
      (fun _ _ hfinished => hfinished)
  cases stepped_of_step hstep with
  | alreadyOpen | noConnection =>
    exact hok (hquiet fun _ => OpenPhase.noConfusion)
  | check hphase => exact hquiet fun _ => OpenPhase.noConfusion
  | beginStarting hphase => exact Alive.beginStarting _ hfresh
  | fail hphase => exact hok (h.setGenerationStatus _ _)
  | @spawn i connectionId hphase =>
    refine h.congr rfl rfl (fun j c hj => ?_) (fun j _ hfinished => ?_)
    · by_cases hji : j = i
      · refine .inr ?_
        rw [hji, setTask_self]
        exact TaskPhase.noConfusion
      · exact .inl ⟨c, (manager.setOpen_of_ne _ hji).symm.trans hj⟩
    · by_cases hji : j = i
      · rw [hji, setTask_self] at hfinished
        exact TaskPhase.noConfusion hfinished
      · exact finished_setTask hji hfinished
  | installTask hphase => exact hok (h.installTask hphase)
  | close =>
    exact alive_of_stopped rfl fun hstarting =>
      TunnelRuntimeStatus.noConfusion (some.inj hstarting)
  | delete => exact alive_of_stopped rfl (some_ne_none _).symm
  | markReconnecting => exact h.markReconnecting _
  | @spared connectionId hstatus =>
    rw [markConnectionDisconnected_spared hstatus]
    exact h.congr rfl rfl (fun j c hj => .inl ⟨c, hj⟩)
      (fun _ _ hfinished => hfinished)
  | @markDisconnected connectionId hstatus =>
    rw [markConnectionDisconnected_taken hstatus]
    exact alive_of_stopped rfl fun hstarting =>
      TunnelRuntimeStatus.noConfusion (some.inj hstarting)
  | @exit i exit hphase =>
    refine hok (h.congr rfl rfl (fun j c hj => .inl ⟨c, hj⟩)
      (fun j _ hfinished => ?_))
    by_cases hji : j = i
    · rw [hji, setTask_self] at hfinished
      exact TaskPhase.noConfusion hfinished
    · exact finished_setTask hji hfinished
  | finishTask hphase => exact hok (h.finishTask _ _)

/-- Nobody took the entry over after the operation that `clock` counts, and the
call that took it over last finds its generation there. -/
def Latest (manager : TunnelManager) : Prop :=
  ∀ i, Carries manager i → manager.began i ≤ manager.clock ∧
    (manager.began i = manager.clock → manager.isCurrent i = true)

theorem Latest.congr (h : Latest manager)
    (hcarries : ∀ i, Carries next i → Carries manager i)
    (hbegan : next.began = manager.began)
    (hclock : next.clock = manager.clock)
    (hcurrent : ∀ i, manager.isCurrent i = true → next.isCurrent i = true) :
    Latest next := by
  intro i hi
  obtain ⟨hle, hlast⟩ := h i (hcarries i hi)
  rw [hbegan, hclock]
  exact ⟨hle, fun heq => hcurrent i (hlast heq)⟩

theorem Latest.tick (h : Latest manager)
    (hclock : next.clock = manager.clock + 1)
    (hcarries : ∀ i, Carries next i →
      (Carries manager i ∧ next.began i = manager.began i) ∨
        (next.began i = next.clock ∧ next.isCurrent i = true)) :
    Latest next := by
  intro i hi
  rcases hcarries i hi with ⟨hbefore, hbegan⟩ | ⟨hbegan, hcurrent⟩
  · have hle := (h i hbefore).1
    rw [hbegan, hclock]
    exact ⟨by omega, fun heq => by omega⟩
  · exact ⟨Nat.le_of_eq hbegan, fun _ => hcurrent⟩

/-- A lock section that keeps the generation keeps who is current. -/
theorem isCurrent_leave {result : Section}
    (h : ∀ old, manager.entry = some old →
      ∃ new, result.1 = some new ∧ new.generation = old.generation) (i : Nat)
    (hcurrent : manager.isCurrent i = true) :
    (manager.leave result).isCurrent i = true := by
  obtain ⟨old, hold, hgeneration⟩ := isCurrent_iff.mp hcurrent
  obtain ⟨new, hnew, hsame⟩ := h old hold
  exact isCurrent_iff.mpr ⟨new, hnew, hsame.trans hgeneration⟩

theorem setGenerationStatus_keeps (entry : Option TunnelRuntimeEntry)
    (generation : Nat) (error : Option Str) :
    ∀ old, entry = some old → ∃ new,
      (setGenerationStatus entry generation .error error true).1 = some new ∧
        new.generation = old.generation := by
  intro old hold
  rcases setGenerationStatus_cases entry generation .error error with
    ⟨old', hold', -, hresult⟩ | ⟨-, hresult⟩
  · refine ⟨_, congrArg Prod.fst hresult, ?_⟩
    rw [← some.inj (hold'.symm.trans hold)]
  · exact ⟨old, hresult.trans hold, rfl⟩

theorem finishTask_keeps (entry : Option TunnelRuntimeEntry)
    (generation : Nat) (exit : TunnelTaskExit) :
    ∀ old, entry = some old → ∃ new,
      (finishTask entry generation exit).1 = some new ∧
        new.generation = old.generation := by
  intro old hold
  rcases finishTask_cases entry generation exit with
    ⟨old', hold', -, hresult⟩ | ⟨-, hresult⟩
  · refine ⟨_, congrArg Prod.fst hresult, ?_⟩
    rw [← some.inj (hold'.symm.trans hold)]
  · exact ⟨old, hresult.trans hold, rfl⟩

theorem installTask_keeps (entry : Option TunnelRuntimeEntry)
    (generation task : Nat) (connectionId : Option Str) :
    ∀ old, entry = some old → ∃ new,
      (installTask entry generation task connectionId).1 = some new ∧
        new.generation = old.generation := by
  intro old hold
  rcases installTask_cases entry generation task connectionId with
    ⟨old', hold', -, -, hresult⟩ | ⟨-, hresult⟩
  · refine ⟨_, congrArg Prod.fst hresult, ?_⟩
    rw [← some.inj (hold'.symm.trans hold)]
  · exact ⟨old, (congrArg Prod.fst hresult).trans hold, rfl⟩

theorem markReconnecting_keeps (entry : Option TunnelRuntimeEntry)
    (connectionId : Str) :
    ∀ old, entry = some old → ∃ new,
      (markConnectionReconnecting entry connectionId).1 = some new ∧
        new.generation = old.generation := by
  intro old hold
  refine ⟨_, congrArg Prod.fst
    (markConnectionReconnecting_eq entry connectionId), ?_⟩
  rw [hold]
  rfl

theorem isCurrent_beginStarting (manager : TunnelManager) (i : Nat)
    (connectionId : Option Str) :
    (((manager.leave (beginStarting manager.entry connectionId)).take
      i).setOpen i (.starting connectionId)).isCurrent i = true := by
  refine isCurrent_iff.mpr ⟨_, congrArg Prod.fst
    (beginStarting_eq manager.entry connectionId), ?_⟩
  have hself : (((manager.leave (beginStarting manager.entry
      connectionId)).take i).setOpen i (.starting connectionId)).generations
        i = (manager.leave (beginStarting manager.entry
          connectionId)).generation :=
    Function.update_self i _ manager.generations
  rw [hself, beginStarting_eq]
  rfl

theorem Latest.step {manager next : TunnelManager} {event : TunnelEvent}
    (h : Latest manager) (hstep : manager.step event = some next) :
    Latest next := by
  have hreturned : ∀ {i : Nat} {phase : OpenPhase},
      (phase = .idle ∨ (∃ c, phase = .checked c) ∨
        ∃ ok, phase = .returned ok) → ∀ j,
      Carries (manager.setOpen i phase) j → Carries manager j := by
    intro i phase hphase j hj
    refine carries_setOpen (fun c => ?_) (fun c => ?_) j hj
    · rcases hphase with rfl | ⟨_, rfl⟩ | ⟨_, rfl⟩ <;>
        exact OpenPhase.noConfusion
    · rcases hphase with rfl | ⟨_, rfl⟩ | ⟨_, rfl⟩ <;>
        exact OpenPhase.noConfusion
  cases stepped_of_step hstep with
  | alreadyOpen | noConnection =>
    exact h.congr (hreturned (.inr (.inr ⟨_, rfl⟩))) rfl rfl
      fun _ hcurrent => hcurrent
  | check =>
    exact h.congr (hreturned (.inr (.inl ⟨_, rfl⟩))) rfl rfl
      fun _ hcurrent => hcurrent
  | @beginStarting i connectionId hphase =>
    refine h.tick rfl (fun j hj => ?_)
    by_cases hji : j = i
    · refine .inr ⟨?_, hji ▸ isCurrent_beginStarting manager i connectionId⟩
      rw [hji]
      exact Function.update_self i _ manager.began
    · refine .inl ⟨?_, Function.update_of_ne hji _ manager.began⟩
      rw [Carries, setOpen_of_ne _ _ hji] at hj
      exact hj
  | fail =>
    exact h.congr (hreturned (.inr (.inr ⟨_, rfl⟩))) rfl rfl
      (isCurrent_leave (setGenerationStatus_keeps _ _ _))
  | spawn hphase =>
    exact h.congr (carries_spawn hphase) rfl rfl fun _ hcurrent => hcurrent
  | installTask =>
    exact h.congr (hreturned (.inr (.inr ⟨_, rfl⟩))) rfl rfl
      (isCurrent_leave (installTask_keeps _ _ _ _))
  | close | delete | markDisconnected =>
    exact h.tick rfl fun j hj => .inl ⟨hj, rfl⟩
  | markReconnecting =>
    exact h.congr (fun _ hj => hj) rfl rfl
      (isCurrent_leave (markReconnecting_keeps _ _))
  | @spared connectionId hstatus =>
    refine h.congr (fun _ hj => hj) rfl rfl (isCurrent_leave fun old hold => ?_)
    rw [markConnectionDisconnected_spared hstatus]
    exact ⟨old, hold, rfl⟩
  | exit hphase =>
    exact h.congr (carries_setTask (.inr (.inr (.inl hphase)))) rfl rfl
      fun _ hcurrent => hcurrent
  | finishTask hphase =>
    exact h.congr (carries_setTask (.inr (.inr (.inr ⟨_, hphase⟩))))
      rfl rfl (isCurrent_leave (finishTask_keeps _ _ _))

/-- No call goes without a connection. -/
def Connected (manager : TunnelManager) : Prop :=
  ∀ i, manager.opens i ≠ .checked none ∧ manager.opens i ≠ .starting none

theorem Connected.setOpen (h : Connected manager)
    (hphase : phase ≠ .checked none ∧ phase ≠ .starting none) :
    Connected (manager.setOpen i phase) := by
  intro j
  by_cases hji : j = i
  · rw [hji, manager.setOpen_self]
    exact hphase
  · rw [manager.setOpen_of_ne phase hji]
    exact h j

theorem Connected.step {manager next : TunnelManager} {event : TunnelEvent}
    (h : Connected manager) (hevent : ∀ i, event ≠ .check i none)
    (hstep : manager.step event = some next) : Connected next := by
  have hreturned : ∀ {middle : TunnelManager} {i : Nat} {ok : Bool},
      Connected middle → Connected (middle.setOpen i (.returned ok)) :=
    fun hmiddle =>
      hmiddle.setOpen ⟨OpenPhase.noConfusion, OpenPhase.noConfusion⟩
  cases stepped_of_step hstep with
  | alreadyOpen | noConnection | fail | installTask => exact hreturned h
  | @check i connectionId hphase hopen =>
    refine h.setOpen ⟨fun heq => ?_, OpenPhase.noConfusion⟩
    exact hevent i (OpenPhase.checked.inj heq ▸ rfl)
  | @beginStarting i connectionId hphase =>
    have htaken : Connected ((manager.leave (beginStarting manager.entry
      connectionId)).take i) := h
    refine htaken.setOpen ⟨OpenPhase.noConfusion, fun heq => (h i).1 ?_⟩
    rw [hphase, OpenPhase.starting.inj heq]
  | spawn hphase =>
    exact h.setOpen ⟨OpenPhase.noConfusion, OpenPhase.noConfusion⟩
  | close | delete | markReconnecting | spared | markDisconnected | exit
  | finishTask => exact h

/-- Who waits for a status that has not been set. -/
structure Expected (manager : TunnelManager) : Prop where
  starting : status manager.entry = some .starting → Awaited manager
  opened : manager.openedOk = true →
    status manager.entry = some .running ∨ Awaited manager

theorem not_underWay_of_phase (hphase : manager.opens i = phase)
    (hstarting : ∀ c, phase ≠ .starting c)
    (hspawned : ∀ c, phase ≠ .spawned c) : ¬ UnderWay manager i := by
  rintro (⟨c, hc⟩ | ⟨c, hc⟩)
  · exact hstarting c (hphase.symm.trans hc)
  · exact hspawned c (hphase.symm.trans hc)

/-- A call that nobody waits for may do what it likes. -/
theorem Awaited.setOpen (h : Awaited manager) (phase : OpenPhase)
    (hi : UnderWay manager i → manager.isCurrent i ≠ true) :
    Awaited (manager.setOpen i phase) := by
  obtain ⟨k, hway, hcurrent⟩ := h
  have hki : k ≠ i := by
    rintro rfl
    exact hi hway hcurrent
  refine ⟨k, ?_, hcurrent⟩
  rw [UnderWay, manager.setOpen_of_ne phase hki]
  exact hway

theorem Awaited.congr (h : Awaited manager)
    (hopens : next.opens = manager.opens)
    (hcurrent : ∀ i, manager.isCurrent i = true → next.isCurrent i = true) :
    Awaited next := by
  obtain ⟨k, hway, hk⟩ := h
  refine ⟨k, ?_, hcurrent k hk⟩
  rw [UnderWay, hopens]
  exact hway

theorem Awaited.leave {result : Section} (h : Awaited manager)
    (hresult : result.1 = manager.entry) : Awaited (manager.leave result) := by
  have hentry : (manager.leave result).entry = manager.entry := hresult
  have hgenerations : (manager.leave result).generations =
      manager.generations := rfl
  exact h.congr rfl fun i hi => (isCurrent_congr hentry hgenerations i).trans hi

theorem Runs.of_isOpen (h : Runs entry)
    (hopen : isOpen entry = true) : status entry = some .running := by
  cases entry with
  | none => exact absurd hopen Bool.false_ne_true
  | some old =>
    apply h.mpr
    have hsome : old.shutdownTx.isSome = true := by
      simp only [isOpen, any_some, TunnelRuntimeEntry.hasLiveTask,
        Bool.and_eq_true] at hopen
      exact hopen.1
    exact isSome_iff_exists.mp hsome

theorem Expected.step {manager next : TunnelManager} {event : TunnelEvent}
    (h : Expected manager) (hruns : Runs manager.entry)
    (hconnected : Connected manager) (hsteady : Undisturbed manager event)
    (hstep : manager.step event = some next) : Expected next := by
  have hne : ∀ {s t : TunnelRuntimeStatus}, s ≠ t → ∀ {p : Prop},
      some s = some t → p :=
    fun hst _ heq => absurd (some.inj heq) hst
  cases stepped_of_step hstep with
  | @alreadyOpen i connectionId hphase hopen =>
    have hidle := not_underWay_of_phase hphase (fun _ => OpenPhase.noConfusion)
      (fun _ => OpenPhase.noConfusion)
    exact ⟨fun hstarting => ((h.starting hstarting).setOpen _
        fun hway => absurd hway hidle).congr rfl fun _ hi => hi,
      fun _ => .inl (hruns.of_isOpen hopen)⟩
  | @check i connectionId hphase hopen =>
    have hidle := not_underWay_of_phase hphase (fun _ => OpenPhase.noConfusion)
      (fun _ => OpenPhase.noConfusion)
    exact ⟨fun hstarting => (h.starting hstarting).setOpen _
        fun hway => absurd hway hidle,
      fun hok => (h.opened hok).imp_right fun hawaited =>
        hawaited.setOpen _ fun hway => absurd hway hidle⟩
  | @beginStarting i connectionId hphase =>
    have hawaited : Awaited (((manager.leave (beginStarting manager.entry
        connectionId)).take i).setOpen i (.starting connectionId)) :=
      ⟨i, .inl ⟨connectionId, setOpen_self _ i _⟩,
        isCurrent_beginStarting manager i connectionId⟩
    exact ⟨fun _ => hawaited, fun _ => .inr hawaited⟩
  | @noConnection i hphase => exact absurd hphase (hconnected i).2
  | @fail i message connectionId hphase =>
    refine ⟨fun hstarting => ?_, fun hok => absurd hok Bool.false_ne_true⟩
    rcases setGenerationStatus_cases manager.entry (manager.generations i)
      .error (some message) with ⟨old, -, -, hresult⟩ | ⟨hstale, hresult⟩
    · rw [hresult] at hstarting
      exact hne TunnelRuntimeStatus.noConfusion hstarting
    · have hbefore : status manager.entry = some .starting :=
        (congrArg status hresult).symm.trans hstarting
      exact (((h.starting hbefore).setOpen (.returned false)
        fun _ => not_isCurrent hstale).leave hresult).congr rfl
          fun _ hi => hi
  | @spawn i connectionId hphase =>
    have hspawn : Awaited manager → Awaited ((manager.setOpen i (.spawned
        (some connectionId))).setTask i .running) := by
      rintro ⟨k, hway, hcurrent⟩
      refine ⟨k, ?_, hcurrent⟩
      by_cases hki : k = i
      · rw [hki]
        exact .inr ⟨_, manager.setOpen_self i _⟩
      · have hopens : ((manager.setOpen i (.spawned (some
            connectionId))).setTask i .running).opens k =
              manager.opens k :=
          manager.setOpen_of_ne _ hki
        rw [UnderWay, hopens]
        exact hway
    exact ⟨fun hstarting => hspawn (h.starting hstarting),
      fun hok => (h.opened hok).imp_right hspawn⟩
  | @installTask i connectionId hphase =>
    rcases installTask_cases manager.entry (manager.generations i) i
      connectionId with ⟨old, hold, -, -, hresult⟩ | ⟨hrefused, hresult⟩
    · rw [hresult]
      exact ⟨fun hstarting => hne TunnelRuntimeStatus.noConfusion hstarting,
        fun _ => .inl rfl⟩
    · have hawaited : status manager.entry = some .starting →
          Awaited (((manager.leave (installTask manager.entry
            (manager.generations i) i connectionId)).setOpen i
              (.returned true)).setOk true) := by
        intro hstarting
        have hnot : manager.isCurrent i ≠ true := by
          intro hcurrent
          obtain ⟨entry, hentry, hgeneration⟩ := isCurrent_iff.mp hcurrent
          rw [hentry] at hstarting
          exact hrefused entry hentry
            ⟨hgeneration, some.inj hstarting⟩
        exact (((h.starting hstarting).setOpen (.returned true)
          fun _ => hnot).leave (congrArg Prod.fst hresult)).congr rfl
            fun _ hi => hi
      have hsame : status (installTask manager.entry (manager.generations i)
          i connectionId).1 = status manager.entry :=
        congrArg (fun r => status r.1) hresult
      refine ⟨fun hstarting => hawaited (hsame.symm.trans hstarting),
        fun _ => ?_⟩
      rcases hsteady.installed i rfl with hstarting | hrunning
      · exact .inr (hawaited hstarting)
      · exact .inl (hsame.trans hrunning)
  | close =>
    exact ⟨fun hstarting => hne TunnelRuntimeStatus.noConfusion hstarting,
      fun hok => absurd hok Bool.false_ne_true⟩
  | delete =>
    exact ⟨fun hstarting => absurd hstarting (some_ne_none _).symm,
      fun hok => absurd hok Bool.false_ne_true⟩
  | @markReconnecting connectionId =>
    refine ⟨fun hstarting => ?_, fun hok => ?_⟩
    · rw [leave, markConnectionReconnecting_eq] at hstarting
      exact hne TunnelRuntimeStatus.noConfusion hstarting
    · rcases h.opened hok with hrunning | hawaited
      · exact absurd hrunning (hsteady.marked _ rfl)
      · exact .inr (hawaited.congr rfl
          (isCurrent_leave (markReconnecting_keeps _ _)))
  | @spared connectionId hstatus =>
    refine ⟨fun hstarting => ?_, fun hok => absurd hok Bool.false_ne_true⟩
    have hresult : (markConnectionDisconnected manager.entry
        connectionId).1 = manager.entry :=
      congrArg Prod.fst (markConnectionDisconnected_spared hstatus _)
    exact ((h.starting ((congrArg status hresult).symm.trans
      hstarting)).leave hresult).congr rfl fun _ hi => hi
  | @markDisconnected connectionId hstatus =>
    refine ⟨fun hstarting => ?_, fun hok => absurd hok Bool.false_ne_true⟩
    rw [markConnectionDisconnected_taken hstatus] at hstarting
    exact hne TunnelRuntimeStatus.noConfusion hstarting
  | @exit i exit hphase =>
    refine ⟨fun hstarting => (h.starting hstarting).congr rfl fun _ hi => hi,
      fun hok => ?_⟩
    exact (h.opened (Bool.and_eq_true_iff.mp hok).1).imp_right
      fun hawaited => hawaited.congr rfl fun _ hi => hi
  | @finishTask i exit hphase =>
    rcases finishTask_cases manager.entry (manager.generations i) exit with
      ⟨old, hold, hgeneration, hresult⟩ | ⟨-, hresult⟩
    · have hcurrent : manager.isCurrent i = true :=
        isCurrent_iff.mpr ⟨old, hold, hgeneration⟩
      refine ⟨fun hstarting => ?_, fun hok => ?_⟩
      · rw [hresult] at hstarting
        exact absurd (some.inj hstarting)
          (exitStatus_ne old.status old.error exit).1
      · have hnot := (Bool.and_eq_true_iff.mp hok).2
        rw [hcurrent] at hnot
        exact absurd hnot Bool.false_ne_true
    · have hkeep : Awaited manager → Awaited (((manager.leave (finishTask
          manager.entry (manager.generations i) exit)).setTask i
            .finished).setOk (manager.openedOk && !manager.isCurrent i)) :=
        fun hawaited => (hawaited.leave hresult).congr rfl fun _ hi => hi
      refine ⟨fun hstarting => hkeep (h.starting
        ((congrArg status hresult).symm.trans hstarting)), fun hok => ?_⟩
      exact (h.opened (Bool.and_eq_true_iff.mp hok).1).imp
        (fun hrunning => (congrArg status hresult).trans hrunning) hkeep

/-- When nothing is under way, a tunnel is shown as running exactly if its
entry owns a task that runs and was not told to stop, no tunnel is shown as
starting, and one that was opened is running.  A call that fails leaves an
error, or the entry of an operation that has overtaken it. -/
structure Truthful (manager : TunnelManager) : Prop where
  running : Quiescent manager → (status manager.entry = some .running ↔
      ∃ i, sender manager.entry = some i ∧ manager.tasks i = .running ∧
        manager.told i = false)
  settled : Quiescent manager → status manager.entry ≠ some .starting
  opened : Quiescent manager → manager.openedOk = true →
    status manager.entry = some .running
  failed : ∀ event next i, manager.step event = some next →
    manager.opens i ≠ .returned false → next.opens i = .returned false →
      status next.entry = some .error ∨
        (next.entry = manager.entry ∧ manager.began i < manager.clock)

theorem Quiescent.not_awaited (h : Quiescent manager) : ¬ Awaited manager := by
  rintro ⟨i, hway, -⟩
  rcases (h i).1 with hidle | ⟨ok, hreturned⟩
  · exact not_underWay_of_phase hidle (fun _ => OpenPhase.noConfusion)
      (fun _ => OpenPhase.noConfusion) hway
  · exact not_underWay_of_phase hreturned (fun _ => OpenPhase.noConfusion)
      (fun _ => OpenPhase.noConfusion) hway

theorem returned_setOpen {j : Nat}
    (hbefore : manager.opens j ≠ .returned false)
    (h : (manager.setOpen i phase).opens j = .returned false) :
    j = i ∧ phase = .returned false := by
  by_cases hji : j = i
  · rw [hji, manager.setOpen_self] at h
    exact ⟨hji, h⟩
  · rw [manager.setOpen_of_ne phase hji] at h
    exact absurd h hbefore

theorem failed_step {event : TunnelEvent} (hlatest : Latest manager)
    (hconnected : Connected manager) (hstep : manager.step event = some next)
    (hbefore : manager.opens i ≠ .returned false)
    (hafter : next.opens i = .returned false) :
    status next.entry = some .error ∨
      (next.entry = manager.entry ∧ manager.began i < manager.clock) := by
  cases stepped_of_step hstep with
  | alreadyOpen | installTask =>
    exact absurd (OpenPhase.returned.inj
      (returned_setOpen hbefore hafter).2) Bool.true_eq_false.mp
  | check | beginStarting | spawn =>
    exact OpenPhase.noConfusion (returned_setOpen hbefore hafter).2
  | noConnection hphase => exact absurd hphase (hconnected _).2
  | @fail j message connectionId hphase =>
    obtain ⟨rfl, -⟩ := returned_setOpen hbefore hafter
    rcases setGenerationStatus_cases manager.entry (manager.generations i)
      .error (some message) with ⟨old, -, -, hresult⟩ | ⟨hstale, hresult⟩
    · exact .inl (congrArg (fun r => status r.1) hresult)
    · obtain ⟨hle, hlast⟩ := hlatest i (.inl ⟨_, hphase⟩)
      refine .inr ⟨hresult, Nat.lt_of_le_of_ne hle fun heq => ?_⟩
      exact not_isCurrent hstale (hlast heq)
  | close | delete | markReconnecting | spared | markDisconnected | exit
  | finishTask => exact absurd hafter hbefore

/-- What every undisturbed run keeps. -/
structure Steady (manager : TunnelManager) : Prop where
  owned : Owned manager
  fresh : Fresh manager
  runs : Runs manager.entry
  alive : Alive manager
  latest : Latest manager
  connected : Connected manager
  expected : Expected manager

theorem steady_new : Steady .new where
  owned := owned_new
  fresh := fresh_new
  runs := iff_of_false (some_ne_none _).symm
    fun ⟨i, hi⟩ => absurd hi (some_ne_none i).symm
  alive := alive_of_stopped rfl (some_ne_none _).symm
  latest i hi := absurd hi (not_carries_new i)
  connected _ := ⟨OpenPhase.noConfusion, OpenPhase.noConfusion⟩
  expected := ⟨fun h => absurd h (some_ne_none _).symm,
    fun h => absurd h Bool.false_ne_true⟩

theorem Steady.step {manager next : TunnelManager} {event : TunnelEvent}
    (h : Steady manager) (hsteady : Undisturbed manager event)
    (hstep : manager.step event = some next) : Steady next where
  owned := h.owned.step hstep
  fresh := h.fresh.step hsteady.fresh hstep
  runs := h.runs.step hsteady hstep
  alive := h.alive.step hsteady.fresh hstep
  latest := h.latest.step hstep
  connected := h.connected.step hsteady.connected hstep
  expected := h.expected.step h.runs h.connected hsteady hstep

theorem Steady.truthful (h : Steady manager) :
    Truthful manager where
  running hquiet := by
    refine h.runs.trans ⟨?_, ?_⟩
    · rintro ⟨i, hi⟩
      obtain ⟨htold, htask, -⟩ := h.owned.held i hi
      have hunfinished := (h.alive.held i hi).2
      refine ⟨i, hi, ?_, htold⟩
      cases hphase : manager.tasks i with
      | running => rfl
      | absent => exact absurd hphase htask
      | exited exit => exact absurd hphase ((hquiet i).2 exit)
      | finished => exact absurd hphase hunfinished
    · rintro ⟨i, hi, -⟩
      exact ⟨i, hi⟩
  settled hquiet hstarting :=
    hquiet.not_awaited (h.expected.starting hstarting)
  opened hquiet hok :=
    (h.expected.opened hok).resolve_right hquiet.not_awaited
  failed _ _ _ hstep hbefore hafter :=
    failed_step h.latest h.connected hstep hbefore hafter

/-- In a run without those disturbances the status tells the truth. -/
theorem truthful_of_undisturbed {events : List TunnelEvent}
    {manager : TunnelManager} (halong : system.Along Undisturbed .new events)
    (hrun : system.runFrom .new events = some manager) : Truthful manager := by
  have hstep : ∀ s e t, Steady s → Undisturbed s e →
      system.step s e = some t → Steady t :=
    fun _ _ _ h hsteady hnext => h.step hsteady hnext
  exact (system.run_invariant_along hstep steady_new halong hrun).truthful

/-- An event that is neither an open without a connection, nor a mark, nor the
installation of a task. -/
def plain : TunnelEvent → Bool
  | .check _ none | .markReconnecting _ | .installTask _ => false
  | _ => true

theorem undisturbed_of_plain {event : TunnelEvent}
    (hfresh : FreshGeneration manager event) (h : plain event = true) :
    Undisturbed manager event where
  fresh := hfresh
  connected := by rintro i rfl; cases h
  marked := by rintro connectionId rfl; cases h
  installed := by rintro i rfl; cases h

theorem fresh_of_lt {event : TunnelEvent} {generation : Nat}
    (hhands : handsOut manager event = some generation)
    (h : ∀ i, manager.generations i < generation) :
    FreshGeneration manager event := by
  intro other hother i _
  rw [← some.inj (hhands.symm.trans hother)]
  exact (h i).ne

theorem update_lt {f : Nat → Nat} {j value bound : Nat}
    (hf : ∀ i, f i < bound) (hvalue : value < bound) (i : Nat) :
    Function.update f j value i < bound := by
  rw [Function.update_apply]
  split
  · exact hvalue
  · exact hf i

section Along

variable {event : TunnelEvent} {events : List TunnelEvent}

theorem along_plain (hnone : handsOut manager event = none)
    (hplain : plain event = true) (hstep : manager.step event = some next)
    (hrest : system.Along Undisturbed next events) :
    system.Along Undisturbed manager (event :: events) :=
  system.along_cons (undisturbed_of_plain (fresh_of_none hnone) hplain) hstep
    hrest

theorem along_handsOut {generation : Nat}
    (hlt : ∀ i, manager.generations i < generation)
    (hhands : handsOut manager event = some generation)
    (hplain : plain event = true) (hstep : manager.step event = some next)
    (hrest : system.Along Undisturbed next events) :
    system.Along Undisturbed manager (event :: events) :=
  system.along_cons (undisturbed_of_plain (fresh_of_lt hhands hlt) hplain) hstep
    hrest

theorem along_installTask
    (hstatus : status manager.entry = some .starting ∨
      status manager.entry = some .running)
    (hstep : manager.step (.installTask i) = some next)
    (hrest : system.Along Undisturbed next events) :
    system.Along Undisturbed manager (.installTask i :: events) := by
  have hevent : Undisturbed manager (.installTask i) :=
    ⟨fresh_of_none rfl, fun _ => TunnelEvent.noConfusion,
      fun _ => TunnelEvent.noConfusion, fun _ _ => hstatus⟩
  exact system.along_cons hevent hstep hrest

end Along

/-- A tunnel is opened, closed and deleted; two calls open it again, the second
overtakes the first; it is closed and marked, and opened once more. -/
def reopened : List TunnelEvent :=
  [.check 0 (some ['c']), .beginStarting 0, .spawn 0, .installTask 0, .close,
    .exit 0 .stopped, .finishTask 0, .delete, .check 1 (some ['c']),
    .check 2 (some ['c']), .beginStarting 1, .beginStarting 2, .spawn 1,
    .spawn 2, .installTask 2, .installTask 1, .close, .markReconnecting ['c'],
    .check 3 (some ['c']), .beginStarting 3, .spawn 3, .installTask 3]

theorem reopened_undisturbed : system.Along Undisturbed .new reopened := by
  have hone : ∀ i, Function.update (fun _ : Nat => 0) 0 1 i < 2 :=
    update_lt (fun _ => Nat.zero_lt_two) Nat.one_lt_two
  have htwo : ∀ i, Function.update (Function.update
      (fun _ : Nat => 0) 0 1) 1 1 i < 2 := update_lt hone Nat.one_lt_two
  have hthree : ∀ i, Function.update (Function.update (Function.update
      (fun _ : Nat => 0) 0 1) 1 1) 2 2 i < 3 :=
    update_lt (fun i => (htwo i).trans (by decide)) (by decide)
  refine along_plain rfl rfl rfl ?_
  refine along_handsOut (fun _ => Nat.zero_lt_one) rfl rfl rfl ?_
  refine along_plain rfl rfl rfl (along_installTask (.inl rfl) rfl ?_)
  refine along_handsOut hone rfl rfl rfl ?_
  iterate 5 refine along_plain rfl rfl rfl ?_
  -- The deleted tunnel gives out its first number again.
  refine system.along_cons (undisturbed_of_plain ?_ rfl) rfl ?_
  · intro generation hgeneration i hi
    rw [← some.inj hgeneration]
    by_cases hzero : i = 0
    · subst hzero
      rcases hi with ⟨_, h⟩ | ⟨_, h⟩ | h | ⟨_, h⟩ <;> cases h
    · intro heq
      have hgenerations := Function.update_of_ne hzero 1 fun _ : Nat => 0
      exact absurd (hgenerations.symm.trans heq) (by decide)
  refine along_handsOut htwo rfl rfl rfl ?_
  iterate 2 refine along_plain rfl rfl rfl ?_
  refine along_installTask (.inl rfl) rfl (along_installTask (.inr rfl) rfl ?_)
  refine along_handsOut hthree rfl rfl rfl ?_
  refine system.along_cons ⟨fresh_of_none rfl,
    fun _ => TunnelEvent.noConfusion, fun _ _ => by decide,
    fun _ => TunnelEvent.noConfusion⟩ rfl ?_
  refine along_plain rfl rfl rfl ?_
  refine along_handsOut (fun i => (hthree i).trans (by decide)) rfl rfl rfl ?_
  exact along_plain rfl rfl rfl (along_installTask (.inl rfl) rfl trivial)

theorem reopened_truthful :
    ∃ manager, system.runFrom .new reopened = some manager ∧
      Truthful manager :=
  ⟨_, rfl, truthful_of_undisturbed reopened_undisturbed rfl⟩

/-- The connection is marked while a call opens the tunnel. -/
def markedOpening : List TunnelEvent :=
  [.check 0 (some ['c']), .beginStarting 0, .spawn 0, .markReconnecting ['c'],
    .installTask 0]

/-- The call returns `Ok` and the tunnel stays reconnecting, with no task. -/
theorem markedOpening_not_truthful :
    ∃ manager, system.runFrom .new markedOpening = some manager ∧ manager.opens
      0 = .returned true ∧ status manager.entry = some .reconnecting ∧ sender
      manager.entry = none ∧ manager.told 0 = true ∧ ¬ Truthful manager := by
  refine ⟨_, rfl, rfl, rfl, rfl, rfl, fun h => ?_⟩
  have hrunning := h.opened (fun i => ?_) rfl
  · exact absurd hrunning (by decide)
  · by_cases hzero : i = 0
    · subst hzero
      exact ⟨.inr ⟨true, rfl⟩, fun _ => TaskPhase.noConfusion⟩
    · simp [setOpen, setOk, leave,
        setTask, TunnelManager.take, TunnelManager.new, hzero]

end NiceTerm.Ssh.Tunnels
