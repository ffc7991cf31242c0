/-
Who holds the sender that stops a task, and which calls may still change the
entry of a tunnel.
-/
import NiceTerm.Ssh.Tunnels

namespace NiceTerm.Ssh.Tunnels

open Option TunnelManager
open RustStr (Str)

/-- The task that the entry can stop. -/
def sender (entry : Option TunnelRuntimeEntry) : Option Nat :=
  entry.bind TunnelRuntimeEntry.shutdownTx

/-- The lock section leaves the sender where it is. -/
def Kept (entry : Option TunnelRuntimeEntry) (result : Section) : Prop :=
  sender result.1 = sender entry ∧ result.2 = []

/-- The lock section takes the sender out and uses or drops it. -/
def Released (entry : Option TunnelRuntimeEntry) (result : Section) : Prop :=
  sender result.1 = none ∧ result.2 = (sender entry).toList

section

variable (entry : Option TunnelRuntimeEntry)
include entry

theorem sender_getD (connectionId : Option Str) :
    (entry.getD (.new connectionId)).shutdownTx = sender entry := by
  cases entry <;> rfl

theorem beginStarting_released (connectionId : Option Str) :
    Released entry (beginStarting entry connectionId) :=
  ⟨rfl, congrArg Option.toList (sender_getD entry connectionId)⟩

theorem close_released :
    Released entry (close entry) :=
  ⟨rfl, congrArg Option.toList (sender_getD entry none)⟩

theorem deleteRuntimeState_released :
    Released entry (deleteRuntimeState entry) :=
  ⟨rfl, rfl⟩

theorem markEnabled_kept_or_released (connectionId : Str)
    (status : TunnelRuntimeStatus) (error : Option Str) (stopTask : Bool) :
    Kept entry (markEnabled entry connectionId status error stopTask) ∨
      Released entry
        (markEnabled entry connectionId status error stopTask) := by
  have hsender := sender_getD entry (some connectionId)
  rw [markEnabled]
  split
  · exact .inl ⟨hsender, rfl⟩
  · split
    · exact .inr ⟨rfl, congrArg Option.toList hsender⟩
    · exact .inl ⟨hsender, rfl⟩

theorem finishTask_kept_or_released (generation : Nat) (exit : TunnelTaskExit) :
    Kept entry (finishTask entry generation exit) ∨
      Released entry (finishTask entry generation exit) := by
  cases entry with
  | none => exact .inl ⟨rfl, rfl⟩
  | some old =>
    rw [finishTask]
    split
    · exact .inl ⟨rfl, rfl⟩
    · exact .inr ⟨rfl, rfl⟩

theorem setGenerationStatus_kept_or_released (generation : Nat)
    (status : TunnelRuntimeStatus) (error : Option Str) (clearHandles : Bool) :
    Kept entry
        (setGenerationStatus entry generation status error clearHandles) ∨
      Released entry
        (setGenerationStatus entry generation status error clearHandles) := by
  cases entry with
  | none => exact .inl ⟨rfl, rfl⟩
  | some old =>
    rw [setGenerationStatus]
    split
    · exact .inl ⟨rfl, rfl⟩
    · split
      · exact .inr ⟨rfl, rfl⟩
      · exact .inl ⟨rfl, rfl⟩

/-- A task is either installed in place of an older one or told to stop. -/
theorem installTask_cases (generation task : Nat) (connectionId : Option Str) :
    (∃ old, entry = some old ∧ old.generation = generation ∧ old.status =
        .starting ∧ installTask entry generation task connectionId =
          (some { old with
              status := .running
              error := none
              shutdownTx := some task
              connectionId := connectionId },
            (sender entry).toList)) ∨
      ((∀ old, entry = some old →
          ¬ (old.generation = generation ∧ old.status = .starting)) ∧
        installTask entry generation task connectionId = (entry, [task])) := by
  cases entry with
  | none => exact .inr ⟨fun _ h => absurd h (some_ne_none _).symm, rfl⟩
  | some old =>
    by_cases hinstall : old.generation = generation ∧ old.status = .starting
    · refine .inl ⟨old, rfl, hinstall.1, hinstall.2, ?_⟩
      rw [installTask, if_pos hinstall]
      rfl
    · refine .inr ⟨fun old' h => ?_, ?_⟩
      · rw [← some.inj h]
        exact hinstall
      · rw [installTask, if_neg hinstall]

end

/-- The call has spawned no task yet. -/
def OpenPhase.Early (phase : OpenPhase) : Prop :=
  phase = .idle ∨ (∃ connectionId, phase = .checked connectionId) ∨
    ∃ connectionId, phase = .starting connectionId

/-- A task that has not been told to stop has its sender in the hands of the
call that spawned it, or in the entry. -/
structure Owned (manager : TunnelManager) : Prop where
  placed : ∀ i, manager.tasks i ≠ .absent → manager.told i = false →
    (∃ connectionId, manager.opens i = .spawned connectionId) ∨
      sender manager.entry = some i
  held : ∀ i, sender manager.entry = some i →
    manager.told i = false ∧ manager.tasks i ≠ .absent ∧
      manager.opens i = .returned true
  inHand : ∀ i connectionId, manager.opens i = .spawned connectionId →
    manager.told i = false ∧ manager.tasks i ≠ .absent
  early : ∀ i, (manager.opens i).Early →
    manager.told i = false ∧ manager.tasks i = .absent

theorem owned_new : Owned .new where
  placed _ h := absurd rfl h
  held _ h := absurd h.symm (some_ne_none _)
  inHand _ _ h := OpenPhase.noConfusion h
  early _ _ := ⟨rfl, rfl⟩

variable {phase : OpenPhase}

theorem OpenPhase.Early.ne_spawned (h : phase.Early)
    (connectionId : Option Str) : phase ≠ .spawned connectionId := by
  rcases h with rfl | ⟨_, rfl⟩ | ⟨_, rfl⟩ <;> exact OpenPhase.noConfusion

theorem OpenPhase.Early.ne_returned (h : phase.Early)
    (ok : Bool) : phase ≠ .returned ok := by
  rcases h with rfl | ⟨_, rfl⟩ | ⟨_, rfl⟩ <;> exact OpenPhase.noConfusion

variable {manager next : TunnelManager} {i : Nat}

theorem told_leave {result : Section} :
    (manager.leave result).told i = false ↔
      manager.told i = false ∧ i ∉ result.2 := by
  simp only [leave, Bool.or_eq_false_iff, decide_eq_false_iff_not]

theorem Owned.leave {result : Section} (h : Owned manager)
    (hresult : Kept manager.entry result ∨ Released manager.entry result) :
    Owned (manager.leave result) := by
  have hheld : ∀ i, i ∈ result.2 → sender manager.entry = some i := by
    intro i hi
    rcases hresult with hkept | hreleased
    · rw [hkept.2] at hi
      exact absurd hi List.not_mem_nil
    · rw [hreleased.2, mem_toList] at hi
      exact hi
  have hsender : ∀ i, sender result.1 = some i →
      sender manager.entry = some i ∧ i ∉ result.2 := by
    intro i hi
    rcases hresult with hkept | hreleased
    · refine ⟨hkept.1 ▸ hi, ?_⟩
      rw [hkept.2]
      exact List.not_mem_nil
    · rw [hreleased.1] at hi
      exact absurd hi.symm (some_ne_none i)
  refine ⟨fun i htask htold => ?_, fun i hi => ?_, fun i c hi => ?_,
    fun i hi => ?_⟩
  · obtain ⟨hbefore, hnot⟩ := told_leave.mp htold
    rcases h.placed i htask hbefore with hspawned | hentry
    · exact .inl hspawned
    · rcases hresult with hkept | hreleased
      · exact .inr (hkept.1.trans hentry)
      · rw [hreleased.2, mem_toList] at hnot
        exact absurd hentry hnot
  · obtain ⟨hbefore, hnot⟩ := hsender i hi
    obtain ⟨htold, hrest⟩ := h.held i hbefore
    exact ⟨told_leave.mpr ⟨htold, hnot⟩, hrest⟩
  · obtain ⟨htold, htask⟩ := h.inHand i c hi
    refine ⟨told_leave.mpr ⟨htold, fun hmem => ?_⟩, htask⟩
    have hreturned := (h.held i (hheld i hmem)).2.2
    exact OpenPhase.noConfusion (hi.symm.trans hreturned)
  · obtain ⟨htold, htask⟩ := h.early i hi
    refine ⟨told_leave.mpr ⟨htold, fun hmem => ?_⟩, htask⟩
    exact absurd (h.held i (hheld i hmem)).2.2 (hi.ne_returned true)

theorem Owned.setOpen (h : Owned manager) (hbefore : (manager.opens i).Early)
    (hphase : ∀ connectionId, phase ≠ .spawned connectionId) :
    Owned (manager.setOpen i phase) := by
  obtain ⟨htold, htask⟩ := h.early i hbefore
  have hopens : ∀ j, j ≠ i →
      (manager.setOpen i phase).opens j = manager.opens j :=
    fun j hj => manager.setOpen_of_ne phase hj
  have hself : (manager.setOpen i phase).opens i = phase :=
    manager.setOpen_self i phase
  refine ⟨fun j hjtask hjtold => ?_, fun j hj => ?_, fun j c hj => ?_,
    fun j hj => ?_⟩
  · by_cases hji : j = i
    · exact absurd (hji ▸ htask) hjtask
    · rw [hopens j hji]
      exact h.placed j hjtask hjtold
  · obtain ⟨hjtold, hjtask, hreturned⟩ := h.held j hj
    have hji : j ≠ i := by
      rintro rfl
      exact hbefore.ne_returned true hreturned
    exact ⟨hjtold, hjtask, (hopens j hji).trans hreturned⟩
  · have hji : j ≠ i := by
      rintro rfl
      exact hphase c (hself ▸ hj)
    exact h.inHand j c (hopens j hji ▸ hj)
  · by_cases hji : j = i
    · rw [hji]
      exact ⟨htold, htask⟩
    · exact h.early j (hopens j hji ▸ hj)

theorem Owned.congr (h : Owned manager)
    (hentry : next.entry = manager.entry) (hopens : next.opens = manager.opens)
    (htasks : next.tasks = manager.tasks) (htold : next.told = manager.told) :
    Owned next := by
  refine ⟨?_, ?_, ?_, ?_⟩
  · rw [hentry, hopens, htasks, htold]
    exact h.placed
  · rw [hentry, hopens, htasks, htold]
    exact h.held
  · rw [hopens, htasks, htold]
    exact h.inHand
  · rw [hopens, htasks, htold]
    exact h.early

theorem Owned.setTask {phase : TaskPhase}
    (h : Owned manager) (hbefore : manager.tasks i ≠ .absent)
    (hphase : phase ≠ .absent) : Owned (manager.setTask i phase) := by
  have hiff : ∀ j, (manager.setTask i phase).tasks j = .absent ↔
      manager.tasks j = .absent := by
    intro j
    by_cases hji : j = i
    · have hself : (manager.setTask i phase).tasks j = phase := by
        rw [hji]
        exact manager.setTask_self i phase
      rw [hself, hji]
      exact iff_of_false hphase hbefore
    · have hother : (manager.setTask i phase).tasks j = manager.tasks j :=
        manager.setTask_of_ne phase hji
      rw [hother]
  refine ⟨fun j hj => h.placed j fun habs => hj ((hiff j).mpr habs),
    fun j hj => ?_, fun j c hj => ?_, fun j hj => ?_⟩
  · obtain ⟨htold, htask, hreturned⟩ := h.held j hj
    exact ⟨htold, fun habs => htask ((hiff j).mp habs), hreturned⟩
  · obtain ⟨htold, htask⟩ := h.inHand j c hj
    exact ⟨htold, fun habs => htask ((hiff j).mp habs)⟩
  · obtain ⟨htold, htask⟩ := h.early j hj
    exact ⟨htold, (hiff j).mpr htask⟩

theorem Owned.spawn {manager : TunnelManager} {i : Nat}
    {connectionId : Option Str} (h : Owned manager)
    (hbefore : (manager.opens i).Early) :
    Owned ((manager.setOpen i (.spawned connectionId)).setTask i .running) := by
  obtain ⟨htold, htask⟩ := h.early i hbefore
  refine ⟨fun j hjtask hjtold => ?_, fun j hj => ?_, fun j c hj => ?_,
    fun j hj => ?_⟩
  · by_cases hji : j = i
    · exact .inl ⟨connectionId, hji ▸ manager.setOpen_self i _⟩
    · rw [setTask_of_ne _ _ hji] at hjtask
      rcases h.placed j hjtask hjtold with ⟨c, hc⟩ | hentry
      · exact .inl ⟨c, (manager.setOpen_of_ne _ hji).trans hc⟩
      · exact .inr hentry
  · obtain ⟨hjtold, hjtask, hreturned⟩ := h.held j hj
    have hji : j ≠ i := by
      rintro rfl
      exact hbefore.ne_returned true hreturned
    rw [setTask_of_ne _ _ hji]
    exact ⟨hjtold, hjtask, (manager.setOpen_of_ne _ hji).trans hreturned⟩
  · by_cases hji : j = i
    · rw [hji, setTask_self]
      exact ⟨htold, TaskPhase.noConfusion⟩
    · rw [setTask_of_ne _ _ hji]
      exact h.inHand j c ((manager.setOpen_of_ne _ hji).symm.trans hj)
  · by_cases hji : j = i
    · have hself : ((manager.setOpen i (.spawned connectionId)).setTask i
          .running).opens i = .spawned connectionId :=
        manager.setOpen_self i _
      rw [hji, hself] at hj
      exact absurd rfl (hj.ne_spawned connectionId)
    · rw [setTask_of_ne _ _ hji]
      exact h.early j ((manager.setOpen_of_ne (.spawned connectionId)
        hji) ▸ hj)

/-- A call gives the sender away: to the entry, or to its task. -/
theorem Owned.install {connectionId : Option Str} (h : Owned manager)
    (hbefore : manager.opens i = .spawned connectionId) (generation : Nat) :
    Owned ((manager.leave (installTask manager.entry generation i
      connectionId)).setOpen i (.returned true)) := by
  obtain ⟨htold, htask⟩ := h.inHand i connectionId hbefore
  have hnotHeld : sender manager.entry ≠ some i := by
    intro hheld
    exact OpenPhase.noConfusion (hbefore.symm.trans (h.held i hheld).2.2)
  have hinHand : ∀ j c, ((manager.leave (installTask manager.entry generation
      i connectionId)).setOpen i (.returned true)).opens j = .spawned c →
        j ≠ i ∧ manager.opens j = .spawned c := by
    intro j c hj
    by_cases hji : j = i
    · rw [hji, setOpen_self] at hj
      exact OpenPhase.noConfusion hj
    · rw [setOpen_of_ne _ _ hji] at hj
      exact ⟨hji, hj⟩
  have hearly : ∀ j, (((manager.leave (installTask manager.entry generation
      i connectionId)).setOpen i (.returned true)).opens j).Early →
        j ≠ i ∧ (manager.opens j).Early := by
    intro j hj
    by_cases hji : j = i
    · rw [hji, setOpen_self] at hj
      exact absurd rfl (hj.ne_returned true)
    · rw [setOpen_of_ne _ _ hji] at hj
      exact ⟨hji, hj⟩
  have hnotTold : ∀ j, manager.told j = false → j ≠ i →
      sender manager.entry ≠ some j → j ∉ (installTask manager.entry
        generation i connectionId).2 := by
    intro j _ hji hsender
    rcases installTask_cases manager.entry generation i connectionId with
      ⟨old, -, -, -, hresult⟩ | ⟨-, hresult⟩
    · rw [hresult, mem_toList]
      exact hsender
    · rw [hresult, List.mem_singleton]
      exact hji
  have hnotReturned : ∀ j, manager.opens j ≠ .returned true →
      sender manager.entry ≠ some j :=
    fun j hj hheld => hj (h.held j hheld).2.2
  refine ⟨fun j hjtask hjtold => ?_, fun j hj => ?_, fun j c hj => ?_,
    fun j hj => ?_⟩
  · obtain ⟨hbeforeTold, hnot⟩ := told_leave.mp hjtold
    rcases installTask_cases manager.entry generation i connectionId with
      ⟨old, -, -, -, hresult⟩ | ⟨-, hresult⟩
    · by_cases hji : j = i
      · refine .inr ?_
        rw [hji]
        exact congrArg (fun result => sender result.1) hresult
      · rcases h.placed j hjtask hbeforeTold with ⟨c, hc⟩ | hentry
        · exact .inl ⟨c, (setOpen_of_ne _ _ hji).trans hc⟩
        · rw [hresult, mem_toList] at hnot
          exact absurd hentry hnot
    · rw [hresult, List.mem_singleton] at hnot
      rcases h.placed j hjtask hbeforeTold with ⟨c, hc⟩ | hentry
      · exact .inl ⟨c, (setOpen_of_ne _ _ hnot).trans hc⟩
      · refine .inr ?_
        have hsame : sender (installTask manager.entry generation i
            connectionId).1 = sender manager.entry :=
          congrArg (fun result => sender result.1) hresult
        exact hsame.trans hentry
  · rcases installTask_cases manager.entry generation i connectionId with
      ⟨old, -, -, -, hresult⟩ | ⟨-, hresult⟩
    · have hsender : sender (installTask manager.entry generation i
          connectionId).1 = some i :=
        congrArg (fun result => sender result.1) hresult
      have hji : j = i := (some.inj (hsender.symm.trans hj)).symm
      rw [hji]
      refine ⟨told_leave.mpr ⟨htold, ?_⟩, htask,
        setOpen_self _ i _⟩
      rw [hresult, mem_toList]
      exact hnotHeld
    · have hsame : sender (installTask manager.entry generation i
          connectionId).1 = sender manager.entry :=
        congrArg (fun result => sender result.1) hresult
      obtain ⟨hjtold, hjtask, hreturned⟩ := h.held j (hsame.symm.trans hj)
      have hji : j ≠ i := by
        rintro rfl
        exact hnotHeld (hsame.symm.trans hj)
      refine ⟨told_leave.mpr ⟨hjtold, ?_⟩, hjtask,
        (setOpen_of_ne _ _ hji).trans hreturned⟩
      rw [hresult, List.mem_singleton]
      exact hji
  · obtain ⟨hji, hspawned⟩ := hinHand j c hj
    obtain ⟨hjtold, hjtask⟩ := h.inHand j c hspawned
    have hsender := hnotReturned j (by rw [hspawned]; exact OpenPhase.noConfusion)
    exact ⟨told_leave.mpr ⟨hjtold, hnotTold j hjtold hji hsender⟩, hjtask⟩
  · obtain ⟨hji, hphase⟩ := hearly j hj
    obtain ⟨hjtold, hjtask⟩ := h.early j hphase
    have hsender := hnotReturned j (hphase.ne_returned true)
    exact ⟨told_leave.mpr ⟨hjtold, hnotTold j hjtold hji hsender⟩, hjtask⟩

theorem Owned.step {manager next : TunnelManager} {event : TunnelEvent}
    (h : Owned manager) (hstep : manager.step event = some next) :
    Owned next := by
  cases stepped_of_step hstep with
  | alreadyOpen hphase hopen =>
    exact (h.setOpen (.inl hphase) fun _ => OpenPhase.noConfusion).congr
      rfl rfl rfl rfl
  | check hphase hopen =>
    exact h.setOpen (.inl hphase) fun _ => OpenPhase.noConfusion
  | @beginStarting i connectionId hphase =>
    have hleft := h.leave
      (.inr (beginStarting_released manager.entry connectionId))
    exact (hleft.setOpen (.inr (.inl ⟨_, hphase⟩))
      fun _ => OpenPhase.noConfusion).congr rfl rfl rfl rfl
  | noConnection hphase =>
    exact (h.setOpen (.inr (.inr ⟨_, hphase⟩))
      fun _ => OpenPhase.noConfusion).congr rfl rfl rfl rfl
  | @fail i message connectionId hphase =>
    have hleft := h.leave (setGenerationStatus_kept_or_released
      manager.entry (manager.generations i) .error (some message) true)
    exact (hleft.setOpen (.inr (.inr ⟨_, hphase⟩))
      fun _ => OpenPhase.noConfusion).congr rfl rfl rfl rfl
  | spawn hphase => exact h.spawn (.inr (.inr ⟨_, hphase⟩))
  | installTask hphase => exact (h.install hphase _).congr rfl rfl rfl rfl
  | close =>
    exact (h.leave (.inr (close_released _))).congr rfl rfl rfl rfl
  | delete =>
    exact (h.leave (.inr (deleteRuntimeState_released _))).congr
      rfl rfl rfl rfl
  | markReconnecting =>
    exact h.leave (markEnabled_kept_or_released _ _ _ _ _)
  | spared hstatus =>
    exact (h.leave (markEnabled_kept_or_released _ _ _ _ _)).congr
      rfl rfl rfl rfl
  | markDisconnected hstatus =>
    exact (h.leave (markEnabled_kept_or_released _ _ _ _ _)).congr
      rfl rfl rfl rfl
  | @exit i exit hphase =>
    have hrunning : manager.tasks i ≠ .absent := by
      rw [hphase]
      exact TaskPhase.noConfusion
    exact (h.setTask hrunning TaskPhase.noConfusion).congr rfl rfl rfl rfl
  | @finishTask i exit hphase =>
    have hexited : manager.tasks i ≠ .absent := by
      rw [hphase]
      exact TaskPhase.noConfusion
    exact ((h.leave (finishTask_kept_or_released _ _ _)).setTask hexited
      TaskPhase.noConfusion).congr rfl rfl rfl rfl

/-- The call is under way with a generation, or its task has not finished. -/
def Carries (manager : TunnelManager) (i : Nat) : Prop :=
  (∃ connectionId, manager.opens i = .starting connectionId) ∨
    (∃ connectionId, manager.opens i = .spawned connectionId) ∨
    manager.tasks i = .running ∨ ∃ exit, manager.tasks i = .exited exit

/-- The generation that the event is about to give the entry. -/
def handsOut (manager : TunnelManager) : TunnelEvent → Option Nat
  | .beginStarting _ | .close => some (nextGeneration manager.generation)
  | .markDisconnected _ =>
    if isReconnecting manager.entry then none
    else some (nextGeneration manager.generation)
  | _ => none

/-- No generation is given out that an older call or task still carries. -/
def FreshGeneration (manager : TunnelManager) (event : TunnelEvent) : Prop :=
  ∀ generation, handsOut manager event = some generation →
    ∀ i, Carries manager i → manager.generations i ≠ generation

/-- Who carries the generation of the entry is the last to have taken it. -/
structure Fresh (manager : TunnelManager) : Prop where
  current : ∀ i entry, Carries manager i → manager.entry = some entry →
    entry.generation = manager.generations i → manager.began i = manager.clock
  positive : ∀ i, Carries manager i → 0 < manager.generations i

theorem not_carries_new (i : Nat) : ¬ Carries .new i := by
  rintro (⟨_, h⟩ | ⟨_, h⟩ | h | ⟨_, h⟩)
  · exact OpenPhase.noConfusion h
  · exact OpenPhase.noConfusion h
  · exact TaskPhase.noConfusion h
  · exact TaskPhase.noConfusion h

theorem fresh_new : Fresh .new :=
  ⟨fun i _ h => absurd h (not_carries_new i),
    fun i h => absurd h (not_carries_new i)⟩

/-- Steps that neither change the generation nor bring a new carrier. -/
theorem Fresh.congr (h : Fresh manager)
    (hentry : ∀ entry, next.entry = some entry →
      (∃ old, manager.entry = some old ∧
        old.generation = entry.generation) ∨ entry.generation = 0)
    (hcarries : ∀ i, Carries next i → Carries manager i)
    (hgenerations : next.generations = manager.generations)
    (hbegan : next.began = manager.began)
    (hclock : next.clock = manager.clock) : Fresh next := by
  refine ⟨fun i entry hi hsome hgeneration => ?_, fun i hi => ?_⟩
  · rw [hgenerations] at hgeneration
    rw [hbegan, hclock]
    rcases hentry entry hsome with ⟨old, hold, hsame⟩ | hzero
    · exact h.current i old (hcarries i hi) hold (hsame.trans hgeneration)
    · have hpositive := h.positive i (hcarries i hi)
      omega
  · rw [hgenerations]
    exact h.positive i (hcarries i hi)

/-- Steps that give the entry a generation that nobody else carries. -/
theorem Fresh.handOut (h : Fresh manager)
    (hentry : ∀ entry, next.entry = some entry → ∀ i, Carries manager i →
      entry.generation ≠ manager.generations i)
    (hcarries : ∀ i, Carries next i → Carries manager i)
    (hgenerations : next.generations = manager.generations) : Fresh next := by
  refine ⟨fun i entry hi hsome hgeneration => ?_, fun i hi => ?_⟩
  · rw [hgenerations] at hgeneration
    exact absurd hgeneration (hentry entry hsome i (hcarries i hi))
  · rw [hgenerations]
    exact h.positive i (hcarries i hi)

/-- The generation of an entry, if there is one. -/
def SameGeneration (entry : Option TunnelRuntimeEntry) (result : Section) :
    Prop :=
  ∀ next, result.1 = some next →
    ∃ old, entry = some old ∧ old.generation = next.generation

section

variable (entry : Option TunnelRuntimeEntry)
include entry

theorem setGenerationStatus_sameGeneration (generation : Nat)
    (status : TunnelRuntimeStatus) (error : Option Str) (clearHandles : Bool) :
    SameGeneration entry
      (setGenerationStatus entry generation status error clearHandles) := by
  intro next hnext
  cases entry with
  | none => exact absurd hnext.symm (some_ne_none next)
  | some old =>
    refine ⟨old, rfl, ?_⟩
    rw [setGenerationStatus] at hnext
    split at hnext
    · rw [← some.inj hnext]
    · split at hnext
      · rw [← some.inj hnext]
      · rw [← some.inj hnext]

theorem finishTask_sameGeneration (generation : Nat) (exit : TunnelTaskExit) :
    SameGeneration entry (finishTask entry generation exit) := by
  intro next hnext
  cases entry with
  | none => exact absurd hnext.symm (some_ne_none next)
  | some old =>
    refine ⟨old, rfl, ?_⟩
    rw [finishTask] at hnext
    split at hnext
    · rw [← some.inj hnext]
    · rw [← some.inj hnext]

theorem installTask_sameGeneration
    (generation task : Nat) (connectionId : Option Str) :
    SameGeneration entry (installTask entry generation task connectionId) := by
  intro next hnext
  rcases installTask_cases entry generation task connectionId with
    ⟨old, hold, -, -, hresult⟩ | ⟨-, hresult⟩
  · rw [hresult] at hnext
    exact ⟨old, hold, by rw [← some.inj hnext]⟩
  · rw [hresult] at hnext
    exact ⟨next, hnext, rfl⟩

/-- A mark leaves the generation alone, or begins with the first. -/
theorem markConnectionReconnecting_generation (connectionId : Str) :
    ∀ next, (markConnectionReconnecting entry connectionId).1 = some next →
      (∃ old, entry = some old ∧ old.generation = next.generation) ∨
        next.generation = 0 := by
  intro next hnext
  have hstatus : ∀ old : TunnelRuntimeEntry, ¬ (old.status = .reconnecting ∧
        TunnelRuntimeStatus.reconnecting = .disconnected) :=
    fun _ h => TunnelRuntimeStatus.noConfusion h.2
  rw [markConnectionReconnecting, markEnabled, if_neg (hstatus _),
    if_neg Bool.false_ne_true] at hnext
  cases entry with
  | none => exact .inr (by rw [← some.inj hnext]; rfl)
  | some old => exact .inl ⟨old, rfl, by rw [← some.inj hnext]; rfl⟩

end

variable {entry : Option TunnelRuntimeEntry}

theorem markConnectionDisconnected_spared
    (h : isReconnecting entry = true) (connectionId : Str) :
    markConnectionDisconnected entry connectionId = (entry, []) := by
  cases entry with
  | none => exact absurd h Bool.false_ne_true
  | some old =>
    have hstatus : old.status = .reconnecting := by
      simpa [isReconnecting] using h
    rw [markConnectionDisconnected, markEnabled, getD_some,
      if_pos ⟨hstatus, rfl⟩]

theorem markConnectionDisconnected_taken
    (h : isReconnecting entry = false) (connectionId : Str) :
    markConnectionDisconnected entry connectionId =
      (some { entry.getD (.new (some connectionId)) with
          generation := nextGeneration
            ((entry.map TunnelRuntimeEntry.generation).getD 0)
          shutdownTx := none
          status := .disconnected
          error := some "SSH session disconnected".toList },
        (sender entry).toList) := by
  cases entry with
  | none => rfl
  | some old =>
    have hstatus : old.status ≠ .reconnecting := by
      simpa [isReconnecting] using h
    rw [markConnectionDisconnected, markEnabled, getD_some,
      if_neg fun hand => hstatus hand.1, if_pos rfl]
    rfl

theorem close_eq (entry : Option TunnelRuntimeEntry) :
    close entry = (some { entry.getD (.new none) with
          generation := nextGeneration
            ((entry.map TunnelRuntimeEntry.generation).getD 0)
          shutdownTx := none
          status := .stopped
          error := none },
        (sender entry).toList) := by
  cases entry <;> rfl

theorem beginStarting_eq (entry : Option TunnelRuntimeEntry)
    (connectionId : Option Str) :
    beginStarting entry connectionId = (some {
          generation := nextGeneration
            ((entry.map TunnelRuntimeEntry.generation).getD 0)
          status := .starting
          error := none
          shutdownTx := none
          connectionId := connectionId },
        (sender entry).toList) := by
  cases entry <;> rfl

theorem nextGeneration_pos (generation : Nat) :
    0 < nextGeneration generation := by
  rw [nextGeneration]
  omega

theorem carries_setOpen (hstarting : ∀ c, phase ≠ .starting c)
    (hspawned : ∀ c, phase ≠ .spawned c) (j : Nat)
    (h : Carries (manager.setOpen i phase) j) : Carries manager j := by
  by_cases hji : j = i
  · subst hji
    rcases h with ⟨c, hc⟩ | ⟨c, hc⟩ | htask
    · exact absurd (manager.setOpen_self j phase ▸ hc) (hstarting c)
    · exact absurd (manager.setOpen_self j phase ▸ hc) (hspawned c)
    · exact .inr (.inr htask)
  · rw [Carries, manager.setOpen_of_ne phase hji] at h
    exact h

theorem carries_setTask {phase : TaskPhase} (h : Carries manager i) (j : Nat)
    (hj : Carries (manager.setTask i phase) j) : Carries manager j := by
  by_cases hji : j = i
  · rw [hji]
    exact h
  · rw [Carries, manager.setTask_of_ne phase hji] at hj
    exact hj

theorem carries_spawn
    {connectionId : Option Str}
    (hphase : manager.opens i = .starting connectionId) (j : Nat)
    (hj : Carries ((manager.setOpen i (.spawned connectionId)).setTask i
      .running) j) : Carries manager j := by
  by_cases hji : j = i
  · exact .inl ⟨_, hji ▸ hphase⟩
  · rw [Carries, setTask_of_ne _ _ hji] at hj
    have hopens : ((manager.setOpen i (.spawned connectionId)).setTask i
        .running).opens j = manager.opens j :=
      manager.setOpen_of_ne _ hji
    rw [hopens] at hj
    exact hj

/-- A call that takes the entry over carries a generation of its own. -/
theorem Fresh.beginStarting {manager : TunnelManager} {i : Nat}
    {connectionId : Option Str} (h : Fresh manager)
    (hfresh : FreshGeneration manager (.beginStarting i)) :
    Fresh (((manager.leave (beginStarting manager.entry connectionId)).take
      i).setOpen i (.starting connectionId)) := by
  have hentry : ((manager.leave (Tunnels.beginStarting manager.entry
      connectionId)).take i).generation = nextGeneration manager.generation :=
    by
      rw [beginStarting_eq]
      rfl
  have hother : ∀ j, j ≠ i → Carries (((manager.leave (Tunnels.beginStarting
      manager.entry connectionId)).take i).setOpen i (.starting connectionId))
        j → Carries manager j := by
    intro j hji hj
    rw [Carries, setOpen_of_ne _ _ hji] at hj
    exact hj
  refine ⟨fun j entry hj hsome hgeneration => ?_, fun j hj => ?_⟩
  · by_cases hji : j = i
    · rw [hji]
      exact Function.update_self i _ manager.began
    · have hcarries := hother j hji hj
      have hsame : (((manager.leave (Tunnels.beginStarting manager.entry
          connectionId)).take i).setOpen i (.starting
            connectionId)).generations j = manager.generations j :=
        Function.update_of_ne hji _ manager.generations
      have hnew : entry.generation = nextGeneration manager.generation := by
        rw [← hentry, TunnelManager.generation]
        exact congrArg (fun e => (Option.map TunnelRuntimeEntry.generation
          e).getD 0) hsome.symm
      rw [hsame, hnew] at hgeneration
      exact absurd hgeneration.symm (hfresh _ rfl j hcarries)
  · by_cases hji : j = i
    · have hself : (((manager.leave (Tunnels.beginStarting manager.entry
          connectionId)).take i).setOpen i (.starting
            connectionId)).generations i = nextGeneration
              manager.generation := by
        rw [← hentry]
        exact Function.update_self i _ manager.generations
      rw [hji, hself]
      exact nextGeneration_pos _
    · have hsame : (((manager.leave (Tunnels.beginStarting manager.entry
          connectionId)).take i).setOpen i (.starting
            connectionId)).generations j = manager.generations j :=
        Function.update_of_ne hji _ manager.generations
      rw [hsame]
      exact h.positive j (hother j hji hj)

theorem Fresh.step {manager next : TunnelManager} {event : TunnelEvent}
    (h : Fresh manager) (hfresh : FreshGeneration manager event)
    (hstep : manager.step event = some next) : Fresh next := by
  have hsame : ∀ result : Section, SameGeneration manager.entry result →
      ∀ entry, result.1 = some entry →
        (∃ old, manager.entry = some old ∧
          old.generation = entry.generation) ∨ entry.generation = 0 :=
    fun result hresult entry hentry => .inl (hresult entry hentry)
  cases stepped_of_step hstep with
  | alreadyOpen hphase hopen =>
    exact h.congr (hsame (manager.entry, []) fun old hold => ⟨old, hold, rfl⟩)
      (carries_setOpen (fun _ => OpenPhase.noConfusion)
        fun _ => OpenPhase.noConfusion) rfl rfl rfl
  | check hphase hopen =>
    exact h.congr (hsame (manager.entry, []) fun old hold => ⟨old, hold, rfl⟩)
      (carries_setOpen (fun _ => OpenPhase.noConfusion)
        fun _ => OpenPhase.noConfusion) rfl rfl rfl
  | beginStarting hphase => exact h.beginStarting hfresh
  | noConnection hphase =>
    exact h.congr (hsame (manager.entry, []) fun old hold => ⟨old, hold, rfl⟩)
      (carries_setOpen (fun _ => OpenPhase.noConfusion)
        fun _ => OpenPhase.noConfusion) rfl rfl rfl
  | fail hphase =>
    exact h.congr (hsame _ (setGenerationStatus_sameGeneration _ _ _ _ _))
      (carries_setOpen (fun _ => OpenPhase.noConfusion)
        fun _ => OpenPhase.noConfusion) rfl rfl rfl
  | spawn hphase =>
    exact h.congr (hsame (manager.entry, []) fun old hold => ⟨old, hold, rfl⟩)
      (carries_spawn hphase) rfl rfl rfl
  | installTask hphase =>
    exact h.congr (hsame _ (installTask_sameGeneration _ _ _ _))
      (carries_setOpen (fun _ => OpenPhase.noConfusion)
        fun _ => OpenPhase.noConfusion) rfl rfl rfl
  | close =>
    refine h.handOut (fun entry hentry i hi hgeneration => ?_)
      (fun _ hi => hi) rfl
    have hnew : entry.generation = nextGeneration manager.generation :=
      congrArg TunnelRuntimeEntry.generation (some.inj
        (hentry.symm.trans (congrArg Prod.fst (close_eq manager.entry))))
    exact hfresh _ rfl i hi (hgeneration.symm.trans hnew)
  | delete =>
    exact h.handOut (fun _ hentry => absurd hentry.symm (some_ne_none _))
      (fun _ hi => hi) rfl
  | markReconnecting =>
    exact h.congr (markConnectionReconnecting_generation _ _)
      (fun _ hi => hi) rfl rfl rfl
  | spared hstatus =>
    refine h.congr (hsame _ ?_) (fun _ hi => hi) rfl rfl rfl
    rw [markConnectionDisconnected_spared hstatus]
    exact fun old hold => ⟨old, hold, rfl⟩
  | @markDisconnected connectionId hstatus =>
    refine h.handOut (fun entry hentry i hi hgeneration => ?_)
      (fun _ hi => hi) rfl
    have hnew : entry.generation = nextGeneration manager.generation :=
      congrArg TunnelRuntimeEntry.generation (some.inj
        (hentry.symm.trans (congrArg Prod.fst
          (markConnectionDisconnected_taken hstatus connectionId))))
    have hhands : handsOut manager (.markDisconnected connectionId) =
        some (nextGeneration manager.generation) :=
      if_neg (Bool.eq_false_iff.mp hstatus)
    exact hfresh _ hhands i hi (hgeneration.symm.trans hnew)
  | exit hphase =>
    exact h.congr (hsame (manager.entry, []) fun old hold => ⟨old, hold, rfl⟩)
      (carries_setTask (.inr (.inr (.inl hphase)))) rfl rfl rfl
  | finishTask hphase =>
    exact h.congr (hsame _ (finishTask_sameGeneration _ _ _))
      (carries_setTask (.inr (.inr (.inr ⟨_, hphase⟩)))) rfl rfl rfl

/-- The call of `open`, or the task, that takes the step. -/
def TunnelEvent.actor : TunnelEvent → Option Nat
  | .noConnection i | .fail i _ | .spawn i | .installTask i | .exit i _
  | .finishTask i => some i
  | _ => none

/-- The task was spawned, and nothing has told it to stop. -/
def Untold (manager : TunnelManager) (i : Nat) : Prop :=
  manager.tasks i ≠ .absent ∧ manager.told i = false

/-- Unless a call is between spawning and installing its task, at most one task
has not been told to stop and the entry holds its sender; and no step of a call
or a task changes an entry that a later operation has taken over. -/
structure Isolated (manager : TunnelManager) : Prop where
  one : (∀ k connectionId, manager.opens k ≠ .spawned connectionId) →
    ∀ i j, Untold manager i → Untold manager j → i = j
  held : (∀ k connectionId, manager.opens k ≠ .spawned connectionId) →
    ∀ i, Untold manager i → sender manager.entry = some i
  stale : ∀ event next i, manager.step event = some next →
    event.actor = some i → manager.began i < manager.clock →
      next.entry = manager.entry

theorem Owned.held_of_untold (h : Owned manager)
    (hnone : ∀ k connectionId, manager.opens k ≠ .spawned connectionId)
    (hi : Untold manager i) : sender manager.entry = some i := by
  rcases h.placed i hi.1 hi.2 with ⟨c, hc⟩ | hentry
  · exact absurd hc (hnone i c)
  · exact hentry

/-- Who was overtaken finds another generation in the entry. -/
theorem Fresh.ne_generation (h : Fresh manager)
    (hi : Carries manager i) (hstale : manager.began i < manager.clock)
    {entry : TunnelRuntimeEntry} (hentry : manager.entry = some entry) :
    entry.generation ≠ manager.generations i := by
  intro heq
  have hcurrent := h.current i entry hi hentry heq
  omega

section

variable {generation : Nat}
    (h : ∀ old, entry = some old → old.generation ≠ generation)
include h

theorem installTask_stale (task : Nat) (connectionId : Option Str) :
    (installTask entry generation task connectionId).1 = entry := by
  rcases installTask_cases entry generation task connectionId with
    ⟨old, hold, hgeneration, -, -⟩ | ⟨-, hresult⟩
  · exact absurd hgeneration (h old hold)
  · rw [hresult]

theorem finishTask_stale
    (exit : TunnelTaskExit) : (finishTask entry generation exit).1 = entry := by
  cases entry with
  | none => rfl
  | some old => rw [finishTask, if_pos (h old rfl)]

theorem setGenerationStatus_stale
    (status : TunnelRuntimeStatus) (error : Option Str) (clearHandles : Bool) :
    (setGenerationStatus entry generation status error clearHandles).1 =
      entry := by
  cases entry with
  | none => rfl
  | some old => rw [setGenerationStatus, if_pos (h old rfl)]

end

/-- A step of an overtaken call or task leaves the entry alone. -/
theorem Fresh.stale {event : TunnelEvent} (h : Fresh manager)
    (hstep : manager.step event = some next) (hactor : event.actor = some i)
    (hstale : manager.began i < manager.clock) :
    next.entry = manager.entry := by
  have hne : ∀ {j}, j = i → Carries manager j → ∀ old,
      manager.entry = some old → old.generation ≠ manager.generations j := by
    intro j hji hcarries old hold
    subst hji
    exact h.ne_generation hcarries hstale hold
  cases stepped_of_step hstep with
  | alreadyOpen | check | beginStarting | close | delete | markReconnecting
  | spared | markDisconnected =>
    exact absurd hactor.symm (some_ne_none i)
  | noConnection | spawn | exit => rfl
  | fail hphase =>
    exact setGenerationStatus_stale
      (hne (some.inj hactor) (.inl ⟨_, hphase⟩)) _ _ _
  | installTask hphase =>
    exact installTask_stale
      (hne (some.inj hactor) (.inr (.inl ⟨_, hphase⟩))) _ _
  | finishTask hphase =>
    exact finishTask_stale (hne (some.inj hactor)
      (.inr (.inr (.inr ⟨_, hphase⟩)))) _

theorem owned_fresh {events : List TunnelEvent}
    (halong : system.Along FreshGeneration .new events)
    (hrun : system.runFrom .new events = some manager) :
    Owned manager ∧ Fresh manager := by
  have hstep : ∀ s e t, Owned s ∧ Fresh s → FreshGeneration s e →
      system.step s e = some t → Owned t ∧ Fresh t :=
    fun _ _ _ h hfresh hnext => ⟨h.1.step hnext, h.2.step hfresh hnext⟩
  exact system.run_invariant_along hstep
    ⟨owned_new, fresh_new⟩ halong hrun

/-- As long as no generation is given out again while an older call or task
carries it, the tasks of a tunnel are owned and its generations isolated. -/
theorem isolated_of_fresh {events : List TunnelEvent}
    {manager : TunnelManager}
    (halong : system.Along FreshGeneration .new events)
    (hrun : system.runFrom .new events = some manager) : Isolated manager := by
  obtain ⟨howned, hfresh⟩ := owned_fresh halong hrun
  refine ⟨fun hnone i j hi hj => ?_,
    fun hnone i hi => howned.held_of_untold hnone hi,
    fun event next i hstep hactor hstale => hfresh.stale hstep hactor hstale⟩
  have hentry := howned.held_of_untold hnone hi
  rw [howned.held_of_untold hnone hj] at hentry
  exact (some.inj hentry).symm

theorem fresh_of_none {event : TunnelEvent}
    (h : handsOut manager event = none) : FreshGeneration manager event := by
  intro generation hsome
  exact absurd (h.symm.trans hsome) (some_ne_none _).symm

/-- A tunnel that is opened and closed. -/
def openedClosed : List TunnelEvent :=
  [.check 0 (some ['c']), .beginStarting 0, .spawn 0, .installTask 0, .close]

theorem openedClosed_fresh :
    system.Along FreshGeneration .new openedClosed := by
  refine ⟨fresh_of_none rfl, fun _ h => some.inj h ▸ ⟨?_, fun _ h =>
    some.inj h ▸ ⟨fresh_of_none rfl, fun _ h => some.inj h ▸
      ⟨fresh_of_none rfl, fun _ h => some.inj h ▸
        ⟨?_, fun _ _ => trivial⟩⟩⟩⟩⟩
  · intro generation _ i hi
    have hnew : Carries .new i := carries_setOpen
      (fun _ => OpenPhase.noConfusion) (fun _ => OpenPhase.noConfusion) i hi
    exact absurd hnew (not_carries_new i)
  · intro generation hgeneration i _
    rw [← some.inj hgeneration]
    by_cases hzero : i = 0
    · subst hzero
      decide
    · intro heq
      have hgenerations := Function.update_of_ne hzero 1 fun _ : Nat => 0
      exact absurd (hgenerations.symm.trans heq) (by decide)

theorem openedClosed_isolated :
    ∃ manager, system.runFrom .new openedClosed = some manager ∧
      Isolated manager :=
  ⟨_, rfl, isolated_of_fresh openedClosed_fresh rfl⟩

/-- A tunnel that is deleted while a call opens it, and then opened again: both
calls carry the first generation. -/
def deletedReopened : List TunnelEvent :=
  [.check 0 (some ['c']), .beginStarting 0, .delete, .check 1 (some ['c']),
    .beginStarting 1, .spawn 0]

/-- The older call installs its task in the entry of the newer one. -/
theorem deletedReopened_not_isolated :
    ∃ manager next, system.runFrom .new deletedReopened = some
      manager ∧ manager.step (.installTask 0) = some next ∧ manager.began 0 <
      manager.began 1 ∧ manager.began 1 = manager.clock ∧ sender next.entry =
      some 0 ∧ ¬ Isolated manager := by
  refine ⟨_, _, rfl, rfl, by decide, by decide, by decide, fun h => ?_⟩
  have hsame := h.stale (.installTask 0) _ 0 rfl rfl (by decide)
  exact absurd hsame (by decide)

end NiceTerm.Ssh.Tunnels
