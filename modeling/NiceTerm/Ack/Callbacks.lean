/-
The callbacks of the coordinator, each up to its `pump`, keep a session sound:
an acknowledgement, a lease that opens or closes, a batch that comes back and a
retry timer.
-/
import NiceTerm.Ack.Sessions

namespace NiceTerm.Ack

open AckEvent AckLeaseState SessionAckState
open Drain (total total_append)

theorem AckEvent.leaseId_of_settles {event : AckEvent} {leaseId : Nat}
    (h : event.Settles leaseId) : event.leaseId = leaseId := by
  cases event with
  | delivered other bytes => exact h
  | discarded other bytes => exact h
  | _ => exact h.elim

namespace Session

open List Option

variable {s : Session}

theorem Remembered.note (h : s.Remembered) {event : AckEvent}
    (hnewest : ∀ active, s.state.activeLeaseId = some active →
      event.leaseId ≤ active)
    (hattempt : ∀ leaseId bytes, event ≠ .attempted leaseId bytes true)
    (hrecorded : Recorded (event :: s.history)) :
    Remembered { s with history := event :: s.history } where
  known leaseId hmem := mem_cons_of_mem _ (h.known leaseId hmem)
  newest := by
    intro active hactive other hother
    rcases mem_cons.mp hother with rfl | hold
    · exact hnewest active hactive
    · exact h.newest active hactive other hold
  last := by
    intro leaseId bytes hlast
    rcases mem_cons.mp hlast with hnew | hold
    · exact absurd hnew.symm (hattempt leaseId bytes)
    · exact h.last leaseId bytes hold
  lastFlight batch lease hbatch hfound hdisposed hspent :=
    mem_cons_of_mem _ (h.lastFlight batch lease hbatch hfound hdisposed hspent)
  recorded := hrecorded

variable {lease next : AckLeaseState}

theorem Remembered.setLease (h : s.Remembered) (next : AckLeaseState)
    (hfound : s.state.lease? next.id = some lease)
    (hdisposed : next.disposed = lease.disposed)
    (hfinal : next.finalAttemptAvailable = lease.finalAttemptAvailable) :
    (s.setLease next).Remembered := by
  have hsame : ∀ leaseId other, (s.setLease next).state.lease? leaseId = some
      other → ∃ old, s.state.lease? leaseId = some old ∧
        other.disposed = old.disposed ∧
        other.finalAttemptAvailable = old.finalAttemptAvailable := by
    intro leaseId other hother
    have hset : (s.setLease next).state.lease? leaseId = _ :=
      lease?_setLease next leaseId
    rw [hset] at hother
    split_ifs at hother with hid
    · obtain ⟨-, -, rfl⟩ := map_eq_some_iff.mp hother
      exact ⟨lease, hid ▸ hfound, hdisposed, hfinal⟩
    · exact ⟨other, hother, rfl, rfl⟩
  constructor
  · exact h.known
  · exact h.newest
  · intro leaseId bytes hlast other hother
    obtain ⟨old, hold, hdisposed, hfinal⟩ := hsame leaseId other hother
    rw [hdisposed, hfinal]
    exact h.last leaseId bytes hlast old hold
  · intro batch other hbatch hother hclosed hspent
    obtain ⟨old, hold, hdisposed, hfinal⟩ := hsame _ other hother
    exact h.lastFlight batch old hbatch hold (hdisposed ▸ hclosed)
      (hfinal ▸ hspent)
  · exact h.recorded

theorem accept_pendingOf
    (hfound : s.state.lease? lease.id = some lease) (bytes leaseId : Nat) :
    (s.accept lease bytes).state.pendingOf leaseId =
      if leaseId = lease.id then lease.pendingBytes + bytes
      else s.state.pendingOf leaseId :=
  pendingOf_setLease
    { lease with pendingBytes := lease.pendingBytes + bytes } hfound leaseId

theorem accept_sound (h : s.Sound)
    (hfound : s.state.lease? lease.id = some lease)
    (hactive : s.state.activeLeaseId = some lease.id) (bytes : Nat) :
    (s.accept lease bytes).Sound := by
  obtain ⟨hopen, haccepting, -⟩ := h.registered.lease _ _ hfound
  have hnot := hopen.mpr hactive
  refine ⟨?_, ⟨fun leaseId => ?_, ?_⟩, ⟨h.dispatched.invokes,
    h.dispatched.timers, h.dispatched.waiting, fun batch hbatch => ?_⟩, ?_⟩
  · apply h.registered.setLease
    refine ⟨hopen, haccepting, fun hdisposed => ?_⟩
    exact absurd (hdisposed.symm.trans hnot) (by simp)
  · have hconserved := h.balanced.conserved leaseId
    unfold Conserved at hconserved ⊢
    rw [accept_pendingOf hfound]
    simp only [accept, Session.setLease, total, acceptedBytes,
      deliveredBytes, discardedBytes] at hconserved ⊢
    by_cases hsame : leaseId = lease.id
    · rw [hsame, pendingOf_of_lease? hfound] at hconserved
      simp only [hsame, ↓reduceIte]
      omega
    · simp only [hsame, ↓reduceIte, if_neg (Ne.symm hsame)]
      omega
  · apply ordered_cons rfl
    · exact fun newer hnewer => hnewer
    · intro event hevent newer hnewer older hlt
      obtain ⟨hnone, hinvokes⟩ :=
        h.balanced.ordered event hevent newer hnewer older hlt
      refine ⟨?_, hinvokes⟩
      have hle := h.remembered.newest _ hactive event hevent
      rw [leaseId_of_settles hnewer] at hle
      rw [accept_pendingOf hfound, if_neg (by omega)]
      exact hnone
  · obtain ⟨hmem, holder⟩ := h.dispatched.flying batch hbatch
    refine ⟨hmem, fun older hlt => ?_⟩
    have hle := (h.registered.active _ hactive).2 _ hmem
    rw [accept_pendingOf hfound, if_neg (by omega)]
    exact holder older hlt
  · have hset := h.remembered.setLease
      { lease with pendingBytes := lease.pendingBytes + bytes } hfound rfl rfl
    refine hset.note ?_ (by simp) hset.recorded
    intro active hsame
    rw [some.inj (hactive.symm.trans hsame)]
    exact Nat.le_refl _

variable {batch : AckBatch}

/-- With a batch in flight it is the only one and no timer is set. -/
theorem Sound.in_flight (h : s.Sound)
    (hflight : s.state.inFlight = some batch) :
    s.invokes = [batch] ∧ s.timers = [] ∧ s.state.retryTimer = none := by
  have htimer : s.state.retryTimer = none := by
    by_contra hsome
    obtain ⟨timer, hset⟩ := ne_none_iff_exists'.mp hsome
    obtain ⟨-, hnone⟩ := h.dispatched.waiting timer hset
    exact absurd (hflight.symm.trans hnone) (by simp)
  refine ⟨?_, ?_, htimer⟩
  · rw [h.dispatched.invokes, hflight]
    rfl
  · rw [h.dispatched.timers, htimer]
    rfl

/-- The batch in flight comes back: the history says how, and its lease has
new values. -/
def returned (events : List AckEvent) (next : AckLeaseState) (s : Session) :
    Session :=
  { s with
    state := { s.state.setLease next with inFlight := none }
    invokes := []
    history := events ++ s.history }

/-- The bytes of the batch, put back, delivered or given up by `events`. -/
structure Accounts (lease next : AckLeaseState) (bytes : Nat)
    (events : List AckEvent) : Prop where
  id : next.id = lease.id
  same : ∀ event ∈ events, event.leaseId = lease.id
  accepted : ∀ leaseId, total (acceptedBytes leaseId) events = 0
  settled : lease.pendingBytes + bytes = next.pendingBytes + total
    (deliveredBytes lease.id) events + total (discardedBytes lease.id) events

variable {leaseId : Nat} {events : List AckEvent}

theorem Accounts.other {bytes : Nat} (h : Accounts lease next bytes events)
    (hother : leaseId ≠ lease.id) :
    total (deliveredBytes leaseId) events = 0 ∧
      total (discardedBytes leaseId) events = 0 := by
  have hsame := h.same
  clear h
  induction events with
  | nil => exact ⟨rfl, rfl⟩
  | cons event rest ih =>
    obtain ⟨hdelivered, hdiscarded⟩ := ih fun event hmem =>
      hsame event (mem_cons_of_mem _ hmem)
    have hid := hsame event mem_cons_self
    rw [total, total, hdelivered, hdiscarded]
    cases event with
    | delivered id count =>
      have hne : ¬ id = leaseId := fun h => hother (h.symm.trans hid)
      exact ⟨if_neg hne, rfl⟩
    | discarded id count =>
      have hne : ¬ id = leaseId := fun h => hother (h.symm.trans hid)
      exact ⟨rfl, if_neg hne⟩
    | _ => exact ⟨rfl, rfl⟩

theorem returned_pendingOf (hid : next.id = lease.id)
    (hfound : s.state.lease? lease.id = some lease) (leaseId : Nat) :
    (s.returned events next).state.pendingOf leaseId =
      if leaseId = lease.id then next.pendingBytes
      else s.state.pendingOf leaseId := by
  rw [← hid] at hfound
  have hset := pendingOf_setLease next hfound leaseId
  rw [hid] at hset
  exact hset

section

variable (h : s.Sound) (hflight : s.state.inFlight = some batch)
    (hbatch : batch.leaseId = lease.id)
    (hfound : s.state.lease? lease.id = some lease)
include h hflight hbatch hfound

/-- A batch that comes back leaves the accounts balanced. -/
theorem returned_balanced (haccounts : Accounts lease next batch.bytes events) :
    (s.returned events next).Balanced := by
  obtain ⟨hinvokes, -, -⟩ := h.in_flight hflight
  obtain ⟨-, holder⟩ := h.dispatched.flying batch hflight
  constructor
  · intro leaseId
    have hconserved := h.balanced.conserved leaseId
    unfold Conserved at hconserved ⊢
    rw [returned_pendingOf haccounts.id hfound]
    simp only [returned, total_append, haccounts.accepted, inFlightOf, total]
    rw [hinvokes] at hconserved
    simp only [inFlightOf, total, hbatch] at hconserved
    have hsettled := haccounts.settled
    by_cases hsame : leaseId = lease.id
    · subst hsame
      rw [pendingOf_of_lease? hfound] at hconserved
      simp only [↓reduceIte] at hconserved ⊢
      omega
    · obtain ⟨hdelivered, hdiscarded⟩ := haccounts.other hsame
      simp only [hsame, ↓reduceIte, if_neg (Ne.symm hsame)] at hconserved ⊢
      omega
  · intro event hevent newer hnewer older hlt
    have hfinished : s.state.pendingOf older = 0 ∧ older ≠ lease.id := by
      rcases mem_append.mp hevent with hnew | hold
      · have hid := haccounts.same event hnew
        rw [leaseId_of_settles hnewer] at hid
        exact ⟨holder older (by omega), by omega⟩
      · obtain ⟨hnone, hback⟩ :=
          h.balanced.ordered event hold newer hnewer older hlt
        have hne := hback batch (by rw [hinvokes]; exact mem_cons_self)
        exact ⟨hnone, fun hid => hne (hbatch.trans hid.symm)⟩
    refine ⟨?_, fun other hmem => absurd hmem not_mem_nil⟩
    rw [returned_pendingOf haccounts.id hfound, if_neg hfinished.2]
    exact hfinished.1

/-- The state after a batch has come back, apart from its history. -/
theorem returned_sound
    (events : List AckEvent) (next : AckLeaseState)
    (haccounts : Accounts lease next batch.bytes events)
    (hdisposed : next.disposed = lease.disposed)
    (haccepting : next.accepting = lease.accepting)
    (hfinal : next.finalAttemptAvailable = lease.finalAttemptAvailable)
    (hspent : next.disposed = true → next.finalAttemptAvailable = false →
      next.pendingBytes = 0)
    (hattempt : ∀ leaseId bytes, .attempted leaseId bytes true ∉ events)
    (hrecorded : Recorded (events ++ s.history)) :
    (s.returned events next).Sound := by
  obtain ⟨-, htimers, htimer⟩ := h.in_flight hflight
  have hvalid := h.registered.lease _ _ hfound
  have hregistered := h.registered.setLease next
    ⟨by rw [hdisposed, haccounts.id]; exact hvalid.open_iff,
      by rw [hdisposed, haccepting]; exact hvalid.accepting, hspent⟩
  have hfound' : s.state.lease? next.id = some lease := by
    rw [haccounts.id]
    exact hfound
  have hset := h.remembered.setLease next hfound' hdisposed hfinal
  refine ⟨⟨hregistered.ids, hregistered.sorted, hregistered.lease,
    hregistered.active⟩, returned_balanced h hflight hbatch hfound haccounts,
    ⟨rfl, ?_, fun timer hsome => ?_, fun other hother => ?_⟩,
    ⟨fun leaseId hmem => ?_, fun active hactive event hevent => ?_,
      fun leaseId bytes hlast other hother => ?_,
      fun other _ hother => ?_, hrecorded⟩⟩
  · change s.timers = s.state.retryTimer.toList
    rw [htimers, htimer]
    rfl
  · exact absurd (htimer.symm.trans hsome) (by simp)
  · exact absurd hother (by simp [returned])
  · exact mem_append_right _ (h.remembered.known leaseId hmem)
  · rcases mem_append.mp hevent with hnew | hold
    · rw [haccounts.same event hnew]
      exact (h.registered.active active hactive).2 _
        (h.registered.mem_order_iff.mpr ⟨lease, hfound⟩)
    · exact h.remembered.newest active hactive event hold
  · rcases mem_append.mp hlast with hnew | hold
    · exact absurd hnew (hattempt leaseId bytes)
    · exact hset.last leaseId bytes hold other hother
  · exact absurd hother (by simp [returned])

end

theorem Sound.in_flight_lease (h : s.Sound)
    (hflight : s.state.inFlight = some batch) :
    ∃ lease, s.state.lease? batch.leaseId = some lease ∧
      batch.leaseId = lease.id ∧ s.state.lease? lease.id = some lease := by
  obtain ⟨hmem, -⟩ := h.dispatched.flying batch hflight
  obtain ⟨lease, hfound⟩ := h.registered.mem_order_iff.mp hmem
  have hid := id_of_lease? hfound
  exact ⟨lease, hfound, hid.symm, by rw [hid]; exact hfound⟩

/-- The batch in flight leaves `invokes` with what became of it. -/
def settled (event : AckEvent) (s : Session) : Session :=
  { s with invokes := [], history := event :: s.history }

theorem complete_sound (h : s.Sound) (hflight : s.state.inFlight = some batch) :
    ((s.settled (.delivered batch.leaseId batch.bytes)).complete
      batch.leaseId).Sound := by
  obtain ⟨lease, hfound, hbatch, hself⟩ := h.in_flight_lease hflight
  have hcomplete : (s.settled (.delivered batch.leaseId batch.bytes)).complete
      batch.leaseId = s.returned [.delivered batch.leaseId batch.bytes]
        { lease with retryAttempt := 0 } := by
    have hsame : lease?
        { (s.settled (.delivered batch.leaseId batch.bytes)).state with
          inFlight := none } batch.leaseId = some lease := hfound
    simp only [complete, hsame]
    rfl
  have hvalid := h.registered.lease _ _ hself
  rw [hcomplete]
  refine returned_sound h hflight hbatch hself _ _
    ⟨rfl, ?_, fun _ => rfl, ?_⟩ rfl rfl rfl hvalid.spent (by simp) h.remembered.recorded
  · intro event hevent
    rw [mem_singleton.mp hevent]
    exact hbatch
  · simp [total, deliveredBytes, discardedBytes, hbatch]

theorem logged_sound (h : s.Sound) (lastFailureLogAt : Option Nat)
    (suppressedFailures : Nat) (failures : List OutputAckFailureDetails) :
    Sound { s with
      state := { s.state with lastFailureLogAt, suppressedFailures }
      failures } where
  registered := { h.registered with }
  balanced := { h.balanced with }
  dispatched := { h.dispatched with }
  remembered := { h.remembered with }

theorem logFailure_sound (h : s.Sound) (options : OutputAckCoordinatorOptions)
    (now : Nat) (lease : AckLeaseState) (bytes retryDelayMs : Nat) :
    (s.logFailure options now lease bytes retryDelayMs).Sound := by
  unfold logFailure
  simp only
  split_ifs
  · exact logged_sound h _ _ _
  · exact logged_sound h _ _ _

theorem logFailure_state (options : OutputAckCoordinatorOptions) (now : Nat)
    (lease : AckLeaseState) (bytes retryDelayMs : Nat) :
    let logged := s.logFailure options now lease bytes retryDelayMs
    logged.state.sessionId = s.state.sessionId ∧ logged.state.activeLeaseId =
      s.state.activeLeaseId ∧ logged.state.inFlight = s.state.inFlight ∧
      logged.state.retryTimer = s.state.retryTimer ∧ logged.timers = s.timers ∧
      logged.history = s.history := by
  unfold logFailure
  simp only
  split_ifs
  · exact ⟨rfl, rfl, rfl, rfl, rfl, rfl⟩
  · exact ⟨rfl, rfl, rfl, rfl, rfl, rfl⟩

/-- The batch in flight has failed, and the state no longer shows it. -/
def failing (batch : AckBatch) (s : Session) : Session :=
  let failed := s.settled (.failed batch.leaseId batch.bytes)
  { failed with state := { failed.state with inFlight := none } }

section

variable (h : s.Sound) (hflight : s.state.inFlight = some batch)
    (hbatch : batch.leaseId = lease.id)
    (hfound : s.state.lease? lease.id = some lease)
include h hflight hbatch hfound

/-- A batch that fails with a last attempt to come is put back. -/
theorem restored_sound
    (hagain : lease.disposed = true → lease.finalAttemptAvailable = true)
    (retryAttempt : Nat) :
    ((s.failing batch).setLease { lease with
      pendingBytes := lease.pendingBytes + batch.bytes
      retryAttempt }).Sound := by
  refine returned_sound h hflight hbatch hfound
    [.failed batch.leaseId batch.bytes] { lease with
      pendingBytes := lease.pendingBytes + batch.bytes
      retryAttempt }
    ⟨rfl, ?_, fun _ => rfl, rfl⟩ rfl rfl rfl ?_ (by simp)
    h.remembered.recorded
  · intro event hevent
    rw [mem_singleton.mp hevent]
    exact hbatch
  · intro hdisposed hspent
    exact absurd ((hagain hdisposed).symm.trans hspent) (by simp)

theorem discarded_sound (hdisposed : lease.disposed = true)
    (hspent : lease.finalAttemptAvailable = false) :
    ((s.failing batch).discard { lease with
      pendingBytes := lease.pendingBytes + batch.bytes }).Sound := by
  have hnone := (h.registered.lease _ _ hfound).spent hdisposed hspent
  have hattempt := h.remembered.lastFlight batch lease hflight
    (hbatch ▸ hfound) hdisposed hspent
  refine returned_sound h hflight hbatch hfound
    [.discarded lease.id (lease.pendingBytes + batch.bytes),
      .failed batch.leaseId batch.bytes]
    { lease with pendingBytes := 0 }
    ⟨rfl, ?_, fun _ => rfl, ?_⟩ rfl rfl rfl (fun _ _ => rfl) (by simp) ?_
  · intro event hevent
    rcases mem_cons.mp hevent with rfl | hrest
    · rfl
    · rw [mem_singleton.mp hrest]
      exact hbatch
  · simp [total, deliveredBytes, discardedBytes]
  · rw [hnone, Nat.zero_add, ← hbatch]
    exact ⟨⟨s.history, rfl, hattempt⟩, h.remembered.recorded⟩

theorem failDisposed_sound (hdisposed : lease.disposed = true)
    (options : OutputAckCoordinatorOptions) (now : Nat) :
    ((s.failing batch).failDisposed options now lease batch.bytes).Sound := by
  unfold failDisposed
  simp only
  split_ifs with hfinal
  · apply logFailure_sound
    exact restored_sound h hflight hbatch hfound (fun _ => hfinal)
      lease.retryAttempt
  · apply logFailure_sound
    exact discarded_sound h hflight hbatch hfound hdisposed
      (Bool.of_not_eq_true hfinal)

end

theorem timerSet_sound (h : s.Sound) (timer : RetryTimer)
    (hactive : s.state.activeLeaseId = some timer.leaseId)
    (hflight : s.state.inFlight = none) (htimers : s.timers = [])
    (nextHandle : Nat) :
    Sound { s with
      state := { s.state with retryTimer := some timer }
      timers := s.timers ++ [timer]
      nextHandle } where
  registered := { h.registered with }
  balanced := { h.balanced with }
  remembered := { h.remembered with }
  dispatched := by
    refine ⟨h.dispatched.invokes, ?_, fun other hother => ?_,
      fun batch hbatch => ?_⟩
    · change s.timers ++ [timer] = [timer]
      rw [htimers, nil_append]
    · rw [← some.inj hother]
      exact ⟨hactive, hflight⟩
    · exact absurd (hflight.symm.trans hbatch) (by simp)

theorem failOpen_sound (h : s.Sound) (hflight : s.state.inFlight = some batch)
    (hbatch : batch.leaseId = lease.id)
    (hfound : s.state.lease? lease.id = some lease)
    (hopen : lease.disposed = false) (options : OutputAckCoordinatorOptions)
    (now : Nat) :
    ((s.failing batch).failOpen options now lease batch.bytes).Sound := by
  obtain ⟨-, htimers, -⟩ := h.in_flight hflight
  have hactive := (h.registered.lease _ _ hfound).open_iff.mp hopen
  have hrestored := restored_sound h hflight hbatch hfound
    (fun hdisposed => absurd (hdisposed.symm.trans hopen) (by simp))
    (lease.retryAttempt + 1)
  obtain ⟨-, hsame, hnone, -, hempty, -⟩ := logFailure_state
    (s := (s.failing batch).setLease { lease with
      pendingBytes := lease.pendingBytes + batch.bytes
      retryAttempt := lease.retryAttempt + 1 })
    options now { lease with
      pendingBytes := lease.pendingBytes + batch.bytes
      retryAttempt := lease.retryAttempt + 1 } batch.bytes
    (min options.retryMaxMs
      (options.retryBaseMs * Nat.pow 2 (min lease.retryAttempt 30)))
  exact timerSet_sound (logFailure_sound hrestored _ _ _ _ _) ⟨lease.id, _⟩
    (hsame.trans hactive) hnone (hempty.trans htimers) _

theorem fireRetry_sound (h : s.Sound) {timer : RetryTimer}
    (htimer : s.state.retryTimer = some timer) :
    Sound { s with
      state := { s.state with retryTimer := none }
      timers := [] } where
  registered := { h.registered with }
  balanced := { h.balanced with }
  remembered := { h.remembered with }
  dispatched := by
    obtain ⟨-, hflight⟩ := h.dispatched.waiting timer htimer
    refine ⟨h.dispatched.invokes, rfl, fun other hother => ?_,
      fun batch hbatch => ?_⟩
    · exact absurd hother (by simp)
    · exact absurd (hflight.symm.trans hbatch) (by simp)

theorem close_pendingOf
    (hfound : s.state.lease? lease.id = some lease) (leaseId : Nat) :
    (s.state.setLease lease.closed).pendingOf leaseId =
      s.state.pendingOf leaseId := by
  have hset := pendingOf_setLease lease.closed hfound leaseId
  rw [hset]
  split_ifs with hsame
  · rw [hsame]
    exact (pendingOf_of_lease? hfound).symm
  · rfl

/-- With no lease open no timer is set. -/
def shut (lease : AckLeaseState) (s : Session) : Session :=
  { s with
    state :=
      { s.state.setLease lease.closed with
        activeLeaseId := none
        retryTimer := none }
    timers := [] }

theorem close_eq_shut (h : s.Sound)
    (hactive : s.state.activeLeaseId = some lease.id) :
    s.close lease = s.shut lease := by
  have htimers := h.dispatched.timers
  have hset : (s.state.setLease lease.closed).activeLeaseId =
      some lease.id := hactive
  have hsame : (s.state.setLease lease.closed).retryTimer =
      s.state.retryTimer := rfl
  simp only [close, hset, ↓reduceIte, hsame]
  cases htimer : s.state.retryTimer with
  | none =>
    rw [htimer] at htimers
    simp only [shut, htimers, toList_none]
  | some timer =>
    obtain ⟨hwaiting, -⟩ := h.dispatched.waiting timer htimer
    have hid : timer.leaseId = lease.id :=
      some.inj (hwaiting.symm.trans hactive)
    rw [htimer] at htimers
    simp [shut, htimers, hid]

theorem close_sound (h : s.Sound)
    (hfound : s.state.lease? lease.id = some lease)
    (hactive : s.state.activeLeaseId = some lease.id) :
    (s.close lease).Sound := by
  have hopen := (h.registered.lease _ _ hfound).open_iff.mpr hactive
  have hother : ∀ leaseId other, (s.shut lease).state.lease? leaseId = some
      other → (leaseId = lease.id ∧ other = lease.closed) ∨
        (leaseId ≠ lease.id ∧ s.state.lease? leaseId = some other) := by
    intro leaseId other hsome
    have hset : (s.shut lease).state.lease? leaseId = _ :=
      lease?_setLease lease.closed leaseId
    rw [hset] at hsome
    split_ifs at hsome with hid
    · obtain ⟨-, -, rfl⟩ := map_eq_some_iff.mp hsome
      exact .inl ⟨hid, rfl⟩
    · exact .inr ⟨hid, hsome⟩
  rw [close_eq_shut h hactive]
  refine ⟨⟨?_, h.registered.sorted, fun leaseId other hsome => ?_,
      fun active hsome => absurd hsome (by simp [shut])⟩,
    ⟨fun leaseId => ?_, fun event hevent newer hnewer older hlt => ?_⟩,
    ⟨h.dispatched.invokes, rfl, fun timer hsome => absurd hsome
      (by simp [shut]), fun batch hbatch => ?_⟩,
    ⟨h.remembered.known, fun active hsome => absurd hsome (by simp [shut]),
      fun leaseId bytes hlast other hsome => ?_,
      fun batch other hbatch hsome hdisposed hspent => ?_,
      h.remembered.recorded⟩⟩
  · exact h.registered.ids.trans
      (Keyed.replace_keys lease.closed s.state.leases).symm
  · rcases hother leaseId other hsome with ⟨hid, rfl⟩ | ⟨hne, hold⟩
    · exact ⟨by simp [closed, shut],
        rfl, fun _ hspent => absurd hspent (by simp [closed])⟩
    · obtain ⟨hiff, haccepting, hspent⟩ := h.registered.lease leaseId other hold
      refine ⟨?_, haccepting, hspent⟩
      rw [hiff, hactive]
      simp [shut, Ne.symm hne]
  · have hconserved := h.balanced.conserved leaseId
    unfold Conserved at hconserved ⊢
    rw [← close_pendingOf hfound leaseId] at hconserved
    exact hconserved
  · obtain ⟨hnone, hback⟩ :=
      h.balanced.ordered event hevent newer hnewer older hlt
    exact ⟨(close_pendingOf hfound older).trans hnone, hback⟩
  · obtain ⟨hmem, holder⟩ := h.dispatched.flying batch hbatch
    exact ⟨hmem, fun older hlt =>
      (close_pendingOf hfound older).trans (holder older hlt)⟩
  · rcases hother leaseId other hsome with ⟨rfl, -⟩ | ⟨hne, hold⟩
    · have hclosed := (h.remembered.last _ bytes hlast lease hfound).1
      exact absurd (hclosed.symm.trans hopen) (by simp)
    · exact h.remembered.last leaseId bytes hlast other hold
  · rcases hother _ other hsome with ⟨-, rfl⟩ | ⟨hne, hold⟩
    · exact absurd hspent (by simp [closed])
    · exact h.remembered.lastFlight batch other hbatch hold hdisposed hspent

/-- A number given to no lease of the session so far. -/
def Fresh (leaseId : Nat) (s : Session) : Prop :=
  ∀ event ∈ s.history, event.leaseId < leaseId

theorem Sound.fresh_order (h : s.Sound) (hfresh : s.Fresh leaseId)
    {other : Nat} (hmem : other ∈ s.state.leaseOrder) : other < leaseId :=
  hfresh _ (h.remembered.known other hmem)

theorem addLease_lease? (generation other : Nat) (hnew : other ≠ leaseId) :
    (s.addLease leaseId generation).state.lease? other =
      s.state.lease? other := by
  have hconcat : (s.addLease leaseId generation).state.lease? other = _ :=
    Keyed.find_concat s.state.leases { id := leaseId, generation } other
  rw [if_neg (Ne.symm hnew), or_none] at hconcat
  exact hconcat

theorem addLease_lease?_self (h : s.Sound)
    (hfresh : s.Fresh leaseId) (generation : Nat) :
    (s.addLease leaseId generation).state.lease? leaseId =
      some { id := leaseId, generation } := by
  have hnone : s.state.lease? leaseId = none := by
    by_contra hsome
    have hmem := h.registered.mem_order_iff.mpr (ne_none_iff_exists'.mp hsome)
    exact Nat.lt_irrefl _ (h.fresh_order hfresh hmem)
  have hconcat : (s.addLease leaseId generation).state.lease? leaseId = _ :=
    Keyed.find_concat s.state.leases { id := leaseId, generation } leaseId
  rw [if_pos rfl] at hconcat
  rw [hconcat, ← lease?_eq_find, hnone]
  rfl

theorem addLease_pendingOf (h : s.Sound)
    (hfresh : s.Fresh leaseId) (generation other : Nat) :
    (s.addLease leaseId generation).state.pendingOf other =
      s.state.pendingOf other := by
  by_cases hsame : other = leaseId
  · subst hsame
    rw [pendingOf, addLease_lease?_self h hfresh, pendingOf]
    cases hfound : s.state.lease? other with
    | none => rfl
    | some lease =>
      have hmem := h.registered.mem_order_iff.mpr ⟨lease, hfound⟩
      exact absurd (h.fresh_order hfresh hmem) (Nat.lt_irrefl _)
  · rw [pendingOf, addLease_lease? generation other hsame]
    rfl

/-- A lease with a fresh number opens where none is open. -/
theorem addLease_sound (h : s.Sound) (hnone : s.state.activeLeaseId = none)
    (hfresh : s.Fresh leaseId) (generation : Nat) :
    (s.addLease leaseId generation).Sound := by
  have hself := addLease_lease?_self h hfresh generation
  refine ⟨⟨?_, ?_, fun other lease hfound => ?_, fun active hactive => ?_⟩,
    ⟨fun other => ?_, ?_⟩,
    ⟨h.dispatched.invokes, h.dispatched.timers, fun timer hset => ?_,
      fun batch hbatch => ?_⟩,
    ⟨fun other hmem => ?_, fun active hactive event hevent => ?_,
      fun other bytes hlast lease hfound => ?_,
      fun batch lease hbatch hfound hdisposed hspent => ?_,
      h.remembered.recorded⟩⟩
  · change s.state.leaseOrder ++ [leaseId] = List.map _ (s.state.leases ++ _)
    rw [map_append, h.registered.ids]
    rfl
  · refine pairwise_append.mpr ⟨h.registered.sorted,
      pairwise_singleton _ _, fun other hmem new hnew => ?_⟩
    rw [mem_singleton.mp hnew]
    exact h.fresh_order hfresh hmem
  · by_cases hsame : other = leaseId
    · subst hsame
      rw [hself, some.injEq] at hfound
      rw [← hfound]
      exact ⟨iff_of_true rfl rfl, rfl, fun _ _ => rfl⟩
    · rw [addLease_lease? generation other hsame] at hfound
      obtain ⟨hiff, haccepting, hspent⟩ := h.registered.lease other lease hfound
      refine ⟨?_, haccepting, hspent⟩
      rw [hiff, hnone]
      simp [addLease, Ne.symm hsame]
  · rw [← some.inj hactive]
    refine ⟨mem_append_right _ (mem_singleton_self _),
      fun other hmem => ?_⟩
    rcases mem_append.mp hmem with hold | hnew
    · exact Nat.le_of_lt (h.fresh_order hfresh hold)
    · exact Nat.le_of_eq (mem_singleton.mp hnew)
  · have hconserved := h.balanced.conserved other
    unfold Conserved at hconserved ⊢
    rw [addLease_pendingOf h hfresh]
    simp only [addLease, total, acceptedBytes,
      deliveredBytes, discardedBytes, Nat.zero_add]
    exact hconserved
  · apply ordered_cons rfl
    · exact fun newer hnewer => hnewer
    · intro event hevent newer hnewer older hlt
      obtain ⟨hzero, hback⟩ :=
        h.balanced.ordered event hevent newer hnewer older hlt
      exact ⟨(addLease_pendingOf h hfresh generation older).trans hzero, hback⟩
  · obtain ⟨hactive, -⟩ := h.dispatched.waiting timer hset
    exact absurd (hnone.symm.trans hactive) (by simp)
  · obtain ⟨hmem, holder⟩ := h.dispatched.flying batch hbatch
    exact ⟨mem_append_left _ hmem, fun older hlt =>
      (addLease_pendingOf h hfresh generation older).trans (holder older hlt)⟩
  · rcases mem_append.mp hmem with hold | hnew
    · exact mem_cons_of_mem _ (h.remembered.known other hold)
    · rw [mem_singleton.mp hnew]
      exact mem_cons_self
  · rw [← some.inj hactive]
    rcases mem_cons.mp hevent with rfl | hold
    · exact Nat.le_refl _
    · exact Nat.le_of_lt (hfresh event hold)
  · rcases mem_cons.mp hlast with hnew | hold
    · exact absurd hnew (by simp)
    · have hne : other ≠ leaseId := Nat.ne_of_lt (hfresh _ hold)
      rw [addLease_lease? generation other hne] at hfound
      exact h.remembered.last other bytes hold lease hfound
  · have hmem := (h.dispatched.flying batch hbatch).1
    have hne : batch.leaseId ≠ leaseId :=
      Nat.ne_of_lt (h.fresh_order hfresh hmem)
    rw [addLease_lease? generation _ hne] at hfound
    exact mem_cons_of_mem _
      (h.remembered.lastFlight batch lease hbatch hfound hdisposed hspent)

/-- Registering the new lease and closing the old one can be done in either
order. -/
theorem close_addLease (hne : leaseId ≠ lease.id)
    (hactive : s.state.activeLeaseId = some lease.id) (generation : Nat) :
    (s.addLease leaseId generation).close lease =
      (s.close lease).addLease leaseId generation := by
  have hopened : ¬ some leaseId = some lease.id := by simpa using hne
  unfold close addLease
  simp only [SessionAckState.setLease, hactive, hopened, ↓reduceIte,
    map_append, map_cons, map_nil, closed, hne]
  cases s.state.retryTimer with
  | none => rfl
  | some timer =>
    by_cases htimer : timer.leaseId = lease.id
    · simp only [htimer, ↓reduceIte]
    · simp only [htimer, ↓reduceIte]

end Session

end NiceTerm.Ack
