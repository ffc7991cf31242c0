/-
The leases of one session.  Only the newest lease is open; the batch in flight
is that of the oldest lease with anything left, and what a lease has accepted
is pending, in flight, delivered or given up after its last attempt.
-/
import NiceTerm.Lib.Keyed
import NiceTerm.Drain.Queue
import NiceTerm.Ack.OutputAckCoordinator

namespace NiceTerm.Ack

open Drain (total total_append)

namespace AckEvent

def leaseId : AckEvent → Nat
  | .acquired leaseId => leaseId
  | .accepted leaseId _ => leaseId
  | .attempted leaseId _ _ => leaseId
  | .delivered leaseId _ => leaseId
  | .failed leaseId _ => leaseId
  | .discarded leaseId _ => leaseId

variable (leaseId : Nat)

def acceptedBytes : AckEvent → Nat
  | .accepted other bytes => if other = leaseId then bytes else 0
  | _ => 0

def deliveredBytes : AckEvent → Nat
  | .delivered other bytes => if other = leaseId then bytes else 0
  | _ => 0

def discardedBytes : AckEvent → Nat
  | .discarded other bytes => if other = leaseId then bytes else 0
  | _ => 0

/-- Bytes of the lease are delivered or given up. -/
def Settles : AckEvent → Prop
  | .delivered other _ => other = leaseId
  | .discarded other _ => other = leaseId
  | _ => False

end AckEvent

/-- In a history with the latest event first: bytes are given up right after a
last attempt at them failed, and a last attempt is followed by no other. -/
def Recorded : List AckEvent → Prop
  | [] => True
  | .discarded leaseId bytes :: rest =>
    (∃ older, rest = .failed leaseId bytes :: older ∧
      .attempted leaseId bytes true ∈ older) ∧ Recorded rest
  | .attempted leaseId _ _ :: rest =>
    (∀ bytes, .attempted leaseId bytes true ∉ rest) ∧ Recorded rest
  | _ :: rest => Recorded rest

/-- A lease is open while it is the active one, and once its last attempt is
made it has nothing left to send. -/
structure AckLeaseState.Valid (lease : AckLeaseState) (active : Prop) :
    Prop where
  open_iff : lease.disposed = false ↔ active
  accepting : lease.accepting = !lease.disposed
  spent : lease.disposed = true → lease.finalAttemptAvailable = false →
    lease.pendingBytes = 0

namespace SessionAckState

variable {state : SessionAckState}

structure Registered (state : SessionAckState) : Prop where
  ids : state.leaseOrder = state.leases.map AckLeaseState.id
  sorted : state.leaseOrder.Pairwise (· < ·)
  lease : ∀ leaseId lease, state.lease? leaseId = some lease →
    lease.Valid (state.activeLeaseId = some leaseId)
  active : ∀ active, state.activeLeaseId = some active →
    active ∈ state.leaseOrder ∧ ∀ leaseId ∈ state.leaseOrder,
      leaseId ≤ active

theorem lease?_eq_find (leaseId : Nat) :
    state.lease? leaseId =
      Keyed.find AckLeaseState.id state.leases leaseId := rfl

variable {lease : AckLeaseState}

theorem id_of_lease? {leaseId : Nat}
    (h : state.lease? leaseId = some lease) : lease.id = leaseId :=
  Keyed.key_of_find h

theorem lease?_setLease (lease : AckLeaseState) (leaseId : Nat) :
    (state.setLease lease).lease? leaseId =
      if leaseId = lease.id then (state.lease? leaseId).map fun _ => lease
      else state.lease? leaseId :=
  Keyed.find_replace lease state.leases leaseId

theorem lease?_setLease_self (lease : AckLeaseState) {other : AckLeaseState}
    (h : state.lease? lease.id = some other) :
    (state.setLease lease).lease? lease.id = some lease := by
  rw [lease?_setLease, if_pos rfl, h]
  rfl

theorem lease?_setLease_ne {leaseId : Nat} (h : leaseId ≠ lease.id) :
    (state.setLease lease).lease? leaseId = state.lease? leaseId := by
  rw [lease?_setLease, if_neg h]

namespace Registered

open List

section

variable (h : state.Registered)
include h

theorem nodup :
    (state.leases.map AckLeaseState.id).Nodup := by
  rw [← h.ids]
  exact h.sorted.imp fun hlt => Nat.ne_of_lt hlt

theorem mem_order_iff {leaseId : Nat} :
    leaseId ∈ state.leaseOrder ↔
      ∃ lease, state.lease? leaseId = some lease := by
  rw [h.ids]
  exact Keyed.mem_keys_iff

theorem lease?_of_mem {lease : AckLeaseState}
    (hmem : lease ∈ state.leases) : state.lease? lease.id = some lease :=
  Keyed.find_of_mem h.nodup hmem

/-- Assigning to a lease keeps the register when the new values are valid. -/
theorem setLease (lease : AckLeaseState)
    (hvalid : lease.Valid (state.activeLeaseId = some lease.id)) :
    (state.setLease lease).Registered where
  ids := by
    rw [SessionAckState.setLease]
    exact h.ids.trans (Keyed.replace_keys lease state.leases).symm
  sorted := h.sorted
  active := h.active
  lease := by
    intro leaseId other hother
    rw [lease?_setLease] at hother
    split_ifs at hother with hsame
    · obtain ⟨-, -, rfl⟩ := Option.map_eq_some_iff.mp hother
      rw [hsame]
      exact hvalid
    · exact h.lease leaseId other hother

theorem prune_ids :
    state.pruneCompletedLeases.leaseOrder =
      (state.leases.filter fun lease => !state.completed lease).map
        AckLeaseState.id := by
  change state.leaseOrder.filter _ = _
  rw [h.ids, filter_map]
  apply congrArg
  apply filter_congr
  intro lease hmem
  simp only [Function.comp, h.lease?_of_mem hmem]

theorem prune_leases :
    state.pruneCompletedLeases.leases =
      state.leases.filter fun lease => !state.completed lease := by
  rw [pruneCompletedLeases]
  apply filter_congr
  intro lease hmem
  have hcontains : state.leaseOrder.contains lease.id = true := by
    rw [contains_iff_mem, h.ids]
    exact mem_map_of_mem hmem
  rw [hcontains, Bool.true_and]

theorem lease?_prune (leaseId : Nat) :
    state.pruneCompletedLeases.lease? leaseId =
      (state.lease? leaseId).filter fun lease => !state.completed lease := by
  rw [lease?_eq_find, h.prune_leases]
  exact Keyed.find_filter h.nodup _ leaseId

/-- A lease that is found after pruning was there before. -/
theorem lease?_of_prune {leaseId : Nat} {lease : AckLeaseState}
    (hfound : state.pruneCompletedLeases.lease? leaseId = some lease) :
    state.lease? leaseId = some lease := by
  rw [h.lease?_prune] at hfound
  exact (Option.filter_eq_some_iff.mp hfound).1

theorem prune :
    state.pruneCompletedLeases.Registered where
  ids := by rw [h.prune_ids, h.prune_leases]
  sorted := by
    have hsub : state.pruneCompletedLeases.leaseOrder.Sublist
        state.leaseOrder := filter_sublist
    exact h.sorted.sublist hsub
  lease leaseId lease hfound := h.lease leaseId lease (h.lease?_of_prune hfound)
  active := by
    intro active hactive
    obtain ⟨hmem, hnewest⟩ := h.active active hactive
    refine ⟨?_, fun leaseId hkept => hnewest leaseId (mem_filter.mp hkept).1⟩
    obtain ⟨lease, hfound⟩ := h.mem_order_iff.mp hmem
    have hopen := (h.lease active lease hfound).open_iff.mpr hactive
    apply mem_filter.mpr
    simp [hmem, hfound, completed, hopen]

end

end Registered

/-- The bytes of a lease that are still to be sent. -/
def pendingOf (leaseId : Nat) (state : SessionAckState) : Nat :=
  (state.lease? leaseId).elim 0 AckLeaseState.pendingBytes

theorem pendingOf_of_lease? {leaseId : Nat}
    (h : state.lease? leaseId = some lease) :
    state.pendingOf leaseId = lease.pendingBytes := by
  rw [pendingOf, h]
  rfl

theorem pendingOf_setLease (lease : AckLeaseState) {other : AckLeaseState}
    (h : state.lease? lease.id = some other) (leaseId : Nat) :
    (state.setLease lease).pendingOf leaseId =
      if leaseId = lease.id then lease.pendingBytes
      else state.pendingOf leaseId := by
  rw [pendingOf, lease?_setLease]
  split_ifs with hsame
  · rw [hsame, h]
    rfl
  · rfl

theorem Registered.pendingOf_prune (h : state.Registered) (leaseId : Nat) :
    state.pruneCompletedLeases.pendingOf leaseId =
      state.pendingOf leaseId := by
  rw [pendingOf, h.lease?_prune]
  cases hfound : state.lease? leaseId with
  | none => simp [pendingOf, hfound]
  | some lease =>
    by_cases hcompleted : state.completed lease = true
    · have hnone : lease.pendingBytes = 0 := by
        simp only [completed, Bool.and_eq_true, beq_iff_eq] at hcompleted
        exact hcompleted.1.1.2
      rw [Option.filter_some, if_neg (by simp [hcompleted]),
        pendingOf_of_lease? hfound, hnone]
      rfl
    · rw [Option.filter_some, if_pos (by simp [hcompleted]),
        pendingOf_of_lease? hfound]
      rfl

end SessionAckState

namespace Session

open List Option

variable {s : Session}

/-- The bytes of a lease in acknowledgements that have not come back. -/
def inFlightOf (leaseId : Nat) (invokes : List AckBatch) : Nat :=
  total (fun batch => if batch.leaseId = leaseId then batch.bytes else 0)
    invokes

/-- Every accepted byte of the lease is in one of the four places. -/
def Conserved (leaseId : Nat) (s : Session) : Prop :=
  total (AckEvent.acceptedBytes leaseId) s.history =
    s.state.pendingOf leaseId + inFlightOf leaseId s.invokes +
      total (AckEvent.deliveredBytes leaseId) s.history +
      total (AckEvent.discardedBytes leaseId) s.history

/-- Nothing of the lease is left to be sent or to come back. -/
def Finished (leaseId : Nat) (s : Session) : Prop :=
  s.state.pendingOf leaseId = 0 ∧ ∀ batch ∈ s.invokes, batch.leaseId ≠ leaseId

/-- The accounts of a session. -/
structure Balanced (s : Session) : Prop where
  conserved : ∀ leaseId, s.Conserved leaseId
  ordered : ∀ event ∈ s.history, ∀ newer, event.Settles newer →
    ∀ older < newer, s.Finished older

/-- One batch is in flight or one timer is set, and the state says so. -/
structure Dispatched (s : Session) : Prop where
  invokes : s.invokes = s.state.inFlight.toList
  timers : s.timers = s.state.retryTimer.toList
  waiting : ∀ timer, s.state.retryTimer = some timer →
    s.state.activeLeaseId = some timer.leaseId ∧ s.state.inFlight = none
  flying : ∀ batch, s.state.inFlight = some batch →
    batch.leaseId ∈ s.state.leaseOrder ∧
      ∀ older < batch.leaseId, s.state.pendingOf older = 0

/-- The history tells which leases there are and which have had their last
attempt. -/
structure Remembered (s : Session) : Prop where
  known : ∀ leaseId ∈ s.state.leaseOrder, .acquired leaseId ∈ s.history
  newest : ∀ active, s.state.activeLeaseId = some active →
    ∀ event ∈ s.history, event.leaseId ≤ active
  last : ∀ leaseId bytes, .attempted leaseId bytes true ∈ s.history →
    ∀ lease, s.state.lease? leaseId = some lease →
      lease.disposed = true ∧ lease.finalAttemptAvailable = false
  lastFlight : ∀ batch lease, s.state.inFlight = some batch →
    s.state.lease? batch.leaseId = some lease → lease.disposed = true →
    lease.finalAttemptAvailable = false →
    .attempted batch.leaseId batch.bytes true ∈ s.history
  recorded : Recorded s.history

structure Sound (s : Session) : Prop where
  registered : s.state.Registered
  balanced : s.Balanced
  dispatched : s.Dispatched
  remembered : s.Remembered

/-- An event that moves no bytes out of the session keeps the order. -/
theorem ordered_cons {after : Session} {event : AckEvent}
    (hhistory : after.history = event :: s.history)
    (hsettles : ∀ newer, ¬ event.Settles newer)
    (h : ∀ event ∈ s.history, ∀ newer, event.Settles newer →
      ∀ older < newer, after.Finished older) :
    ∀ event ∈ after.history, ∀ newer, event.Settles newer →
      ∀ older < newer, after.Finished older := by
  intro other hother newer hnewer
  rw [hhistory] at hother
  rcases mem_cons.mp hother with rfl | hold
  · exact absurd hnewer (hsettles newer)
  · exact h other hold newer hnewer

theorem prune_sound (h : s.Sound) : s.prune.Sound where
  registered := h.registered.prune
  balanced := by
    constructor
    · intro leaseId
      unfold Conserved
      change _ = s.state.pruneCompletedLeases.pendingOf leaseId + _ + _ + _
      rw [h.registered.pendingOf_prune]
      exact h.balanced.conserved leaseId
    · intro event hevent newer hnewer older hlt
      obtain ⟨hpending, hinvokes⟩ :=
        h.balanced.ordered event hevent newer hnewer older hlt
      exact ⟨(h.registered.pendingOf_prune older).trans hpending, hinvokes⟩
  dispatched := by
    refine ⟨h.dispatched.invokes, h.dispatched.timers, h.dispatched.waiting,
      fun batch hbatch => ?_⟩
    obtain ⟨hmem, holder⟩ := h.dispatched.flying batch hbatch
    constructor
    · apply mem_filter.mpr
      obtain ⟨lease, hfound⟩ := h.registered.mem_order_iff.mp hmem
      have hbusy : s.state.inFlight = some batch := hbatch
      have hid := SessionAckState.id_of_lease? hfound
      refine ⟨hmem, ?_⟩
      simp [hfound, SessionAckState.completed, hbusy, hid]
    · intro older hlt
      exact (h.registered.pendingOf_prune older).trans (holder older hlt)
  remembered := by
    refine ⟨fun leaseId hmem => ?_, h.remembered.newest, ?_, ?_,
      h.remembered.recorded⟩
    · exact h.remembered.known leaseId (mem_filter.mp hmem).1
    · intro leaseId bytes hlast lease hfound
      exact h.remembered.last leaseId bytes hlast lease
        (h.registered.lease?_of_prune hfound)
    · intro batch lease hbatch hfound
      exact h.remembered.lastFlight batch lease hbatch
        (h.registered.lease?_of_prune hfound)

variable {lease : AckLeaseState}

/-- A lease that has bytes to send is the oldest that matters: nothing of a
newer one was delivered or given up. -/
theorem Sound.not_settled (h : s.Sound)
    (hfound : s.state.lease? lease.id = some lease)
    (hpending : lease.pendingBytes ≠ 0) {event : AckEvent}
    (hevent : event ∈ s.history) {newer : Nat} (hnewer : event.Settles newer)
    {older : Nat} (hlt : older < newer) : older ≠ lease.id := by
  rintro rfl
  obtain ⟨hnone, -⟩ := h.balanced.ordered event hevent newer hnewer _ hlt
  rw [SessionAckState.pendingOf_of_lease? hfound] at hnone
  exact hpending hnone

/-- A lease whose last attempt was made has nothing to send. -/
theorem Sound.not_last (h : s.Sound)
    (hfound : s.state.lease? lease.id = some lease)
    (havailable : lease.disposed = true → lease.finalAttemptAvailable = true)
    (bytes : Nat) : .attempted lease.id bytes true ∉ s.history := by
  intro hlast
  obtain ⟨hdisposed, hspent⟩ := h.remembered.last _ _ hlast lease hfound
  exact absurd ((havailable hdisposed).symm.trans hspent) (by simp)

theorem attempt_lease? {leaseId : Nat} (hne : leaseId ≠ lease.id) :
    (s.attempt lease).state.lease? leaseId = s.state.lease? leaseId :=
  SessionAckState.lease?_setLease_ne hne

theorem attempt_pendingOf
    (hfound : s.state.lease? lease.id = some lease) (leaseId : Nat) :
    (s.attempt lease).state.pendingOf leaseId =
      if leaseId = lease.id then 0 else s.state.pendingOf leaseId :=
  SessionAckState.pendingOf_setLease lease.sent hfound leaseId

theorem attempt_registered (h : s.Sound)
    (hfound : s.state.lease? lease.id = some lease) :
    (s.attempt lease).state.Registered := by
  obtain ⟨hopen, haccepting, -⟩ := h.registered.lease _ _ hfound
  have hsent := h.registered.setLease lease.sent
    ⟨hopen, haccepting, fun _ _ => rfl⟩
  exact ⟨hsent.ids, hsent.sorted, hsent.lease, hsent.active⟩

theorem attempt_balanced (h : s.Sound) (hflight : s.state.inFlight = none)
    (hfound : s.state.lease? lease.id = some lease)
    (hpending : lease.pendingBytes ≠ 0) : (s.attempt lease).Balanced := by
  have hinvokes : s.invokes = [] := by
    rw [h.dispatched.invokes, hflight]
    rfl
  constructor
  · intro leaseId
    have hconserved := h.balanced.conserved leaseId
    unfold Conserved at hconserved ⊢
    rw [attempt_pendingOf hfound]
    simp only [attempt, hinvokes, nil_append, total, inFlightOf,
      AckEvent.acceptedBytes, AckEvent.deliveredBytes,
      AckEvent.discardedBytes] at hconserved ⊢
    by_cases hsame : leaseId = lease.id
    · rw [hsame, SessionAckState.pendingOf_of_lease? hfound] at hconserved
      simp only [hsame, ↓reduceIte]
      omega
    · simp only [hsame, ↓reduceIte, if_neg (Ne.symm hsame)]
      omega
  · apply ordered_cons rfl
    · exact fun newer hnewer => hnewer
    · intro event hevent newer hnewer older hlt
      have hother := h.not_settled hfound hpending hevent hnewer hlt
      obtain ⟨hnone, -⟩ :=
        h.balanced.ordered event hevent newer hnewer older hlt
      refine ⟨?_, fun batch hbatch => ?_⟩
      · rw [attempt_pendingOf hfound, if_neg hother, hnone]
      · change batch ∈ s.invokes ++ _ at hbatch
        rw [hinvokes] at hbatch
        rw [mem_singleton.mp hbatch]
        exact hother.symm

theorem attempt_remembered (h : s.Sound)
    (hfound : s.state.lease? lease.id = some lease)
    (havailable : lease.disposed = true → lease.finalAttemptAvailable = true) :
    (s.attempt lease).Remembered := by
  have hsent : (s.attempt lease).state.lease? lease.id = some lease.sent :=
    SessionAckState.lease?_setLease_self lease.sent hfound
  constructor
  · intro leaseId hmem
    exact mem_cons_of_mem _ (h.remembered.known leaseId hmem)
  · intro active hactive event hevent
    rcases mem_cons.mp hevent with rfl | hold
    · exact (h.registered.active active hactive).2 _
        (h.registered.mem_order_iff.mpr ⟨lease, hfound⟩)
    · exact h.remembered.newest active hactive event hold
  · intro leaseId bytes hlast other hother
    rcases mem_cons.mp hlast with hnew | hold
    · rw [AckEvent.attempted.injEq] at hnew
      obtain ⟨rfl, -, hdisposed⟩ := hnew
      rw [hsent, some.injEq] at hother
      rw [← hother]
      exact ⟨hdisposed.symm, if_pos hdisposed.symm⟩
    · have hne : leaseId ≠ lease.id := by
        rintro rfl
        exact h.not_last hfound havailable bytes hold
      rw [attempt_lease? hne] at hother
      exact h.remembered.last leaseId bytes hold other hother
  · intro batch other hbatch hother hdisposed hspent
    rw [← some.inj hbatch, hsent, some.injEq] at hother
    rw [← hother] at hdisposed
    rw [← some.inj hbatch]
    change lease.disposed = true at hdisposed
    simp [attempt, hdisposed]
  · exact ⟨fun bytes => h.not_last hfound havailable bytes,
      h.remembered.recorded⟩

theorem attempt_sound (h : s.Sound) (hflight : s.state.inFlight = none)
    (htimer : s.state.retryTimer = none)
    (hfound : s.state.lease? lease.id = some lease)
    (hpending : lease.pendingBytes ≠ 0)
    (havailable : lease.disposed = true → lease.finalAttemptAvailable = true)
    (holder : ∀ older < lease.id, s.state.pendingOf older = 0) :
    (s.attempt lease).Sound where
  registered := attempt_registered h hfound
  balanced := attempt_balanced h hflight hfound hpending
  dispatched := by
    refine ⟨?_, h.dispatched.timers, fun timer hset => ?_,
      fun batch hbatch => ?_⟩
    · change s.invokes ++ _ = _
      rw [h.dispatched.invokes, hflight]
      rfl
    · exact absurd (htimer.symm.trans hset) (by simp)
    · rw [← some.inj hbatch]
      refine ⟨h.registered.mem_order_iff.mpr ⟨lease, hfound⟩,
        fun older hlt => ?_⟩
      rw [attempt_pendingOf hfound, if_neg (Nat.ne_of_lt hlt)]
      exact holder older hlt
  remembered := attempt_remembered h hfound havailable

/-- The loop of `pump` sends the first lease with anything to send, or finds
none. -/
def Picks (s : Session) (order : List Nat) (result : Session × Bool) : Prop :=
  (result = (s, true) ∧ ∀ leaseId ∈ order, s.state.pendingOf leaseId = 0) ∨
    ∃ before lease after, order = before ++ lease.id :: after ∧
      (∀ leaseId ∈ before, s.state.pendingOf leaseId = 0) ∧
      s.state.lease? lease.id = some lease ∧ lease.pendingBytes ≠ 0 ∧
      (lease.disposed = true → lease.finalAttemptAvailable = true) ∧
      result = (s.attempt lease, false)

theorem Picks.cons {leaseId : Nat} {order : List Nat}
    {result : Session × Bool} (h : s.Picks order result)
    (hnone : s.state.pendingOf leaseId = 0) :
    s.Picks (leaseId :: order) result := by
  rcases h with ⟨hend, hall⟩ | ⟨before, lease, after, horder, hbefore, hrest⟩
  · refine .inl ⟨hend, fun other hmem => ?_⟩
    rcases mem_cons.mp hmem with rfl | hmem
    · exact hnone
    · exact hall other hmem
  · refine .inr ⟨leaseId :: before, lease, after, ?_, ?_, hrest⟩
    · rw [horder, cons_append]
    · intro other hmem
      rcases mem_cons.mp hmem with rfl | hmem
      · exact hnone
      · exact hbefore other hmem

theorem pumpLoop_picks (h : s.Sound) (order : List Nat) :
    s.Picks order (pumpLoop order s) := by
  induction order with
  | nil => exact .inl ⟨rfl, fun _ hmem => absurd hmem not_mem_nil⟩
  | cons leaseId rest ih =>
    cases hfound : s.state.lease? leaseId with
    | none =>
      rw [pumpLoop, hfound]
      apply ih.cons
      rw [SessionAckState.pendingOf, hfound]
      rfl
    | some lease =>
      have hid := SessionAckState.id_of_lease? hfound
      by_cases hpending : lease.pendingBytes = 0
      · simp only [pumpLoop, hfound, hpending, ↓reduceIte]
        apply ih.cons
        rw [SessionAckState.pendingOf_of_lease? hfound, hpending]
      · have hvalid := h.registered.lease leaseId lease hfound
        have havailable : lease.disposed = true →
            lease.finalAttemptAvailable = true := by
          intro hdisposed
          by_contra hspent
          exact hpending (hvalid.spent hdisposed (Bool.of_not_eq_true hspent))
        have hcondition : ¬ (lease.disposed &&
            !lease.finalAttemptAvailable) = true := by
          intro hboth
          rw [Bool.and_eq_true, Bool.not_eq_true'] at hboth
          exact absurd ((havailable hboth.1).symm.trans hboth.2) (by simp)
        simp only [pumpLoop, hfound, hpending, hcondition, ↓reduceIte]
        exact .inr ⟨[], lease, rest, by rw [hid, nil_append],
          fun _ hmem => absurd hmem not_mem_nil, hid ▸ hfound,
          hpending, havailable, rfl⟩

/-- After `pump` nothing is left to send, or something is in flight or waits
for its timer. -/
theorem pump_sound (h : s.Sound) : s.pump.1.Sound := by
  unfold pump
  split_ifs with hbusy
  · exact h
  · rw [Bool.or_eq_true, not_or, Bool.not_eq_true, Bool.not_eq_true,
      isSome_eq_false_iff, isSome_eq_false_iff,
      isNone_iff_eq_none, isNone_iff_eq_none] at hbusy
    obtain ⟨hflight, htimer⟩ := hbusy
    have hpruned := prune_sound h
    have hpicks := pumpLoop_picks hpruned s.prune.state.leaseOrder
    simp only
    rcases hpicks with ⟨hend, -⟩ | ⟨before, lease, after, horder, hbefore,
      hfound, hpending, havailable, hattempt⟩
    · rw [hend]
      exact prune_sound hpruned
    · rw [hattempt]
      refine attempt_sound hpruned hflight htimer hfound hpending havailable ?_
      intro older hlt
      by_cases hmem : older ∈ s.prune.state.leaseOrder
      · have hsorted := hpruned.registered.sorted
        rw [horder, pairwise_append] at hsorted
        rw [horder, mem_append, mem_cons] at hmem
        rcases hmem with hmem | rfl | hmem
        · exact hbefore older hmem
        · exact absurd hlt (Nat.lt_irrefl _)
        · have hgt := (pairwise_cons.mp hsorted.2.1).1 older hmem
          exact absurd hlt (Nat.not_lt_of_gt hgt)
      · have hnone : s.prune.state.lease? older = none := by
          by_contra hsome
          exact hmem (hpruned.registered.mem_order_iff.mpr
            (ne_none_iff_exists'.mp hsome))
        rw [SessionAckState.pendingOf, hnone]
        rfl

end Session

end NiceTerm.Ack
