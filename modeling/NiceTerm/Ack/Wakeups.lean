/-
Pending bytes do not wait for nothing.  Whatever the order of the callbacks, a
session with bytes to acknowledge has a promise or a timer that will send them,
and it leaves the map with nothing left.
-/
import NiceTerm.Ack.Conservation

namespace NiceTerm.Ack

open SessionAckState Transition

namespace Session

variable {s : Session}

/-- Without a batch in flight and a timer there is nothing to send. -/
def Awake (s : Session) : Prop :=
  s.state.inFlight = none → s.state.retryTimer = none →
    ∀ leaseId, s.state.pendingOf leaseId = 0

/-- A session that `pump` has looked at is awake. -/
theorem pump_awake (h : s.Sound) : s.pump.1.Awake := by
  unfold pump
  split_ifs with hbusy
  · intro hflight htimer
    rw [hflight, htimer] at hbusy
    exact absurd hbusy (by simp)
  · have hpruned := prune_sound h
    have hpicks := pumpLoop_picks hpruned s.prune.state.leaseOrder
    simp only
    rcases hpicks with ⟨hend, hall⟩ | ⟨-, lease, -, -, -, -, -, -, hattempt⟩
    · rw [hend]
      intro _ _ leaseId
      change s.prune.state.pruneCompletedLeases.pendingOf leaseId = 0
      rw [hpruned.registered.pendingOf_prune]
      by_cases hmem : leaseId ∈ s.prune.state.leaseOrder
      · exact hall leaseId hmem
      · have hnone : s.prune.state.lease? leaseId = none := by
          by_contra hsome
          exact hmem (hpruned.registered.mem_order_iff.mpr
            (Option.ne_none_iff_exists'.mp hsome))
        rw [pendingOf, hnone]
        rfl
    · rw [hattempt]
      intro hflight
      exact absurd hflight (Option.some_ne_none _)

/-- Who will send the bytes: a promise that has not settled, or a timer. -/
theorem Awake.sender (h : s.Awake) (hsound : s.Sound) {lease : AckLeaseState}
    (hmem : lease ∈ s.state.leases) (hpending : 0 < lease.pendingBytes) :
    (∃ batch, s.state.inFlight = some batch ∧ batch ∈ s.invokes) ∨
      ∃ timer, s.state.retryTimer = some timer ∧ timer ∈ s.timers := by
  have hdispatched := hsound.dispatched
  cases hflight : s.state.inFlight with
  | some batch =>
    refine .inl ⟨batch, rfl, ?_⟩
    rw [hdispatched.invokes, hflight]
    exact List.mem_singleton_self batch
  | none =>
    cases htimer : s.state.retryTimer with
    | some timer =>
      refine .inr ⟨timer, rfl, ?_⟩
      rw [hdispatched.timers, htimer]
      exact List.mem_singleton_self timer
    | none =>
      have hzero := h hflight htimer lease.id
      rw [pendingOf_of_lease? (hsound.registered.lease?_of_mem hmem)] at hzero
      exact absurd hzero (Nat.pos_iff_ne_zero.mp hpending)

theorem Sound.timer_active (h : s.Sound) {timer : RetryTimer}
    (htimer : s.state.retryTimer = some timer) :
    ∃ lease ∈ s.state.leases, lease.id = timer.leaseId ∧
      s.state.activeLeaseId = some lease.id ∧ lease.disposed = false := by
  obtain ⟨hactive, -⟩ := h.dispatched.waiting timer htimer
  obtain ⟨hmem, -⟩ := h.registered.active _ hactive
  obtain ⟨lease, hfound⟩ := h.registered.mem_order_iff.mp hmem
  have hid := id_of_lease? hfound
  have hvalid := h.registered.lease _ _ hfound
  refine ⟨lease, Keyed.mem_of_find hfound, hid, ?_, hvalid.open_iff.mpr hactive⟩
  rw [hid]
  exact hactive

/-- Nothing pending, nothing in flight and no lease. -/
structure Empty (s : Session) : Prop where
  leases : s.state.leases = []
  pending : ∀ leaseId, s.state.pendingOf leaseId = 0
  inFlight : s.state.inFlight = none
  invokes : s.invokes = []
  retryTimer : s.state.retryTimer = none

theorem Sound.empty_of_idle (h : s.Sound) (hidle : s.state.idle = true) :
    s.Empty := by
  have hinvokes := h.no_invokes_of_idle hidle
  have hfinished := h.finished_of_idle hidle
  simp only [idle, Bool.and_eq_true, Option.isNone_iff_eq_none,
    List.isEmpty_iff] at hidle
  obtain ⟨⟨⟨-, hleases⟩, hflight⟩, htimer⟩ := hidle
  exact ⟨hleases, fun leaseId => (hfinished leaseId).1, hflight, hinvokes,
    htimer⟩

end Session

namespace OutputAckCoordinator

variable {c next : OutputAckCoordinator}

/-- One session is replaced; the others stay. -/
theorem forall_set {Good : Session → Prop} {objects : List Session}
    {ref : Nat} {t : Session} (h : ∀ s ∈ objects, Good s) (ht : Good t) :
    ∀ s ∈ objects.set ref t, Good s := by
  intro s hs
  rcases List.mem_or_eq_of_mem_set hs with hold | rfl
  · exact h s hold
  · exact ht

theorem Moves.awake (hmoves : c.Moves next)
    (h : ∀ s ∈ c.objects, s.Awake) : ∀ s ∈ next.objects, s.Awake := by
  cases hmoves with
  | stays handles => exact h
  | pumps handles hs hbusy ht hextends =>
    rw [pump_objects]
    exact forall_set h (Session.pump_awake ht)
  | waits hs hbusy ht hextends htimer =>
    refine forall_set h fun _ hnone => ?_
    rw [hnone] at htimer
    cases htimer

variable (sessionId : String)

theorem getOrCreateSession_objects :
    (c.getOrCreateSession sessionId).2.objects = c.objects ∨
      (c.getOrCreateSession sessionId).2.objects =
        c.objects ++ [{ state := { sessionId } }] := by
  unfold getOrCreateSession
  cases c.sessions.lookup sessionId with
  | some ref => exact .inl rfl
  | none => exact .inr rfl

theorem Acquires.awake {made : OutputAckCoordinator} {ref : Nat}
    {s t : Session} (hacquires : made.Acquires next ref s t)
    (h : ∀ s ∈ made.objects, s.Awake) : ∀ s ∈ next.objects, s.Awake := by
  rw [hacquires.objects]
  exact forall_set h (Session.pump_awake hacquires.sound)

theorem made_awake (h : ∀ s ∈ c.objects, s.Awake) :
    ∀ s ∈ (c.getOrCreateSession sessionId).2.objects, s.Awake := by
  intro s hs
  rcases getOrCreateSession_objects (c := c) sessionId with hsame | hnew
  · rw [hsame] at hs
    exact h s hs
  · rw [hnew] at hs
    rcases List.mem_append.mp hs with hold | hlast
    · exact h s hold
    · rw [List.mem_singleton.mp hlast]
      exact fun _ _ _ => rfl

theorem step_awake {event : Event} (hconsistent : c.Consistent)
    (hstep : coordinatorStep c event = some next)
    (h : ∀ s ∈ c.objects, s.Awake) : ∀ s ∈ next.objects, s.Awake := by
  rcases hconsistent.step hstep with ⟨sessionId, generation, hacquire⟩ | hmoves
  · obtain ⟨-, ref, s, t, hacquires⟩ :=
      hconsistent.acquire sessionId generation hacquire
    exact hacquires.awake (made_awake sessionId h)
  · exact hmoves.awake h

theorem awake_of_reachable (h : coordinatorSystem.Reachable c) :
    c.Consistent ∧ ∀ s ∈ c.objects, s.Awake := by
  have hinit : ∀ c, coordinatorSystem.init c →
      c.Consistent ∧ ∀ s ∈ c.objects, s.Awake := by
    rintro c ⟨options, rfl⟩
    exact ⟨consistent_initial options, fun s hs => absurd hs List.not_mem_nil⟩
  exact h.invariant hinit fun c event next hc hstep =>
    ⟨coordinatorStep_consistent hc.1 hstep, step_awake hc.1 hstep hc.2⟩

/-- The state of a session stays at its place, under the same name. -/
def Persists (c next : OutputAckCoordinator) : Prop :=
  ∀ (ref : Nat) (s : Session), c.objects[ref]? = some s →
    ∃ t, next.objects[ref]? = some t ∧ t.state.sessionId = s.state.sessionId

theorem Persists.trans {middle : OutputAckCoordinator}
    (h : c.Persists middle) (h' : middle.Persists next) : c.Persists next := by
  intro ref s hs
  obtain ⟨t, ht, hsession⟩ := h ref s hs
  obtain ⟨u, hu, hsession'⟩ := h' ref t ht
  exact ⟨u, hu, hsession'.trans hsession⟩

theorem persists_set {ref : Nat} {s t : Session}
    (hs : c.objects[ref]? = some s)
    (hsession : t.state.sessionId = s.state.sessionId)
    (hnext : next.objects = c.objects.set ref t) : c.Persists next := by
  intro other u hu
  rw [hnext, List.getElem?_set]
  by_cases hsame : ref = other
  · rw [if_pos hsame, if_pos (List.getElem?_eq_some_iff.mp hs).1]
    rw [← hsame, hs, Option.some.injEq] at hu
    exact ⟨t, rfl, hu ▸ hsession⟩
  · rw [if_neg hsame]
    exact ⟨u, hu, rfl⟩

theorem Moves.persists (hmoves : c.Moves next) : c.Persists next := by
  cases hmoves with
  | stays handles => exact fun ref s hs => ⟨s, hs, rfl⟩
  | pumps handles hs hbusy ht hextends =>
    have hpumped := hextends.trans (Session.pump_extends ht)
    exact persists_set hs hpumped.sessionId pump_objects
  | waits hs hbusy ht hextends htimer =>
    exact persists_set hs hextends.sessionId rfl

theorem made_persists :
    c.Persists (c.getOrCreateSession sessionId).2 := by
  intro ref s hs
  refine ⟨s, ?_, rfl⟩
  rcases getOrCreateSession_objects (c := c) sessionId with hsame | hnew
  · rw [hsame]
    exact hs
  · rw [hnew, List.getElem?_append_left (List.getElem?_eq_some_iff.mp hs).1]
    exact hs

theorem step_persists {event : Event} (hconsistent : c.Consistent)
    (hstep : coordinatorStep c event = some next) : c.Persists next := by
  rcases hconsistent.step hstep with ⟨sessionId, generation, hacquire⟩ | hmoves
  · obtain ⟨-, ref, s, t, hacquires⟩ :=
      hconsistent.acquire sessionId generation hacquire
    have hsession := (Session.pump_extends hacquires.sound).sessionId
    exact (made_persists sessionId).trans (persists_set hacquires.found
      (hsession.trans hacquires.sessionId) hacquires.objects)
  · exact hmoves.persists

theorem Consistent.removed {event : Event} (hconsistent : c.Consistent)
    (hstep : coordinatorStep c event = some next) {sessionId : String}
    {ref : Nat} (hentry : c.sessions.lookup sessionId = some ref)
    (hgone : next.sessions.lookup sessionId ≠ some ref) :
    ∃ s, next.objects[ref]? = some s ∧ s.state.sessionId = sessionId ∧
      s.Empty := by
  obtain ⟨s, hs, rfl⟩ := hconsistent.named sessionId ref hentry
  obtain ⟨t, ht, hsession⟩ := step_persists hconsistent hstep ref s hs
  have hnext := coordinatorStep_consistent hconsistent hstep
  refine ⟨t, ht, hsession, (hnext.sound ref t ht).empty_of_idle ?_⟩
  rcases hnext.mapped ref t ht with hmapped | hidle
  · rw [hsession] at hmapped
    exact absurd hmapped hgone
  · exact hidle

/-- What keeps acknowledgements going. -/
structure NeverStalls (c : OutputAckCoordinator) : Prop where
  sender : ∀ s ∈ c.objects, ∀ lease ∈ s.state.leases, 0 < lease.pendingBytes →
    (∃ batch, s.state.inFlight = some batch ∧ batch ∈ s.invokes) ∨
      ∃ timer, s.state.retryTimer = some timer ∧ timer ∈ s.timers
  timer : ∀ s ∈ c.objects, ∀ timer, s.state.retryTimer = some timer →
    ∃ lease ∈ s.state.leases, lease.id = timer.leaseId ∧
      s.state.activeLeaseId = some lease.id ∧ lease.disposed = false
  removed : ∀ event next, coordinatorStep c event = some next →
    ∀ sessionId (ref : Nat), c.sessions.lookup sessionId = some ref →
      next.sessions.lookup sessionId ≠ some ref →
        ∃ s, next.objects[ref]? = some s ∧ s.state.sessionId = sessionId ∧
          s.Empty

/-- No order of the callbacks loses a wake-up. -/
theorem acknowledgements_never_stall (h : coordinatorSystem.Reachable c) :
    c.NeverStalls := by
  obtain ⟨hconsistent, hawake⟩ := awake_of_reachable h
  have hsound : ∀ s ∈ c.objects, s.Sound := by
    intro s hs
    obtain ⟨ref, hget⟩ := List.mem_iff_getElem?.mp hs
    exact hconsistent.sound ref s hget
  constructor
  · exact fun s hs lease hmem hpending =>
      (hawake s hs).sender (hsound s hs) hmem hpending
  · exact fun s hs timer htimer => (hsound s hs).timer_active htimer
  · exact fun event next hstep sessionId ref hentry hgone =>
      hconsistent.removed hstep hentry hgone

theorem takeover_never_stalls :
    ∃ c, coordinatorSystem.runFrom {} takeoverRun = some c ∧
      c.NeverStalls := by
  have hsome : (coordinatorSystem.runFrom {} takeoverRun).isSome = true := by
    decide +kernel
  obtain ⟨c, hrun⟩ := Option.isSome_iff_exists.mp hsome
  exact ⟨c, hrun, acknowledgements_never_stall
    ⟨{}, takeoverRun, ⟨{}, rfl⟩, hrun⟩⟩

end OutputAckCoordinator

end NiceTerm.Ack
