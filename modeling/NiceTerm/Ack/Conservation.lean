/-
Every acknowledged byte of every run: what a coordinator accepts is pending,
in flight, delivered, or given up after the last attempt of its lease; one
acknowledgement of a session is in flight at a time, and leases are served in
the order in which they were acquired.
-/
import NiceTerm.Ack.Callbacks

namespace NiceTerm.Ack

open List Option SessionAckState Transition
open Drain (total total_append)

theorem Recorded.tail {event : AckEvent} {rest : List AckEvent}
    (h : Recorded (event :: rest)) : Recorded rest := by
  cases event with
  | discarded leaseId bytes => exact h.2
  | attempted leaseId bytes last => exact h.2
  | _ => exact h

theorem Recorded.drop {newer older : List AckEvent}
    (h : Recorded (newer ++ older)) : Recorded older := by
  induction newer with
  | nil => exact h
  | cons event rest ih => exact ih h.tail

/-- Bytes are given up when the last attempt at them has failed, and nothing
of their lease is attempted afterwards. -/
theorem Recorded.discarded {newer older : List AckEvent} {leaseId bytes : Nat}
    (h : Recorded (newer ++ .discarded leaseId bytes :: older)) :
    (∃ before, older = .failed leaseId bytes :: before ∧
        .attempted leaseId bytes true ∈ before) ∧
      ∀ count last, .attempted leaseId count last ∉ newer := by
  obtain ⟨before, rfl, hattempt⟩ := h.drop.1
  refine ⟨⟨before, rfl, hattempt⟩, fun count last hmem => ?_⟩
  obtain ⟨first, second, rfl⟩ := append_of_mem hmem
  rw [append_assoc] at h
  apply h.drop.1 bytes
  exact mem_append_right _ (mem_cons_of_mem _ (mem_cons_of_mem _ hattempt))

namespace Session

variable {s : Session}

/-- A session that goes on: the same session, with events of leases it has. -/
structure Extends (s next : Session) : Prop where
  sessionId : next.state.sessionId = s.state.sessionId
  known : ∀ event ∈ next.history,
    ∃ old ∈ s.history, old.leaseId = event.leaseId

theorem Extends.trans {first second third : Session}
    (h : first.Extends second) (h' : second.Extends third) :
    first.Extends third := by
  refine ⟨h'.sessionId.trans h.sessionId, fun event hevent => ?_⟩
  obtain ⟨middle, hmiddle, hsame⟩ := h'.known event hevent
  obtain ⟨old, hold, hid⟩ := h.known middle hmiddle
  exact ⟨old, hold, hid.trans hsame⟩

theorem extends_of_history {next : Session}
    (hsession : next.state.sessionId = s.state.sessionId)
    (hhistory : next.history = s.history) : s.Extends next :=
  ⟨hsession, fun event hevent => ⟨event, hhistory ▸ hevent, rfl⟩⟩

theorem extends_cons (h : s.Sound) {next : Session} (event : AckEvent)
    (hsession : next.state.sessionId = s.state.sessionId)
    (hhistory : next.history = event :: s.history)
    (hlease : event.leaseId ∈ s.state.leaseOrder) : s.Extends next := by
  refine ⟨hsession, fun other hother => ?_⟩
  rw [hhistory] at hother
  rcases mem_cons.mp hother with rfl | hold
  · exact ⟨_, h.remembered.known _ hlease, rfl⟩
  · exact ⟨other, hold, rfl⟩

theorem pump_extends (h : s.Sound) : s.Extends s.pump.1 := by
  unfold pump
  split_ifs with hbusy
  · exact extends_of_history rfl rfl
  · have hpruned := prune_sound h
    have hpicks := pumpLoop_picks hpruned s.prune.state.leaseOrder
    simp only
    rcases hpicks with ⟨hend, -⟩ | ⟨-, lease, -, -, -, hfound, -, -, hattempt⟩
    · rw [hend]
      exact extends_of_history rfl rfl
    · rw [hattempt]
      have hpruned' : s.Extends s.prune := extends_of_history rfl rfl
      exact hpruned'.trans (extends_cons hpruned _ rfl rfl
        (hpruned.registered.mem_order_iff.mpr ⟨lease, hfound⟩))

/-- With a lease, a batch or a timer the session is not idle. -/
theorem not_idle_of_lease {leaseId : Nat} {lease : AckLeaseState}
    (hfound : s.state.lease? leaseId = some lease) : s.state.idle = false := by
  have hmem := Keyed.mem_of_find hfound
  have hnonempty : s.state.leases.isEmpty = false := by
    rw [isEmpty_eq_false_iff]
    exact ne_nil_of_mem hmem
  simp [idle, hnonempty]

theorem Sound.finished_of_idle (h : s.Sound) (hidle : s.state.idle = true)
    (leaseId : Nat) : s.Finished leaseId := by
  simp only [idle, Bool.and_eq_true, isNone_iff_eq_none,
    List.isEmpty_iff] at hidle
  obtain ⟨⟨⟨-, hleases⟩, hflight⟩, -⟩ := hidle
  constructor
  · simp [pendingOf, lease?, hleases]
  · intro batch hbatch
    rw [h.dispatched.invokes, hflight] at hbatch
    exact absurd hbatch not_mem_nil

/-- A lease the session never had has nothing left either. -/
theorem Sound.finished_of_unknown (h : s.Sound) {leaseId : Nat}
    (hunknown : ∀ event ∈ s.history, event.leaseId ≠ leaseId) :
    s.Finished leaseId := by
  have hnot : leaseId ∉ s.state.leaseOrder :=
    fun hmem => hunknown _ (h.remembered.known leaseId hmem) rfl
  constructor
  · cases hfound : s.state.lease? leaseId with
    | none =>
      rw [pendingOf, hfound]
      rfl
    | some lease =>
      exact absurd (h.registered.mem_order_iff.mpr ⟨lease, hfound⟩) hnot
  · intro batch hbatch
    rw [h.dispatched.invokes, mem_toList] at hbatch
    rintro rfl
    exact hnot (h.dispatched.flying batch hbatch).1

end Session

namespace OutputAckCoordinator

variable {c : OutputAckCoordinator}

/-- The map names the latest state of each session; every other state is idle
and its leases are older. -/
structure Consistent (c : OutputAckCoordinator) : Prop where
  sound : ∀ (ref : Nat) (s : Session), c.objects[ref]? = some s → s.Sound
  fresh : ∀ (ref : Nat) (s : Session), c.objects[ref]? = some s →
    s.Fresh c.nextLeaseId
  mapped : ∀ (ref : Nat) (s : Session), c.objects[ref]? = some s →
    c.sessions.lookup s.state.sessionId = some ref ∨ s.state.idle = true
  named : ∀ sessionId (ref : Nat), c.sessions.lookup sessionId = some ref →
    ∃ s, c.objects[ref]? = some s ∧ s.state.sessionId = sessionId
  latest : ∀ (ref other : Nat) (s : Session), c.objects[other]? = some s →
    c.sessions.lookup s.state.sessionId = some ref → other ≤ ref
  ascending : ∀ (older newer : Nat) (s t : Session), older < newer →
    c.objects[older]? = some s → c.objects[newer]? = some t →
    s.state.sessionId = t.state.sessionId →
    ∀ event ∈ s.history, ∀ other ∈ t.history, event.leaseId < other.leaseId

variable {ref index : Nat} {t : Session}

theorem getElem?_put {other : Nat} {s : Session}
    (hs : c.objects[ref]? = some s) :
    (c.put ref t).objects[other]? =
      if ref = other then some t else c.objects[other]? := by
  have hlt : ref < c.objects.length := (List.getElem?_eq_some_iff.mp hs).1
  rw [put, getElem?_set]
  split_ifs with hsame
  · rfl
  · rfl

/-- The state of a session in use is replaced by a sound one, with events of
its own leases or of one newer than all. -/
theorem Consistent.put (h : c.Consistent) {s : Session}
    (hs : c.objects[ref]? = some s)
    (hmapped : c.sessions.lookup s.state.sessionId = some ref)
    (ht : t.Sound) (hfresh : t.Fresh c.nextLeaseId)
    (hsession : t.state.sessionId = s.state.sessionId)
    (hknown : ∀ event ∈ t.history,
      (∃ old ∈ s.history, old.leaseId = event.leaseId) ∨
        ∀ (other : Nat) (u : Session), c.objects[other]? = some u →
          u.Fresh event.leaseId) :
    (c.put ref t).Consistent := by
  have hcases : ∀ other u, (c.put ref t).objects[other]? = some u →
      (other = ref ∧ u = t) ∨ (other ≠ ref ∧ c.objects[other]? = some u) := by
    intro other u hu
    rw [getElem?_put hs] at hu
    split_ifs at hu with hsame
    · exact .inl ⟨hsame.symm, (some.inj hu).symm⟩
    · exact .inr ⟨Ne.symm hsame, hu⟩
  constructor
  · intro other u hu
    rcases hcases other u hu with ⟨-, rfl⟩ | ⟨-, hold⟩
    · exact ht
    · exact h.sound other u hold
  · intro other u hu
    rcases hcases other u hu with ⟨-, rfl⟩ | ⟨-, hold⟩
    · exact hfresh
    · exact h.fresh other u hold
  · intro other u hu
    rcases hcases other u hu with ⟨rfl, rfl⟩ | ⟨-, hold⟩
    · rw [hsession]
      exact .inl hmapped
    · exact h.mapped other u hold
  · intro sessionId other hlookup
    obtain ⟨u, hu, hid⟩ := h.named sessionId other hlookup
    by_cases hsame : ref = other
    · refine ⟨t, by rw [getElem?_put hs, if_pos hsame], ?_⟩
      rw [← hsame, hs, some.injEq] at hu
      rw [hsession, hu, hid]
    · exact ⟨u, by rw [getElem?_put hs, if_neg hsame, hu], hid⟩
  · intro ref' other u hu hlookup
    rcases hcases other u hu with ⟨rfl, rfl⟩ | ⟨-, hold⟩
    · rw [hsession] at hlookup
      exact h.latest ref' other s hs hlookup
    · exact h.latest ref' other u hold hlookup
  · intro older newer u v hlt hu hv hsame event hevent other hother
    rcases hcases older u hu with ⟨rfl, rfl⟩ | ⟨-, hfirst⟩
    · rcases hcases newer v hv with ⟨rfl, -⟩ | ⟨-, hsecond⟩
      · exact absurd hlt (Nat.lt_irrefl _)
      · rw [hsession] at hsame
        have hle := h.latest older newer v hsecond (hsame ▸ hmapped)
        exact absurd hlt (Nat.not_lt_of_le hle)
    · rcases hcases newer v hv with ⟨rfl, rfl⟩ | ⟨-, hsecond⟩
      · rcases hknown other hother with ⟨old, hold, hid⟩ | hnewer
        · rw [← hid]
          exact h.ascending older newer u s hlt hfirst hs
            (hsame.trans hsession) event hevent old hold
        · exact hnewer older u hfirst event hevent
      · exact h.ascending older newer u v hlt hfirst hsecond hsame event hevent
          other hother

theorem lookup_remove (entries : List (String × Nat))
    (removed sessionId : String) :
    (entries.filter fun entry => entry.1 != removed).lookup sessionId =
      if sessionId = removed then none else entries.lookup sessionId := by
  induction entries with
  | nil => simp
  | cons entry rest ih =>
    obtain ⟨name, ref⟩ := entry
    by_cases hremoved : name = removed
    · rw [filter_cons_of_neg (by simpa using hremoved), ih]
      split_ifs with hsame
      · rfl
      · have hne : (sessionId == name) = false := by
          simpa [hremoved] using hsame
        rw [lookup_cons, hne]
    · rw [filter_cons_of_pos (by simpa using hremoved),
        lookup_cons, lookup_cons, ih]
      by_cases hname : sessionId = name
      · subst hname
        simp [hremoved]
      · have hne : (sessionId == name) = false := by simpa using hname
        rw [hne]

section

variable (h : c.Consistent) {s : Session} (hs : c.objects[ref]? = some s)
include h hs

theorem Consistent.deleteSessionIfIdle :
    (c.deleteSessionIfIdle ref s).Consistent := by
  unfold OutputAckCoordinator.deleteSessionIfIdle
  split_ifs with hdelete
  · rw [Bool.and_eq_true, beq_iff_eq] at hdelete
    obtain ⟨hidle, hlookup⟩ := hdelete
    have hfilter := lookup_remove c.sessions s.state.sessionId
    refine ⟨h.sound, h.fresh, fun other u hu => ?_,
      fun sessionId other hother => ?_, fun ref' other u hu hother => ?_,
      h.ascending⟩
    · simp only [hfilter]
      by_cases hsame : u.state.sessionId = s.state.sessionId
      · rcases h.mapped other u hu with hmapped | hidle'
        · rw [hsame, hlookup, some.injEq] at hmapped
          rw [← hmapped, hs, some.injEq] at hu
          exact .inr (hu ▸ hidle)
        · exact .inr hidle'
      · rw [if_neg hsame]
        exact h.mapped other u hu
    · simp only [hfilter] at hother
      split_ifs at hother
      exact h.named sessionId other hother
    · simp only [hfilter] at hother
      split_ifs at hother
      exact h.latest ref' other u hu hother
  · exact h

theorem Consistent.mapped_of_busy (hbusy : s.state.idle = false) :
    c.sessions.lookup s.state.sessionId = some ref := by
  rcases h.mapped ref s hs with hmapped | hidle
  · exact hmapped
  · exact absurd (hidle.symm.trans hbusy) (by simp)

/-- `Consistent.put` for a session that goes on with the leases it has. -/
theorem Consistent.putNext (hbusy : s.state.idle = false)
    (ht : t.Sound) (hextends : s.Extends t) : (c.put ref t).Consistent := by
  refine h.put hs (h.mapped_of_busy hs hbusy) ht ?_ hextends.sessionId
    fun event hevent => .inl (hextends.known event hevent)
  intro event hevent
  obtain ⟨old, hold, hid⟩ := hextends.known event hevent
  rw [← hid]
  exact h.fresh ref s hs old hold

theorem Consistent.pumpNext (hbusy : s.state.idle = false)
    (ht : t.Sound) (hextends : s.Extends t) : (c.pump ref t).Consistent := by
  have hafter : (c.put ref t.pump.1).Consistent :=
    h.putNext hs hbusy (Session.pump_sound ht)
      (hextends.trans (Session.pump_extends ht))
  have hget : (c.put ref t.pump.1).objects[ref]? = some t.pump.1 := by
    rw [getElem?_put hs, if_pos rfl]
  unfold OutputAckCoordinator.pump
  simp only
  split_ifs
  · exact hafter.deleteSessionIfIdle hget
  · exact hafter

end

/-- What a callback does once a lease is open: nothing, or one session in use
goes on with its leases and is pumped, or waits for its timer. -/
inductive Moves (c : OutputAckCoordinator) : OutputAckCoordinator → Prop
  | stays (handles : List LeaseHandle) : Moves c { c with handles }
  | pumps (handles : List LeaseHandle) {ref : Nat} {s t : Session}
      (hs : c.objects[ref]? = some s) (hbusy : s.state.idle = false)
      (ht : t.Sound) (hextends : s.Extends t) :
      Moves c (OutputAckCoordinator.pump ref t { c with handles })
  | waits {ref : Nat} {s t : Session} (hs : c.objects[ref]? = some s)
      (hbusy : s.state.idle = false) (ht : t.Sound) (hextends : s.Extends t)
      (htimer : t.state.retryTimer.isSome = true) : Moves c (c.put ref t)

theorem Consistent.moves {next : OutputAckCoordinator} (h : c.Consistent)
    (hmoves : c.Moves next) : next.Consistent := by
  have hmarked : ∀ handles, Consistent { c with handles } := fun _ =>
    ⟨h.sound, h.fresh, h.mapped, h.named, h.latest, h.ascending⟩
  cases hmoves with
  | stays handles => exact hmarked handles
  | pumps handles hs hbusy ht hextends =>
    exact (hmarked handles).pumpNext hs hbusy ht hextends
  | waits hs hbusy ht hextends => exact h.putNext hs hbusy ht hextends

theorem Consistent.addAck (h : c.Consistent) {s : Session}
    (hs : c.objects[ref]? = some s) (leaseId : Nat) (bytes : Int) :
    c.Moves (c.addAck ref s leaseId bytes) := by
  unfold OutputAckCoordinator.addAck
  split_ifs
  · exact .stays c.handles
  · cases hfound : s.state.lease? leaseId with
    | none => exact .stays c.handles
    | some lease =>
      simp only
      split_ifs with hclosed
      · exact .stays c.handles
      · rw [Bool.or_eq_true, not_or, bne_iff_ne, not_not] at hclosed
        have hid := id_of_lease? hfound
        have hsound := h.sound ref s hs
        have hself : s.state.lease? lease.id = some lease := by
          rw [hid]
          exact hfound
        have hactive : s.state.activeLeaseId = some lease.id := by
          rw [hid]
          exact hclosed.2
        refine .pumps c.handles hs (Session.not_idle_of_lease hfound)
          (Session.accept_sound hsound hself hactive _) ?_
        exact Session.extends_cons hsound _ rfl rfl
          (hsound.registered.mem_order_iff.mpr ⟨lease, hself⟩)

theorem close_extends {s : Session} (h : s.Sound) {lease : AckLeaseState}
    (hactive : s.state.activeLeaseId = some lease.id) :
    s.Extends (s.close lease) := by
  rw [Session.close_eq_shut h hactive]
  exact Session.extends_of_history rfl rfl

theorem Consistent.closeLease (h : c.Consistent) {s : Session}
    (hs : c.objects[ref]? = some s) (leaseId : Nat)
    (handles : List LeaseHandle) :
    c.Moves (OutputAckCoordinator.closeLease ref s leaseId
      { c with handles }) := by
  unfold OutputAckCoordinator.closeLease
  cases hfound : s.state.lease? leaseId with
  | none => exact .stays handles
  | some lease =>
    simp only
    split_ifs with hdisposed
    · exact .stays handles
    · have hid := id_of_lease? hfound
      have hsound := h.sound ref s hs
      have hself : s.state.lease? lease.id = some lease := by
        rw [hid]
        exact hfound
      have hactive := (hsound.registered.lease _ _ hself).open_iff.mp
        (Bool.of_not_eq_true hdisposed)
      exact .pumps handles hs (Session.not_idle_of_lease hfound)
        (Session.close_sound hsound hself hactive)
        (close_extends hsound hactive)

variable {batch : AckBatch}

/-- A promise that settles is the one of the batch in flight. -/
theorem invoke_of_sound {s : Session} (h : s.Sound)
    (hget : s.invokes[index]? = some batch) :
    s.state.inFlight = some batch ∧ s.invokes.eraseIdx index = [] ∧
      s.state.idle = false := by
  have hinvokes := h.dispatched.invokes
  cases hflight : s.state.inFlight with
  | none =>
    rw [hinvokes, hflight] at hget
    exact absurd hget (by simp)
  | some other =>
    rw [hinvokes, hflight] at hget
    cases index with
    | zero =>
      refine ⟨congrArg some (some.inj hget), ?_, ?_⟩
      · rw [hinvokes, hflight]
        rfl
      · simp [idle, hflight]
    | succ index => exact absurd hget (by simp)

theorem timer_of_sound {s : Session} (h : s.Sound)
    {timer : RetryTimer} (hget : s.timers[index]? = some timer) :
    s.state.retryTimer = some timer ∧ s.timers.eraseIdx index = [] ∧
      s.state.idle = false := by
  have htimers := h.dispatched.timers
  cases hset : s.state.retryTimer with
  | none =>
    rw [htimers, hset] at hget
    exact absurd hget (by simp)
  | some other =>
    rw [htimers, hset] at hget
    cases index with
    | zero =>
      refine ⟨congrArg some (some.inj hget), ?_, ?_⟩
      · rw [htimers, hset]
        rfl
      · simp [idle, hset]
    | succ index => exact absurd hget (by simp)

theorem Consistent.invokeSucceeds (h : c.Consistent) {s : Session}
    (hs : c.objects[ref]? = some s) (hget : s.invokes[index]? = some batch) :
    c.Moves (c.completeBatch ref { s with
        invokes := s.invokes.eraseIdx index
        history := .delivered batch.leaseId batch.bytes :: s.history }
      batch.leaseId) := by
  have hsound := h.sound ref s hs
  obtain ⟨hflight, herased, hbusy⟩ := invoke_of_sound hsound hget
  rw [herased]
  have hsame : ¬ (s.state.inFlight.map AckBatch.leaseId ≠
      some batch.leaseId) := by simp [hflight]
  rw [OutputAckCoordinator.completeBatch, if_neg hsame]
  apply Moves.pumps c.handles hs hbusy (Session.complete_sound hsound hflight)
  obtain ⟨hmem, -⟩ := hsound.dispatched.flying batch hflight
  obtain ⟨lease, hfound, -, -⟩ := hsound.in_flight_lease hflight
  have hstate : lease?
      { s.state with inFlight := none } batch.leaseId = some lease := hfound
  apply Session.extends_cons hsound
    (.delivered batch.leaseId batch.bytes) _ _ hmem
  · simp only [Session.complete, Session.settled, hstate]
    rfl
  · simp only [Session.complete, Session.settled, hstate]

theorem failing_extends {s : Session} (h : s.Sound)
    (hflight : s.state.inFlight = some batch) : s.Extends (s.failing batch) :=
  Session.extends_cons h (.failed batch.leaseId batch.bytes) rfl rfl
    (h.dispatched.flying batch hflight).1

theorem failDisposed_extends {s : Session}
    (options : OutputAckCoordinatorOptions) (now : Nat) (lease : AckLeaseState) (bytes : Nat)
    (hknown : ∃ old ∈ s.history, old.leaseId = lease.id) :
    s.Extends (s.failDisposed options now lease bytes) := by
  unfold Session.failDisposed
  simp only
  split_ifs
  · obtain ⟨hsession, -, -, -, -, hhistory⟩ := Session.logFailure_state
      (s := s.setLease { lease with
        pendingBytes := lease.pendingBytes + bytes })
      options now { lease with
        pendingBytes := lease.pendingBytes + bytes } bytes 0
    exact Session.extends_of_history hsession hhistory
  · obtain ⟨hsession, -, -, -, -, hhistory⟩ := Session.logFailure_state
      (s := s.discard { lease with
        pendingBytes := lease.pendingBytes + bytes })
      options now { lease with pendingBytes := 0 } bytes 0
    refine ⟨hsession, fun event hevent => ?_⟩
    rw [hhistory] at hevent
    rcases mem_cons.mp hevent with rfl | hold
    · exact hknown
    · exact ⟨event, hold, rfl⟩

theorem failOpen_extends {s : Session} (options : OutputAckCoordinatorOptions)
    (now : Nat) (lease : AckLeaseState) (bytes : Nat) :
    s.Extends (s.failOpen options now lease bytes) := by
  obtain ⟨hsession, -, -, -, -, hhistory⟩ := Session.logFailure_state
    (s := s.setLease { lease with
      pendingBytes := lease.pendingBytes + bytes
      retryAttempt := lease.retryAttempt + 1 })
    options now { lease with
      pendingBytes := lease.pendingBytes + bytes
      retryAttempt := lease.retryAttempt + 1 } bytes
    (min options.retryMaxMs
      (options.retryBaseMs * Nat.pow 2 (min lease.retryAttempt 30)))
  exact Session.extends_of_history hsession hhistory

theorem Consistent.invokeFails (h : c.Consistent)
    {s : Session} (hs : c.objects[ref]? = some s)
    (hget : s.invokes[index]? = some batch) (now : Nat) :
    c.Moves (c.failBatch ref { s with
        invokes := s.invokes.eraseIdx index
        history := .failed batch.leaseId batch.bytes :: s.history }
      batch.leaseId batch.bytes now) := by
  have hsound := h.sound ref s hs
  obtain ⟨hflight, herased, hbusy⟩ := invoke_of_sound hsound hget
  obtain ⟨lease, hfound, hbatch, hself⟩ := hsound.in_flight_lease hflight
  have hextends := failing_extends hsound hflight
  have hsame : ¬ (s.state.inFlight.map AckBatch.leaseId ≠
      some batch.leaseId) := by simp [hflight]
  rw [herased, OutputAckCoordinator.failBatch, if_neg hsame]
  simp only
  split
  · next hnone => exact absurd (hnone.symm.trans hfound) (by simp)
  · next other hother =>
      obtain rfl := some.inj (hother.symm.trans hfound)
      split_ifs with hdisposed
      · apply Moves.pumps c.handles hs hbusy (Session.failDisposed_sound
          hsound hflight hbatch hself hdisposed c.options now)
        apply hextends.trans
        exact failDisposed_extends c.options now other batch.bytes
          ⟨_, mem_cons_self, hbatch⟩
      · refine .waits hs hbusy (Session.failOpen_sound hsound hflight
          hbatch hself (Bool.of_not_eq_true hdisposed) c.options now) ?_ rfl
        exact hextends.trans (failOpen_extends c.options now other batch.bytes)

theorem Consistent.retryTimer (h : c.Consistent)
    {s : Session} (hs : c.objects[ref]? = some s) {timer : RetryTimer}
    (hget : s.timers[index]? = some timer) :
    c.Moves (c.fireRetry ref { s with timers := s.timers.eraseIdx index }
      timer) := by
  have hsound := h.sound ref s hs
  obtain ⟨hset, herased, hbusy⟩ := timer_of_sound hsound hget
  have hsame : ¬ (s.state.retryTimer.map RetryTimer.leaseId ≠
      some timer.leaseId) := by simp [hset]
  rw [herased, OutputAckCoordinator.fireRetry, if_neg hsame]
  have hfired := Session.fireRetry_sound hsound hset
  exact .pumps c.handles hs hbusy hfired (Session.extends_of_history rfl rfl)

theorem empty_sound (sessionId : String) :
    Session.Sound { state := { sessionId } } where
  registered := by
    refine ⟨rfl, Pairwise.nil, fun _ _ hfound => ?_, fun _ hactive => ?_⟩
    · exact absurd hfound (by simp [lease?])
    · exact absurd hactive (by simp)
  balanced :=
    ⟨fun _ => rfl, fun _ hevent => absurd hevent not_mem_nil⟩
  dispatched := by
    refine ⟨rfl, rfl, fun _ hset => ?_, fun _ hflight => ?_⟩
    · exact absurd hset (by simp)
    · exact absurd hflight (by simp)
  remembered := by
    refine ⟨fun _ hmem => absurd hmem not_mem_nil,
      fun _ _ _ hevent => absurd hevent not_mem_nil,
      fun _ _ hevent => absurd hevent not_mem_nil,
      fun _ _ hflight => ?_, trivial⟩
    exact absurd hflight (by simp)

theorem Consistent.newSession (h : c.Consistent) {sessionId : String}
    (hlookup : c.sessions.lookup sessionId = none) :
    Consistent { c with
      sessions := (sessionId, c.objects.length) :: c.sessions
      objects := c.objects ++ [{ state := { sessionId } }] } := by
  have hcases : ∀ (other : Nat) (u : Session),
      (c.objects ++ [{ state := { sessionId } }])[other]? = some u →
      c.objects[other]? = some u ∨
        (other = c.objects.length ∧ u = { state := { sessionId } }) := by
    intro other u hu
    rcases Nat.lt_trichotomy other c.objects.length with hlt | heq | hgt
    · rw [getElem?_append_left hlt] at hu
      exact .inl hu
    · rw [heq, getElem?_concat_length, some.injEq] at hu
      exact .inr ⟨heq, hu.symm⟩
    · rw [getElem?_eq_none (by simp; omega)] at hu
      exact absurd hu (by simp)
  have hin : ∀ (other : Nat) (u : Session), c.objects[other]? = some u →
      other < c.objects.length :=
    fun other u hu => (List.getElem?_eq_some_iff.mp hu).1
  constructor
  · intro other u hu
    rcases hcases other u hu with hold | ⟨-, rfl⟩
    · exact h.sound other u hold
    · exact empty_sound sessionId
  · intro other u hu
    rcases hcases other u hu with hold | ⟨-, rfl⟩
    · exact h.fresh other u hold
    · exact fun event hevent => absurd hevent not_mem_nil
  · intro other u hu
    rcases hcases other u hu with hold | ⟨rfl, rfl⟩
    · rcases h.mapped other u hold with hmapped | hidle
      · have hne : u.state.sessionId ≠ sessionId := by
          intro hsame
          rw [hsame, hlookup] at hmapped
          exact absurd hmapped (by simp)
        rw [lookup_cons, beq_false_of_ne hne]
        exact .inl hmapped
      · exact .inr hidle
    · exact .inr rfl
  · intro name other hother
    rw [lookup_cons] at hother
    by_cases hname : name = sessionId
    · rw [hname, beq_self_eq_true] at hother
      rw [← some.inj hother, hname]
      exact ⟨_, getElem?_concat_length, rfl⟩
    · rw [beq_false_of_ne hname] at hother
      obtain ⟨u, hu, hid⟩ := h.named name other hother
      exact ⟨u, by rw [getElem?_append_left (hin other u hu), hu], hid⟩
  · intro ref other u hu hother
    rw [lookup_cons] at hother
    by_cases hname : u.state.sessionId = sessionId
    · rw [hname, beq_self_eq_true] at hother
      rw [← some.inj hother]
      rcases hcases other u hu with hold | ⟨heq, -⟩
      · exact Nat.le_of_lt (hin other u hold)
      · exact Nat.le_of_eq heq
    · rw [beq_false_of_ne hname] at hother
      rcases hcases other u hu with hold | ⟨-, rfl⟩
      · exact h.latest ref other u hold hother
      · exact absurd rfl hname
  · intro older newer u v hlt hu hv hsame event hevent other hother
    rcases hcases newer v hv with hsecond | ⟨-, rfl⟩
    · rcases hcases older u hu with hfirst | ⟨-, rfl⟩
      · exact h.ascending older newer u v hlt hfirst hsecond hsame event hevent
          other hother
      · exact absurd hevent not_mem_nil
    · exact absurd hother not_mem_nil

/-- The state `acquire` works on: it is in the map and in the heap. -/
theorem Consistent.getOrCreateSession (h : c.Consistent) (sessionId : String) :
    (c.getOrCreateSession sessionId).2.Consistent ∧
      ∃ s, (c.getOrCreateSession sessionId).2.objects[
          (c.getOrCreateSession sessionId).1]? = some s ∧
        s.state.sessionId = sessionId ∧
        (c.getOrCreateSession sessionId).2.sessions.lookup sessionId =
          some (c.getOrCreateSession sessionId).1 := by
  unfold OutputAckCoordinator.getOrCreateSession
  cases hlookup : c.sessions.lookup sessionId with
  | some ref =>
    obtain ⟨s, hs, hid⟩ := h.named sessionId ref hlookup
    exact ⟨h, s, hs, hid, hlookup⟩
  | none =>
    refine ⟨?_, { state := { sessionId } }, ?_, rfl, by simp⟩
    · exact h.newSession hlookup
    · exact getElem?_concat_length

theorem Consistent.nextLease (h : c.Consistent) (handles : List LeaseHandle) :
    Consistent { c with nextLeaseId := c.nextLeaseId + 1, handles } where
  sound := h.sound
  fresh ref s hs event hevent :=
    Nat.lt_succ_of_lt (h.fresh ref s hs event hevent)
  mapped := h.mapped
  named := h.named
  latest := h.latest
  ascending := h.ascending

theorem put_put {first second : Session} :
    (c.put ref first).put ref second = c.put ref second := by
  simp [put, set_set]

theorem pump_put {first second : Session} :
    (c.put ref first).pump ref second = c.pump ref second := by
  simp only [pump, put_put]

theorem pump_objects :
    (c.pump ref t).objects = c.objects.set ref t.pump.1 := by
  unfold pump deleteSessionIfIdle
  simp only
  split_ifs
  · rfl
  · rfl
  · rfl

theorem Consistent.pumpNew (h : c.Consistent) {s : Session}
    (hs : c.objects[ref]? = some s)
    (hmapped : c.sessions.lookup s.state.sessionId = some ref)
    (ht : t.Sound) (hsession : t.state.sessionId = s.state.sessionId)
    (hknown : ∀ event ∈ t.history,
      (∃ old ∈ s.history, old.leaseId = event.leaseId) ∨
        event.leaseId = c.nextLeaseId) (handles : List LeaseHandle) :
    (OutputAckCoordinator.pump ref t
      { c with nextLeaseId := c.nextLeaseId + 1, handles }).Consistent := by
  have hafter := h.nextLease handles
  have hextends := Session.pump_extends ht
  have hids : ∀ event ∈ t.pump.1.history,
      (∃ old ∈ s.history, old.leaseId = event.leaseId) ∨
        event.leaseId = c.nextLeaseId := by
    intro event hevent
    obtain ⟨middle, hmiddle, hsame⟩ := hextends.known event hevent
    rw [← hsame]
    exact hknown middle hmiddle
  have hput := hafter.put hs hmapped (Session.pump_sound ht)
    (t := t.pump.1) (by
      intro event hevent
      rcases hids event hevent with ⟨old, hold, hsame⟩ | hnew
      · rw [← hsame]
        exact hafter.fresh ref s hs old hold
      · rw [hnew]
        exact Nat.lt_succ_self _)
    (hextends.sessionId.trans hsession) (by
      intro event hevent
      rcases hids event hevent with hold | hnew
      · exact .inl hold
      · rw [hnew]
        exact .inr h.fresh)
  have hget : (OutputAckCoordinator.put ref t.pump.1
      { c with nextLeaseId := c.nextLeaseId + 1, handles }).objects[ref]? =
        some t.pump.1 :=
    List.getElem?_set_self (List.getElem?_eq_some_iff.mp hs).1
  unfold OutputAckCoordinator.pump
  simp only
  split_ifs
  · exact hput.deleteSessionIfIdle hget
  · exact hput

theorem pump_active {s : Session} (h : s.Sound) :
    s.pump.1.state.activeLeaseId = s.state.activeLeaseId := by
  unfold Session.pump
  split_ifs with hbusy
  · rfl
  · have hpicks := Session.pumpLoop_picks (Session.prune_sound h)
      s.prune.state.leaseOrder
    simp only
    rcases hpicks with ⟨hend, -⟩ | ⟨-, lease, -, -, -, -, -, -, hattempt⟩
    · rw [hend]
      rfl
    · rw [hattempt]
      rfl

theorem addLease_known {s : Session} {leaseId generation : Nat} :
    ∀ event ∈ (s.addLease leaseId generation).history,
      (∃ old ∈ s.history, old.leaseId = event.leaseId) ∨
        event.leaseId = leaseId := by
  intro event hevent
  rcases mem_cons.mp hevent with rfl | hold
  · exact .inr rfl
  · exact .inl ⟨event, hold, rfl⟩

theorem Consistent.openLease (h : c.Consistent) {s : Session}
    (hs : c.objects[ref]? = some s)
    (hmapped : c.sessions.lookup s.state.sessionId = some ref)
    (generation : Nat)
    (ht : (c.openLease ref s generation).objects[ref]? = some t) :
    ((c.openLease ref s generation).pump ref t).Consistent ∧ t.Sound ∧
      t.state.sessionId = s.state.sessionId := by
  have hsound := h.sound ref s hs
  have hfresh := h.fresh ref s hs
  have hlt : ref < c.objects.length := (List.getElem?_eq_some_iff.mp hs).1
  unfold OutputAckCoordinator.openLease at ht ⊢
  cases hactive : s.state.activeLeaseId with
  | none =>
    rw [hactive] at ht
    simp only at ht ⊢
    have hget : t = s.addLease c.nextLeaseId generation := by
      rw [OutputAckCoordinator.put, getElem?_set_self hlt, some.injEq] at ht
      exact ht.symm
    have hopened :=
      Session.addLease_sound hsound hactive hfresh generation
    rw [hget, pump_put]
    exact ⟨h.pumpNew hs hmapped hopened rfl addLease_known _, hopened, rfl⟩
  | some previous =>
    rw [hactive] at ht
    simp only at ht ⊢
    obtain ⟨hmem, -⟩ := hsound.registered.active previous hactive
    obtain ⟨lease, hfound⟩ := hsound.registered.mem_order_iff.mp hmem
    obtain rfl := id_of_lease? hfound
    have hopen : ¬ lease.disposed = true := by
      have hvalid := hsound.registered.lease _ _ hfound
      simp [hvalid.open_iff.mpr hactive]
    have hne : lease.id ≠ c.nextLeaseId :=
      Nat.ne_of_lt (hsound.fresh_order hfresh hmem)
    have hadded : (s.addLease c.nextLeaseId generation).state.lease?
        lease.id = some lease := by
      rw [Session.addLease_lease? generation _ hne, hfound]
    have hclosed := Session.close_sound hsound hfound hactive
    have hsame := close_extends hsound hactive
    have hfresh' : (s.close lease).Fresh c.nextLeaseId := by
      intro event hevent
      obtain ⟨old, hold, hid⟩ := hsame.known event hevent
      rw [← hid]
      exact hfresh old hold
    have hnone : (s.close lease).state.activeLeaseId = none := by
      rw [Session.close_eq_shut hsound hactive]
      rfl
    have hreopened := Session.addLease_sound hclosed hnone hfresh' generation
    have hclose := Session.close_addLease (Ne.symm hne) hactive generation
    unfold OutputAckCoordinator.closeLease at ht ⊢
    simp only [hadded, hopen, Bool.false_eq_true, ↓reduceIte, hclose,
      pump_put] at ht ⊢
    have hafter := h.pumpNew hs hmapped hreopened hsame.sessionId (by
      intro event hevent
      rcases addLease_known event hevent with ⟨old, hold, hid⟩ | hnew
      · obtain ⟨first, hfirst, hid'⟩ := hsame.known old hold
        exact .inl ⟨first, hfirst, hid'.trans hid⟩
      · exact .inr hnew)
      (c.handles ++ [LeaseHandle.mk ref c.nextLeaseId false])
    have hget := ht
    rw [pump_objects, getElem?_set_self hlt, some.injEq] at hget
    have hbusy : t.state.idle = false := by
      have hsome := pump_active hreopened
      rw [hget] at hsome
      simp [idle, hsome, Session.addLease]
    have hsession : t.state.sessionId = s.state.sessionId := by
      rw [← hget]
      exact (Session.pump_extends hreopened).sessionId.trans hsame.sessionId
    exact ⟨hafter.pumpNext ht hbusy (hafter.sound ref t ht)
      (Session.extends_of_history rfl rfl), hafter.sound ref t ht, hsession⟩

theorem openLease_objects {s : Session} (generation : Nat) :
    ∃ u, (c.openLease ref s generation).objects = c.objects.set ref u := by
  unfold OutputAckCoordinator.openLease OutputAckCoordinator.closeLease
  simp only
  cases s.state.activeLeaseId with
  | none => exact ⟨_, rfl⟩
  | some previous =>
    simp only
    split
    · exact ⟨_, rfl⟩
    · split_ifs
      · exact ⟨_, rfl⟩
      · rw [pump_put, pump_objects]
        exact ⟨_, rfl⟩

/-- Opening a lease changes one session, and pumps it last. -/
structure Acquires (c next : OutputAckCoordinator) (ref : Nat)
    (s t : Session) : Prop where
  found : c.objects[ref]? = some s
  sound : t.Sound
  sessionId : t.state.sessionId = s.state.sessionId
  objects : next.objects = c.objects.set ref t.pump.1

theorem Consistent.acquire (h : c.Consistent) (sessionId : String)
    (generation : Nat) {next : OutputAckCoordinator}
    (hstep : c.acquire sessionId generation = some next) :
    next.Consistent ∧ ∃ ref s t,
      (c.getOrCreateSession sessionId).2.Acquires next ref s t := by
  obtain ⟨hmade, s, hs, rfl, hlookup⟩ := h.getOrCreateSession sessionId
  simp only [OutputAckCoordinator.acquire, hs, bind_eq_bind,
    bind_some, bind_eq_some_iff, some.injEq] at hstep
  obtain ⟨t, ht, rfl⟩ := hstep
  obtain ⟨hnext, hsound, hsession⟩ := hmade.openLease hs hlookup generation ht
  refine ⟨hnext, _, s, t, hs, hsound, hsession, ?_⟩
  obtain ⟨u, hobjects⟩ := openLease_objects (s := s) generation
  rw [pump_objects, hobjects, set_set]

/-- The promises of a session's acknowledgements that have not settled. -/
def invokesOf (sessionId : String) (c : OutputAckCoordinator) : List AckBatch :=
  (c.objects.filter fun s => s.state.sessionId == sessionId).flatMap
    Session.invokes

end OutputAckCoordinator

open OutputAckCoordinator

/-- A callback either opens a lease or moves one session. -/
theorem OutputAckCoordinator.Consistent.step {c next : OutputAckCoordinator}
    {event : Event} (h : c.Consistent)
    (hstep : coordinatorStep c event = some next) :
    (∃ sessionId generation, c.acquire sessionId generation = some next) ∨
      c.Moves next := by
  cases event with
  | acquire sessionId generation =>
    exact .inl ⟨sessionId, generation, hstep⟩
  | ack handle bytes =>
    simp only [coordinatorStep, bind_eq_bind, bind_eq_some_iff] at hstep
    obtain ⟨lease, -, s, hs, hstep⟩ := hstep
    split_ifs at hstep
    · exact .inr (some.inj hstep ▸ .stays c.handles)
    · exact .inr (some.inj hstep ▸ h.addAck hs lease.leaseId bytes)
  | dispose handle =>
    simp only [coordinatorStep, bind_eq_bind, bind_eq_some_iff] at hstep
    obtain ⟨lease, -, s, hs, hstep⟩ := hstep
    split_ifs at hstep
    · exact .inr (some.inj hstep ▸ .stays c.handles)
    · exact .inr (some.inj hstep ▸ h.closeLease hs lease.leaseId _)
  | invokeSucceeds ref index =>
    simp only [coordinatorStep, bind_eq_bind,
      bind_eq_some_iff, some.injEq] at hstep
    obtain ⟨s, hs, batch, hbatch, rfl⟩ := hstep
    exact .inr (h.invokeSucceeds hs hbatch)
  | invokeFails ref index now =>
    simp only [coordinatorStep, bind_eq_bind,
      bind_eq_some_iff, some.injEq] at hstep
    obtain ⟨s, hs, batch, hbatch, rfl⟩ := hstep
    exact .inr (h.invokeFails hs hbatch now)
  | retryTimer ref index =>
    simp only [coordinatorStep, bind_eq_bind,
      bind_eq_some_iff, some.injEq] at hstep
    obtain ⟨s, hs, timer, htimer, rfl⟩ := hstep
    exact .inr (h.retryTimer hs htimer)

theorem coordinatorStep_consistent {c next : OutputAckCoordinator}
    {event : Event} (h : c.Consistent)
    (hstep : coordinatorStep c event = some next) : next.Consistent := by
  rcases h.step hstep with ⟨sessionId, generation, hacquire⟩ | hmoves
  · exact (h.acquire sessionId generation hacquire).1
  · exact h.moves hmoves

theorem consistent_initial (options : OutputAckCoordinatorOptions) :
    Consistent { options } := by
  have hnone : ∀ (ref : Nat) (s : Session),
      ([] : List Session)[ref]? ≠ some s := fun _ _ => by simp
  exact ⟨fun ref s hs => absurd hs (hnone ref s),
    fun ref s hs => absurd hs (hnone ref s),
    fun ref s hs => absurd hs (hnone ref s),
    fun _ _ hlookup => absurd hlookup (by simp),
    fun _ other s hs => absurd hs (hnone other s),
    fun older _ s _ _ hs => absurd hs (hnone older s)⟩

theorem consistent_of_reachable {c : OutputAckCoordinator}
    (h : coordinatorSystem.Reachable c) : c.Consistent := by
  have hinit : ∀ c, coordinatorSystem.init c → c.Consistent := by
    rintro c ⟨options, rfl⟩
    exact consistent_initial options
  exact h.invariant hinit fun c event next hc hstep =>
    coordinatorStep_consistent hc hstep

/-- A session in use has at most one promise; the others have none. -/
theorem Session.Sound.invokes_length {s : Session} (h : s.Sound) :
    s.invokes.length ≤ 1 := by
  rw [h.dispatched.invokes]
  cases s.state.inFlight with
  | none => exact Nat.zero_le _
  | some batch => exact Nat.le_refl _

/-- If any two members that count are the same, the list has at most what one
member has. -/
theorem length_flatMap_le_one {α β : Type} {f : α → List β} {xs : List α}
    (hone : ∀ x ∈ xs, (f x).length ≤ 1)
    (hapart : xs.Pairwise fun x y => f x = [] ∨ f y = []) :
    (xs.flatMap f).length ≤ 1 := by
  induction xs with
  | nil => exact Nat.zero_le _
  | cons x rest ih =>
    rw [pairwise_cons] at hapart
    rw [flatMap_cons, length_append]
    by_cases hx : f x = []
    · rw [hx, length_nil, Nat.zero_add]
      exact ih (fun y hy => hone y (mem_cons_of_mem x hy)) hapart.2
    · have hrest : rest.flatMap f = [] := by
        rw [flatMap_eq_nil_iff]
        intro y hy
        exact (hapart.1 y hy).resolve_left hx
      rw [hrest, length_nil, Nat.add_zero]
      exact hone x mem_cons_self

theorem Session.Sound.no_invokes_of_idle {s : Session} (h : s.Sound)
    (hidle : s.state.idle = true) : s.invokes = [] := by
  simp only [idle, Bool.and_eq_true, isNone_iff_eq_none] at hidle
  rw [h.dispatched.invokes, hidle.1.2]
  rfl

theorem OutputAckCoordinator.Consistent.single {c : OutputAckCoordinator}
    (h : c.Consistent) (sessionId : String) :
    (c.invokesOf sessionId).length ≤ 1 := by
  apply length_flatMap_le_one
  · intro s hs
    obtain ⟨ref, hget⟩ := mem_iff_getElem?.mp (mem_filter.mp hs).1
    exact (h.sound ref s hget).invokes_length
  · have hapart : c.objects.Pairwise fun s t =>
        s.state.sessionId = t.state.sessionId →
          s.invokes = [] ∨ t.invokes = [] := by
      rw [pairwise_iff_getElem]
      intro first second hfirst hsecond hlt hsame
      have hget := getElem?_eq_getElem hfirst
      have hget' := getElem?_eq_getElem hsecond
      rcases h.mapped first _ hget with hmapped | hidle
      · rw [hsame] at hmapped
        have hle := h.latest first second _ hget' hmapped
        exact absurd hlt (Nat.not_lt_of_le hle)
      · exact .inl ((h.sound first _ hget).no_invokes_of_idle hidle)
    rw [pairwise_filter]
    refine hapart.imp fun himp hs ht => himp ?_
    exact (eq_of_beq hs).trans (eq_of_beq ht).symm

/-- What holds of the bytes accepted so far: they are accounted for, never
delivered beyond what was accepted, given up only after the last attempt of
their lease has failed, sent one batch at a time and lease by lease. -/
structure OutputAckCoordinator.Conserves (c : OutputAckCoordinator) :
    Prop where
  conserved : ∀ s ∈ c.objects, ∀ leaseId, s.Conserved leaseId
  delivered_le : ∀ s ∈ c.objects, ∀ leaseId,
    total (AckEvent.deliveredBytes leaseId) s.history ≤
      total (AckEvent.acceptedBytes leaseId) s.history
  discarded : ∀ s ∈ c.objects, ∀ newer older leaseId bytes,
    s.history = newer ++ .discarded leaseId bytes :: older →
      (∃ before, older = .failed leaseId bytes :: before ∧
        .attempted leaseId bytes true ∈ before) ∧
      ∀ count last, .attempted leaseId count last ∉ newer
  single : ∀ sessionId, (c.invokesOf sessionId).length ≤ 1
  inOrder : ∀ s ∈ c.objects, ∀ t ∈ c.objects,
    s.state.sessionId = t.state.sessionId → ∀ event ∈ t.history, ∀ newer,
      event.Settles newer → ∀ older < newer, s.Finished older

theorem OutputAckCoordinator.Consistent.inOrder {c : OutputAckCoordinator}
    (h : c.Consistent) {first second : Nat} {s t : Session}
    (hs : c.objects[first]? = some s) (ht : c.objects[second]? = some t)
    (hsame : s.state.sessionId = t.state.sessionId) {event : AckEvent}
    (hevent : event ∈ t.history) {newer : Nat} (hnewer : event.Settles newer)
    {older : Nat} (hlt : older < newer) : s.Finished older := by
  have hsound := h.sound first s hs
  rcases h.mapped first s hs with hmapped | hidle
  · rcases Nat.lt_trichotomy second first with hbefore | rfl | hafter
    · -- the other state came first, so all its leases are older
      have hnot : ∀ event' ∈ s.history, event'.leaseId ≠ older := by
        intro event' hevent' hid
        have hless := h.ascending second first t s hbefore ht hs hsame.symm
          event hevent event' hevent'
        rw [AckEvent.leaseId_of_settles hnewer, hid] at hless
        exact absurd hlt (Nat.not_lt_of_gt hless)
      exact hsound.finished_of_unknown hnot
    · obtain rfl := some.inj (hs.symm.trans ht)
      exact hsound.balanced.ordered event hevent newer hnewer older hlt
    · have hle := h.latest first second t ht (hsame ▸ hmapped)
      exact absurd hafter (Nat.not_lt_of_le hle)
  · exact hsound.finished_of_idle hidle older

/-- In every reachable state of the coordinator the accepted bytes are
conserved and settled in the order of their leases. -/
theorem acknowledgements_conserved {c : OutputAckCoordinator}
    (h : coordinatorSystem.Reachable c) : c.Conserves := by
  have hconsistent := consistent_of_reachable h
  have hsound : ∀ s ∈ c.objects, s.Sound := by
    intro s hs
    obtain ⟨ref, hget⟩ := mem_iff_getElem?.mp hs
    exact hconsistent.sound ref s hget
  refine ⟨fun s hs => (hsound s hs).balanced.conserved,
    fun s hs leaseId => ?_, fun s hs newer older leaseId bytes hhistory => ?_,
    hconsistent.single, fun s hs t ht hsame event hevent newer hnewer older
      hlt => ?_⟩
  · have hconserved := (hsound s hs).balanced.conserved leaseId
    unfold Session.Conserved at hconserved
    omega
  · have hrecorded := (hsound s hs).remembered.recorded
    rw [hhistory] at hrecorded
    exact hrecorded.discarded
  · obtain ⟨first, hfirst⟩ := mem_iff_getElem?.mp hs
    obtain ⟨second, hsecond⟩ := mem_iff_getElem?.mp ht
    exact hconsistent.inOrder hfirst hsecond hsame hevent hnewer hlt

/-- Two leases of one session: the first fails while it is open and fails its
last attempt after the second has taken its place. -/
def takeoverRun : List Event :=
  [.acquire "session" 1, .ack 0 10, .ack 0 5, .invokeFails 0 0 3,
    .acquire "session" 2, .ack 1 7, .invokeFails 0 0 4, .invokeSucceeds 0 0]

theorem takeover_conserved :
    ∃ c, coordinatorSystem.runFrom {} takeoverRun = some c ∧
      c.Conserves := by
  have hsome : (coordinatorSystem.runFrom {} takeoverRun).isSome = true := by
    decide +kernel
  obtain ⟨c, hrun⟩ := isSome_iff_exists.mp hsome
  exact ⟨c, hrun, acknowledgements_conserved
    ⟨{}, takeoverRun, ⟨{}, rfl⟩, hrun⟩⟩

end NiceTerm.Ack
