/-
Bytes in the drain.  Each byte accepted by `enqueue` is queued, being written,
waiting to be acknowledged, acknowledged, or lost with a payload that no
terminal took; the backend's counter holds all of them but the acknowledged.
-/
import NiceTerm.Drain.TerminalOutputDrain

namespace NiceTerm.Drain

open Option Transition WriteJob

/-- The bytes a job will still take out of `writingBytes`. -/
def WriteJob.openBytes (job : WriteJob) : Nat :=
  match job.task, job.phase with
  | .payload _ _, .settled => 0
  | .payload payload _, _ => payload.bytes
  | .external, _ => 0

/-- The fields that count bytes. -/
structure Books where
  queue : OutputQueue
  writingBytes : Nat
  backendUnackedBytes : Nat
  pendingAckBytes : Nat
  writeQueue : List WriteJob
  acked : Nat
  enqueued : Nat
  lost : Nat

structure Books.Accounted (books : Books) : Prop where
  counted : books.queue.Counted
  writing : books.writingBytes = total openBytes books.writeQueue
  unacked : books.backendUnackedBytes =
    books.queue.bytes + books.writingBytes + books.pendingAckBytes +
      books.lost
  enqueued : books.acked + books.backendUnackedBytes = books.enqueued

namespace TerminalOutputDrain

variable {d : TerminalOutputDrain} {answers : Answers}

def books (d : TerminalOutputDrain) : Books where
  queue := d.queue
  writingBytes := d.writingBytes
  backendUnackedBytes := d.backendUnackedBytes
  pendingAckBytes := d.pendingAckBytes
  writeQueue := d.writeQueue
  acked := d.acked
  enqueued := d.enqueued
  lost := d.lost

/-- A stretch of code that keeps the accounts and loses nothing. -/
structure Keeps (before after : TerminalOutputDrain) : Prop where
  accounted : before.books.Accounted → after.books.Accounted
  lost : after.lost = before.lost

theorem Keeps.trans {first second third : TerminalOutputDrain}
    (h : Keeps first second) (h' : Keeps second third) : Keeps first third :=
  ⟨fun hfirst => h'.accounted (h.accounted hfirst), h'.lost.trans h.lost⟩

theorem Keeps.after {first second third : TerminalOutputDrain}
    (h' : Keeps second third) (h : Keeps first second) : Keeps first third :=
  h.trans h'

theorem keeps_of_books {before after : TerminalOutputDrain}
    (h : after.books = before.books) : Keeps before after :=
  ⟨fun hbefore => h ▸ hbefore, congrArg Books.lost h⟩

theorem Keeps.of_books {before middle after : TerminalOutputDrain}
    (h : Keeps middle after) (hbooks : middle.books = before.books) :
    Keeps before after :=
  (keeps_of_books hbooks).trans h

@[simp] theorem cancel_books (handle : Option Nat) :
    (d.cancel handle).books = d.books := by
  cases handle with
  | none => rfl
  | some handle => rfl

theorem clearForegroundSchedulers_books :
    d.clearForegroundSchedulers.books = d.books := by
  change ((d.cancel d.foregroundFrame).cancel d.foregroundTimer).books = _
  rw [cancel_books, cancel_books]

theorem cancelForeground_books : d.cancelForeground.books = d.books :=
  clearForegroundSchedulers_books

theorem cancelBackground_books : d.cancelBackground.books = d.books :=
  cancel_books d.backgroundTimer

theorem clearAckTimer_books : d.clearAckTimer.books = d.books :=
  cancel_books d.ackTimer

theorem scheduleAckFlush_books : d.scheduleAckFlush.books = d.books := by
  unfold scheduleAckFlush
  split
  · rfl
  · rfl

theorem scheduleForeground_books :
    (d.scheduleForeground answers).books = d.books := by
  unfold scheduleForeground
  split_ifs
  · rfl
  · rfl
  · rfl
  · rfl

theorem armBackground_books : d.armBackground.books = d.books := rfl

theorem scheduleBackground_books :
    d.scheduleBackground.books = d.books := by
  unfold scheduleBackground
  simp only
  split_ifs
  · rfl
  · rw [armBackground_books, cancelBackground_books]
    rfl
  · rfl
  · rfl

theorem sendAck_of_le {bytes : Nat} (hpos : bytes ≠ 0)
    (h : bytes ≤ d.backendUnackedBytes) :
    d.sendAck bytes = { d with
        backendUnackedBytes := d.backendUnackedBytes - bytes
        acked := d.acked + bytes } := by
  simp only [sendAck, Nat.min_eq_left h, hpos, false_or, ↓reduceIte]

theorem sendAck_frame (bytes : Nat) :
    (d.sendAck bytes).lost = d.lost ∧ (d.sendAck bytes).enqueued = d.enqueued ∧
      (d.sendAck bytes).disposed = d.disposed := by
  unfold sendAck
  simp only
  split_ifs
  · exact ⟨rfl, rfl, rfl⟩
  · exact ⟨rfl, rfl, rfl⟩

/-- An acknowledgement moves the waiting bytes to the acknowledged; the
backend's counter never caps it. -/
theorem sendAck_keeps {cleared : TerminalOutputDrain}
    (hbooks : cleared.books = { d.books with pendingAckBytes := 0 })
    (hsome : d.pendingAckBytes ≠ 0) :
    Keeps d (cleared.sendAck d.pendingAckBytes) := by
  constructor
  · intro h
    have hunacked : d.backendUnackedBytes =
        d.queue.bytes + d.writingBytes + d.pendingAckBytes + d.lost :=
      h.unacked
    have hsame : cleared.backendUnackedBytes = d.backendUnackedBytes :=
      congrArg Books.backendUnackedBytes hbooks
    have hacked : cleared.acked = d.acked := congrArg Books.acked hbooks
    have hafter : (cleared.sendAck d.pendingAckBytes).books = { d.books with
          pendingAckBytes := 0
          backendUnackedBytes := d.backendUnackedBytes - d.pendingAckBytes
          acked := d.acked + d.pendingAckBytes } := by
      rw [sendAck_of_le hsome (by omega), ← hsame, ← hacked]
      simp only [books, Books.mk.injEq] at hbooks ⊢
      obtain ⟨hqueue, hwriting, -, hpending, hjobs, -, henqueued, hlost⟩ :=
        hbooks
      exact ⟨hqueue, hwriting, trivial, hpending, hjobs, trivial, henqueued,
        hlost⟩
    rw [hafter]
    refine ⟨h.counted, h.writing, ?_, ?_⟩
    · change d.backendUnackedBytes - d.pendingAckBytes =
        d.queue.bytes + d.writingBytes + 0 + d.lost
      omega
    · have henqueued : d.acked + d.backendUnackedBytes = d.enqueued :=
        h.enqueued
      change d.acked + d.pendingAckBytes +
        (d.backendUnackedBytes - d.pendingAckBytes) = d.enqueued
      omega
  · exact (sendAck_frame _).1.trans (congrArg Books.lost hbooks)

theorem flushPendingAck_keeps (force : Bool) :
    Keeps d (d.flushPendingAck force) := by
  by_cases hnone : d.pendingAckBytes = 0
  · apply keeps_of_books
    rw [flushPendingAck, if_pos hnone]
    cases force with
    | false => rfl
    | true => exact clearAckTimer_books
  · by_cases hwait : force = false ∧ d.pendingAckBytes < defaultAckBatchBytes
    · apply keeps_of_books
      rw [flushPendingAck, if_neg hnone, if_pos hwait]
      exact scheduleAckFlush_books
    · rw [flushPendingAck, if_neg hnone, if_neg hwait]
      refine sendAck_keeps ?_ hnone
      exact congrArg (fun books => { books with pendingAckBytes := 0 })
        clearAckTimer_books

theorem schedule_keeps : Keeps d (d.schedule answers) := by
  unfold schedule
  split_ifs
  · exact keeps_of_books rfl
  · exact (flushPendingAck_keeps true).of_books rfl
  · exact keeps_of_books rfl
  · exact keeps_of_books scheduleBackground_books
  · exact keeps_of_books scheduleForeground_books

variable {payload : QueuedOutputChunk}

/-- A dequeued payload moves from the queue to the bytes being written. -/
theorem writePayload_keeps {maxBytes : Nat}
    {queue : OutputQueue} (next : Continuation)
    (hdequeue : dequeueOutputChunk d.queue maxBytes = (some payload, queue)) :
    Keeps d (writePayload payload next { d with queue }) := by
  constructor
  · intro h
    have hbefore : d.backendUnackedBytes =
        d.queue.bytes + d.writingBytes + d.pendingAckBytes + d.lost :=
      h.unacked
    have hjobs : d.writingBytes = total openBytes d.writeQueue :=
      h.writing
    obtain ⟨hcounted, hbytes⟩ := dequeueOutputChunk_counted h.counted maxBytes
    change (dequeueOutputChunk d.queue maxBytes).2.Counted at hcounted
    change (dequeueOutputChunk d.queue maxBytes).1.elim 0 _ +
      (dequeueOutputChunk d.queue maxBytes).2.bytes = d.queue.bytes at hbytes
    rw [hdequeue] at hcounted hbytes
    change payload.bytes + queue.bytes = d.queue.bytes at hbytes
    refine ⟨hcounted, ?_, ?_, h.enqueued⟩
    · change d.writingBytes + payload.bytes =
        total openBytes (d.writeQueue ++ _)
      rw [total_append, ← hjobs]
      rfl
    · change d.backendUnackedBytes = queue.bytes +
        (d.writingBytes + payload.bytes) + d.pendingAckBytes + d.lost
      omega
  · rfl

theorem dequeue_none_keeps {maxBytes : Nat} {queue : OutputQueue}
    (hdequeue : dequeueOutputChunk d.queue maxBytes = (none, queue)) :
    Keeps d { d with queue } := by
  rw [dequeueOutputChunk_eq_none hdequeue]
  exact keeps_of_books rfl

theorem flushOne_keeps (maxBytes : Nat) :
    Keeps d (d.flushOne answers maxBytes) := by
  unfold flushOne
  split_ifs
  · exact schedule_keeps
  · split
    · next queue hdequeue =>
        exact (dequeue_none_keeps hdequeue).trans (flushPendingAck_keeps true)
    · next payload queue hdequeue => exact writePayload_keeps _ hdequeue

theorem flushForeground_keeps : Keeps d (d.flushForeground answers) := by
  unfold flushForeground
  split_ifs
  · exact schedule_keeps
  · exact (flushOne_keeps _).of_books rfl

theorem flushBackground_keeps : Keeps d (d.flushBackground answers) := by
  unfold flushBackground
  split_ifs
  · exact schedule_keeps
  · exact (flushOne_keeps _).of_books rfl

theorem pollRest_keeps (deadline : Nat) : Keeps d (d.pollRest deadline) := by
  unfold pollRest
  split_ifs
  · exact keeps_of_books rfl
  · exact (flushPendingAck_keeps true).trans (keeps_of_books rfl)

theorem poll_keeps (deadline : Nat) : Keeps d (d.poll answers deadline) := by
  unfold poll
  split_ifs
  · exact keeps_of_books rfl
  · exact keeps_of_books rfl
  · split
    · next payload queue hdequeue => exact writePayload_keeps _ hdequeue
    · next queue hdequeue =>
        exact (dequeue_none_keeps hdequeue).trans (pollRest_keeps deadline)
  · exact pollRest_keeps deadline

theorem waitForIdle_keeps (timeoutMs : Nat) :
    Keeps d (d.waitForIdle answers timeoutMs) :=
  (poll_keeps _).of_books (cancelBackground_books.trans cancelForeground_books)

theorem setMode_keeps (mode : TerminalOutputDrainMode) :
    Keeps d (d.setMode answers mode) := by
  by_cases hdisposed : d.disposed = true
  · rw [setMode, if_pos hdisposed]
    exact keeps_of_books rfl
  · by_cases hmode : d.mode = mode
    · rw [setMode, if_neg hdisposed, if_pos hmode]
      exact schedule_keeps
    · rw [setMode, if_neg hdisposed, if_neg hmode]
      refine schedule_keeps.of_books ?_
      simp only
      split_ifs
      · exact cancelBackground_books.trans cancelForeground_books
      · exact cancelBackground_books
      · exact cancelForeground_books
      · rfl

theorem enqueue_keeps (chunk : SizedChunk) :
    Keeps d (d.enqueue answers chunk.toQueuedOutputChunk) := by
  unfold enqueue
  split_ifs
  · exact keeps_of_books rfl
  · refine schedule_keeps.after ⟨fun h => ?_, rfl⟩
    have hunacked : d.backendUnackedBytes =
        d.queue.bytes + d.writingBytes + d.pendingAckBytes + d.lost :=
      h.unacked
    have henqueued : d.acked + d.backendUnackedBytes = d.enqueued :=
      h.enqueued
    refine ⟨h.counted.push chunk.sized, h.writing, ?_, ?_⟩
    · change d.backendUnackedBytes + chunk.bytes =
        d.queue.bytes + chunk.bytes + d.writingBytes + d.pendingAckBytes +
          d.lost
      omega
    · change d.acked + (d.backendUnackedBytes + chunk.bytes) =
        d.enqueued + chunk.bytes
      omega

theorem writeExternal_keeps : Keeps d d.writeExternal := by
  refine ⟨fun h => ⟨h.counted, ?_, h.unacked, h.enqueued⟩, rfl⟩
  change d.writingBytes = total openBytes (d.writeQueue ++ _)
  rw [total_append]
  exact h.writing

variable {jobs : List WriteJob}

theorem writingBytes_of_cons {job : WriteJob}
    (h : d.books.Accounted) (hjobs : d.writeQueue = job :: jobs) :
    d.writingBytes = job.openBytes + total openBytes jobs := by
  have hwriting : d.writingBytes = total openBytes d.writeQueue :=
    h.writing
  rw [hwriting, hjobs, total]

/-- The write callback moves the payload to the bytes to acknowledge. -/
theorem completeWrite_keeps {next : Continuation}
    (hjobs : d.writeQueue = ⟨.payload payload next, .writing⟩ :: jobs) :
    Keeps d (completeWrite payload { d with
      writeQueue := ⟨.payload payload next, .settled⟩ :: jobs }) := by
  unfold completeWrite
  refine (flushPendingAck_keeps _).after ⟨fun h => ?_, rfl⟩
  have hunacked : d.backendUnackedBytes =
      d.queue.bytes + d.writingBytes + d.pendingAckBytes + d.lost :=
    h.unacked
  have hwriting : d.writingBytes = payload.bytes + total openBytes jobs :=
    writingBytes_of_cons h hjobs
  refine ⟨h.counted, ?_, ?_, h.enqueued⟩
  · change d.writingBytes - payload.bytes = 0 + total openBytes jobs
    omega
  · change d.backendUnackedBytes = d.queue.bytes +
      (d.writingBytes - payload.bytes) +
      (d.pendingAckBytes + payload.bytes) + d.lost
    omega

/-- A payload that finds no terminal stays in the backend's counter only. -/
theorem abandon_accounted {next : Continuation}
    (hjobs : d.writeQueue = ⟨.payload payload next, .waiting⟩ :: jobs)
    (h : d.books.Accounted) :
    (abandon payload { d with
      writeQueue := ⟨.payload payload next, .settled⟩ :: jobs
      }).books.Accounted := by
  have hunacked : d.backendUnackedBytes =
      d.queue.bytes + d.writingBytes + d.pendingAckBytes + d.lost :=
    h.unacked
  have hwriting : d.writingBytes = payload.bytes + total openBytes jobs :=
    writingBytes_of_cons h hjobs
  refine ⟨h.counted, ?_, ?_, h.enqueued⟩
  · change d.writingBytes - payload.bytes = 0 + total openBytes jobs
    omega
  · change d.backendUnackedBytes = d.queue.bytes +
      (d.writingBytes - payload.bytes) + d.pendingAckBytes +
      (d.lost + payload.bytes)
    omega

variable {next : TerminalOutputDrain}

theorem finishWrite_keeps (h : d.finishWrite = some next) : Keeps d next := by
  unfold finishWrite at h
  split at h
  · next payload continuation jobs hjobs =>
      exact some.inj h ▸ completeWrite_keeps hjobs
  · next jobs hjobs =>
      rw [← some.inj h]
      refine ⟨fun hbooks => ⟨hbooks.counted, ?_, hbooks.unacked,
        hbooks.enqueued⟩, rfl⟩
      have hwriting := writingBytes_of_cons hbooks hjobs
      exact hwriting
  · exact absurd h (by simp)

theorem settleWrite_keeps
    (h : d.settleWrite answers = some next) : Keeps d next := by
  have hdrop : ∀ job jobs, d.writeQueue = job :: jobs → job.openBytes = 0 →
      Keeps d { d with writeQueue := jobs } := by
    intro job jobs hjobs hzero
    refine ⟨fun hbooks => ⟨hbooks.counted, ?_, hbooks.unacked,
      hbooks.enqueued⟩, rfl⟩
    have hwriting := writingBytes_of_cons hbooks hjobs
    rw [hzero, Nat.zero_add] at hwriting
    exact hwriting
  unfold settleWrite at h
  split at h
  · next hjobs =>
      exact some.inj h ▸ (hdrop _ _ hjobs rfl).trans schedule_keeps
  · next hjobs =>
      rw [← some.inj h]
      exact ((hdrop _ _ hjobs rfl).trans (flushPendingAck_keeps true)).trans
        (poll_keeps _)
  · next hjobs => exact some.inj h ▸ hdrop _ _ hjobs rfl
  · exact absurd h (by simp)

theorem claimAndFlush_keeps (generation : Nat) :
    Keeps d (d.claimAndFlush answers generation) := by
  unfold claimAndFlush
  split_ifs
  · exact keeps_of_books rfl
  · exact flushForeground_keeps.of_books clearForegroundSchedulers_books

theorem runTimer_keeps (callback : TimerCallback) :
    Keeps d (d.runTimer answers callback) := by
  cases callback with
  | foregroundDelay => exact flushForeground_keeps.of_books rfl
  | foregroundFrame generation => exact claimAndFlush_keeps generation
  | foregroundFallback generation => exact claimAndFlush_keeps generation
  | background => exact flushBackground_keeps.of_books rfl
  | ack => exact (flushPendingAck_keeps true).of_books rfl
  | poll deadline => exact poll_keeps deadline

theorem fireTimer_keeps {index : Nat}
    (h : d.fireTimer answers index = some next) : Keeps d next := by
  unfold fireTimer at h
  split at h
  · exact absurd h (by simp)
  · exact some.inj h ▸ (runTimer_keeps _).of_books rfl

theorem runMicrotask_keeps
    (h : d.runMicrotask answers = some next) : Keeps d next := by
  unfold runMicrotask at h
  split_ifs at h
  exact some.inj h ▸ flushForeground_keeps.of_books rfl

@[simp] theorem cancel_disposed (handle : Option Nat) :
    (d.cancel handle).disposed = d.disposed := by
  cases handle with
  | none => rfl
  | some handle => rfl

theorem clearAckTimer_disposed : d.clearAckTimer.disposed = d.disposed :=
  cancel_disposed d.ackTimer

theorem cancelAll_disposed :
    d.cancelForeground.cancelBackground.clearAckTimer.disposed =
      d.disposed := by
  rw [clearAckTimer_disposed]
  change (d.cancelForeground.cancel _).disposed = _
  rw [cancel_disposed]
  change ((d.cancel _).cancel _).disposed = _
  rw [cancel_disposed, cancel_disposed]

/-- A forced flush leaves what it does not acknowledge as it is. -/
theorem flushPendingAck_frame :
    (d.flushPendingAck true).enqueued = d.enqueued ∧
      (d.flushPendingAck true).disposed = d.disposed := by
  have henqueued : d.clearAckTimer.enqueued = d.enqueued :=
    congrArg Books.enqueued clearAckTimer_books
  by_cases hnone : d.pendingAckBytes = 0
  · rw [flushPendingAck, if_pos hnone]
    exact ⟨henqueued, clearAckTimer_disposed⟩
  · rw [flushPendingAck, if_neg hnone, if_neg (by simp)]
    obtain ⟨-, hsent, hflag⟩ := sendAck_frame
      (d := { d.clearAckTimer with pendingAckBytes := 0 }) d.pendingAckBytes
    exact ⟨hsent.trans henqueued, hflag.trans clearAckTimer_disposed⟩

/-- `dispose` up to the acknowledgement of what remains. -/
def stopped (d : TerminalOutputDrain) : TerminalOutputDrain :=
  flushPendingAck true
    { ({ d with disposed := true } : TerminalOutputDrain).cancelForeground
        |>.cancelBackground.clearAckTimer with microtaskPending := false }

theorem stopped_disposed : d.stopped.disposed = true :=
  flushPendingAck_frame.2.trans cancelAll_disposed

theorem dispose_disposed (ackRemaining : Bool) :
    (d.dispose ackRemaining).disposed = true := by
  by_cases hdisposed : d.disposed = true
  · rw [dispose, if_pos hdisposed]
    exact hdisposed
  · rw [dispose, if_neg hdisposed]
    cases ackRemaining with
    | false => exact stopped_disposed
    | true => exact (sendAck_frame _).2.2.trans stopped_disposed

end TerminalOutputDrain

open TerminalOutputDrain

/-- What the backend still counts is queued, being written or waiting to be
acknowledged; together with the acknowledged bytes that is what was accepted,
so nothing is acknowledged twice. -/
structure TerminalOutputDrain.Exact (d : TerminalOutputDrain) : Prop where
  unacked : d.backendUnackedBytes =
    d.queue.bytes + d.writingBytes + d.pendingAckBytes
  accounted : d.acked + d.queue.bytes + d.writingBytes + d.pendingAckBytes =
    d.enqueued
  bounded : d.acked ≤ d.enqueued

/-- Unless it is empty, a payload whose turn has come finds a terminal that
takes it. -/
def TakesPayload (d : TerminalOutputDrain) (event : Answers × Action) : Prop :=
  ∀ outcome, event.2 = .startWrite outcome → ∀ payload next jobs,
      d.writeQueue = ⟨.payload payload next, .waiting⟩ :: jobs →
      outcome = .accepts ∨ payload.bytes = 0

/-- What one callback does to the accounts. -/
structure Books.Settles (d next : TerminalOutputDrain)
    (event : Answers × Action) : Prop where
  accounted : next.books.Accounted
  lost_le : d.lost ≤ next.lost
  lost_eq_iff : next.lost = d.lost ↔ TakesPayload d event

variable {next : TerminalOutputDrain} {event : Answers × Action}

theorem Books.Settles.of_keeps {d : TerminalOutputDrain}
    (h : d.books.Accounted) (hkeeps : Keeps d next)
    (hother : ∀ outcome, event.2 ≠ .startWrite outcome) :
    Books.Settles d next event where
  accounted := hkeeps.accounted h
  lost_le := Nat.le_of_eq hkeeps.lost.symm
  lost_eq_iff := by
    refine ⟨fun _ outcome houtcome => ?_, fun _ => hkeeps.lost⟩
    exact absurd houtcome (hother outcome)

theorem abandon_settles {d : TerminalOutputDrain} {answers : Answers}
    {outcome : WriteOutcome} {payload : QueuedOutputChunk}
    {next : Continuation} {jobs : List WriteJob} (h : d.books.Accounted)
    (hjobs : d.writeQueue = ⟨.payload payload next, .waiting⟩ :: jobs)
    (hfails : outcome ≠ .accepts) :
    Books.Settles d (abandon payload { d with
        writeQueue := ⟨.payload payload next, .settled⟩ :: jobs })
      (answers, .startWrite outcome) where
  accounted := abandon_accounted hjobs h
  lost_le := Nat.le_add_right _ _
  lost_eq_iff := by
    change d.lost + payload.bytes = d.lost ↔ _
    constructor
    · intro hzero _ _ other _ _ hother
      rw [hjobs, List.cons.injEq, WriteJob.mk.injEq,
        WriteTask.payload.injEq] at hother
      rw [← hother.1.1.1]
      exact .inr (by omega)
    · intro htakes
      rcases htakes outcome rfl payload next jobs hjobs with haccepts | hzero
      · exact absurd haccepts hfails
      · rw [hzero, Nat.add_zero]

theorem startWrite_settles {d : TerminalOutputDrain}
    {answers : Answers} {outcome : WriteOutcome} (h : d.books.Accounted)
    (hstep : d.startWrite outcome = some next) :
    Books.Settles d next (answers, .startWrite outcome) := by
  unfold startWrite at hstep
  split at hstep
  · next payload continuation jobs hjobs =>
      cases outcome with
      | accepts =>
        rw [← some.inj hstep]
        have hwriting := writingBytes_of_cons h hjobs
        refine ⟨⟨h.counted, hwriting, h.unacked, h.enqueued⟩,
          Nat.le_refl _, ?_⟩
        refine ⟨fun _ outcome houtcome _ _ _ _ => ?_, fun _ => rfl⟩
        exact .inl (Action.startWrite.inj houtcome).symm
      | noTerminal =>
        exact some.inj hstep ▸ abandon_settles h hjobs (by decide)
      | throws =>
        exact some.inj hstep ▸ abandon_settles h hjobs (by decide)
  · next jobs hjobs =>
      rw [← some.inj hstep]
      have hwriting := writingBytes_of_cons h hjobs
      refine ⟨⟨h.counted, hwriting, h.unacked, h.enqueued⟩, Nat.le_refl _, ?_⟩
      refine ⟨fun _ _ _ _ _ _ hother => ?_, fun _ => rfl⟩
      rw [hjobs, List.cons.injEq, WriteJob.mk.injEq] at hother
      exact absurd hother.1.1 (by simp)
  · exact absurd hstep (by simp)

/-- One callback keeps the accounts; it loses bytes exactly when a payload
finds no terminal that takes it. -/
theorem drainStep_settles {d : TerminalOutputDrain} (h : d.books.Accounted)
    (hstep : drainStep d event = some next) (hlive : next.disposed = false) :
    Books.Settles d next event := by
  obtain ⟨answers, action⟩ := event
  unfold drainStep at hstep
  split_ifs at hstep
  cases action with
  | enqueue chunk =>
    exact .of_keeps h (some.inj hstep ▸ enqueue_keeps chunk) (by simp)
  | setMode mode =>
    exact .of_keeps h (some.inj hstep ▸ setMode_keeps mode) (by simp)
  | waitForIdle timeoutMs =>
    exact .of_keeps h (some.inj hstep ▸ waitForIdle_keeps timeoutMs) (by simp)
  | writeExternal =>
    exact .of_keeps h (some.inj hstep ▸ writeExternal_keeps) (by simp)
  | dispose ackRemaining =>
    rw [← some.inj hstep, dispose_disposed] at hlive
    exact absurd hlive (by simp)
  | timer index => exact .of_keeps h (fireTimer_keeps hstep) (by simp)
  | microtask => exact .of_keeps h (runMicrotask_keeps hstep) (by simp)
  | startWrite outcome => exact startWrite_settles h hstep
  | finishWrite => exact .of_keeps h (finishWrite_keeps hstep) (by simp)
  | settleWrite => exact .of_keeps h (settleWrite_keeps hstep) (by simp)

theorem accounted_initial :
    (books ({} : TerminalOutputDrain)).Accounted :=
  ⟨counted_empty, rfl, rfl, rfl⟩

theorem live_of_step {d : TerminalOutputDrain}
    (hstep : drainStep d event = some next) : d.disposed = false := by
  unfold drainStep at hstep
  split_ifs at hstep with hdisposed
  exact Bool.of_not_eq_true hdisposed

theorem live_of_run {d last : TerminalOutputDrain}
    {events : List (Answers × Action)}
    (hrun : drainSystem.runFrom d events = some last)
    (hlive : last.disposed = false) : d.disposed = false := by
  cases events with
  | nil => exact some.inj hrun ▸ hlive
  | cons event rest =>
    obtain ⟨next, hstep, -⟩ := drainSystem.runFrom_cons_eq_some.mp hrun
    exact live_of_step hstep

/-- Over a run nothing is lost exactly when every payload was taken. -/
theorem run_settles {d last : TerminalOutputDrain}
    {events : List (Answers × Action)} (h : d.books.Accounted)
    (hrun : drainSystem.runFrom d events = some last)
    (hlive : last.disposed = false) :
    last.books.Accounted ∧ d.lost ≤ last.lost ∧
      (last.lost = d.lost ↔ drainSystem.Along TakesPayload d events) := by
  induction events generalizing d with
  | nil =>
    rw [← some.inj hrun]
    exact ⟨h, Nat.le_refl _, iff_of_true rfl trivial⟩
  | cons event rest ih =>
    obtain ⟨next, hstep, hrest⟩ := drainSystem.runFrom_cons_eq_some.mp hrun
    have hsettles := drainStep_settles h hstep (live_of_run hrest hlive)
    obtain ⟨haccounted, hle, hiff⟩ := ih hsettles.accounted hrest
    have hfirst := hsettles.lost_le
    refine ⟨haccounted, Nat.le_trans hfirst hle, ?_⟩
    constructor
    · intro heq
      refine ⟨hsettles.lost_eq_iff.mp (by omega), fun other hother => ?_⟩
      rw [← some.inj (hstep.symm.trans hother)]
      exact hiff.mp (by omega)
    · rintro ⟨htakes, halong⟩
      have hnext := hsettles.lost_eq_iff.mpr htakes
      exact (hiff.mpr (halong next hstep)).trans hnext

theorem exact_iff_lost_eq_zero {d : TerminalOutputDrain}
    (h : d.books.Accounted) : d.Exact ↔ d.lost = 0 := by
  have hunacked : d.backendUnackedBytes =
      d.queue.bytes + d.writingBytes + d.pendingAckBytes + d.lost :=
    h.unacked
  have henqueued : d.acked + d.backendUnackedBytes = d.enqueued := h.enqueued
  constructor
  · intro hexact
    have hexactly := hexact.unacked
    omega
  · intro hzero
    exact ⟨by omega, by omega, by omega⟩

/-- The accounts of a drain that is not disposed are exact if and only if every
payload of the run that is not empty was taken by a terminal. -/
theorem drain_exact_iff {events : List (Answers × Action)}
    {d : TerminalOutputDrain} (hrun : drainSystem.runFrom {} events = some d)
    (hlive : d.disposed = false) :
    d.Exact ↔ drainSystem.Along TakesPayload {} events := by
  obtain ⟨haccounted, -, hiff⟩ := run_settles accounted_initial hrun hlive
  exact (exact_iff_lost_eq_zero haccounted).trans hiff

/-- One byte enqueued, claimed by the animation frame and given to a terminal
that throws. -/
def thrownRun : List (Answers × Action) :=
  let answers : Answers := ⟨32 * 1024, 0, false, 0⟩
  [(answers, .enqueue ⟨⟨[97], 1⟩, rfl⟩), (answers, .timer 0),
    (answers, .startWrite .throws)]

/-- The drain after that byte has left the queue. -/
def thrownEnd : TerminalOutputDrain where
  writeQueue := [⟨.payload ⟨[97], 1⟩ .schedule, .settled⟩]
  backendUnackedBytes := 1
  foregroundTurnStartedAt := some 0
  foregroundScheduleGeneration := 2
  nextHandle := 2
  enqueued := 1
  lost := 1

/-- A terminal that throws takes its byte out of every counter but the
backend's. -/
theorem thrown_write_unaccounted :
    drainSystem.runFrom {} thrownRun = some thrownEnd ∧ ¬ thrownEnd.Exact := by
  constructor
  · decide +kernel
  · intro h
    exact absurd h.unacked (by decide)

/-- `ab`, `é😀` and `z`, four bytes at a time: the second chunk is split, and
the third arrives during the second write. -/
def splitRun : List (Answers × Action) :=
  let answers : Answers := ⟨4, 0, false, 0⟩
  [(answers, .enqueue ⟨⟨[97, 98], 2⟩, rfl⟩),
    (answers, .enqueue ⟨⟨[0xE9, 0xD83D, 0xDE00], 6⟩, by
      rw [QueuedOutputChunk.Sized]
      decide⟩),
    (answers, .timer 0), (answers, .startWrite .accepts),
    (answers, .finishWrite), (answers, .settleWrite),
    (answers, .timer 1), (answers, .startWrite .accepts),
    (answers, .enqueue ⟨⟨[122], 1⟩, rfl⟩),
    (answers, .finishWrite), (answers, .settleWrite)]

/-- The drain with the last byte in its queue. -/
def splitRunEnd : TerminalOutputDrain where
  queue := ⟨[⟨[122], 1⟩], 1⟩
  backendUnackedBytes := 9
  pendingAckBytes := 8
  foregroundFrame := some 5
  foregroundTimer := some 6
  ackTimer := some 2
  foregroundTurnStartedAt := some 0
  foregroundScheduleGeneration := 5
  timers := [(2, .ack), (5, .foregroundFrame 5), (6, .foregroundFallback 5)]
  nextHandle := 7
  enqueued := 9

theorem runFrom_splitRun :
    drainSystem.runFrom {} splitRun = some splitRunEnd := by
  decide +kernel

theorem accepted_writes_exact : splitRunEnd.Exact := by
  refine (drain_exact_iff runFrom_splitRun rfl).mpr ?_
  apply drainSystem.along_of_forall
  intro event hevent d outcome houtcome payload next jobs _
  simp only [splitRun, List.mem_cons, List.not_mem_nil, or_false] at hevent
  rcases hevent with rfl | rfl | rfl | rfl | rfl | rfl | rfl | rfl | rfl |
    rfl | rfl <;> cases houtcome <;> exact .inl rfl

end NiceTerm.Drain
