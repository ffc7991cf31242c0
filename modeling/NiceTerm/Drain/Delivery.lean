/-
What the drain delivers.  The payloads whose turn to be written has come are,
joined, a beginning of the enqueued texts, and no payload begins or ends
between the units of a surrogate pair of one enqueued text.
-/
import NiceTerm.Lib.Pieces
import NiceTerm.Drain.Accounting
import NiceTerm.Drain.Snapshot

namespace NiceTerm.Drain

open JsString List Option Pieces Transition

def SurrogatePair (high low : UInt16) : Prop :=
  (isHighSurrogate high && isLowSurrogate low) = true

theorem not_bonded_of_uncut {front back : JsStr} (h : Uncut front back) :
    ¬ Bonded SurrogatePair front back := by
  rintro ⟨high, hhigh, low, hlow, hpair⟩
  rw [SurrogatePair, h high hhigh low hlow] at hpair
  exact Bool.false_ne_true hpair

theorem utf8Size_of_high {unit : UInt16} (h : isHighSurrogate unit = true) :
    utf8Size unit.toNat = 3 := by
  simp only [isHighSurrogate, Bool.and_eq_true, decide_eq_true_eq] at h
  rw [utf8Size, if_neg (by omega), if_neg (by omega), if_pos (by omega)]

/-- Lone surrogates that meet take fewer bytes than apart. -/
theorem utf8Length_append_le (front back : JsStr) :
    utf8Length (front ++ back) ≤ utf8Length front + utf8Length back := by
  match front with
  | [] => simp [utf8Length]
  | [unit] =>
    cases back with
    | nil => simp [utf8Length]
    | cons low rest =>
      by_cases hpair : (isHighSurrogate unit && isLowSurrogate low) = true
      · have hsize := utf8Size_of_high (Bool.and_eq_true_iff.mp hpair).1
        have hlow : isHighSurrogate low = false := by
          by_contra hhigh
          have hnot := not_low_of_high ((Bool.not_eq_false _).mp hhigh)
          rw [(Bool.and_eq_true_iff.mp hpair).2] at hnot
          cases hnot
        have hpos := utf8Size_pos low.toNat
        have hrest := utf8Length_cons hlow rest
        simp only [cons_append, nil_append, utf8Length, hpair,
          if_true, hsize]
        omega
      · simp [utf8Length, hpair]
  | high :: low :: rest =>
    by_cases hpair : (isHighSurrogate high && isLowSurrogate low) = true
    · have ih := utf8Length_append_le rest back
      simp only [cons_append, utf8Length, hpair, if_true]
      omega
    · have ih := utf8Length_append_le (low :: rest) back
      simp only [cons_append] at ih
      simp only [cons_append, utf8Length, hpair, if_false, Bool.false_eq_true]
      omega

/-- What the loop of a dequeue takes off the queue. -/
structure LoopTakes (queue : OutputQueue) (remaining : Nat)
    (new : List JsStr) (taken : Nat) (left : OutputQueue) : Prop where
  remains : Remains SurrogatePair (texts queue.chunks) new.flatten
    (texts left.chunks)
  size : utf8Length new.flatten ≤ taken
  most : taken ≤ remaining + 3
  none : remaining = 0 → taken = 0
  least : remaining ≤ taken ∨ left.chunks = []
  whole : (∀ chunk ∈ queue.chunks, isWellFormed chunk.data = true) →
    ∀ chunk ∈ left.chunks, isWellFormed chunk.data = true

theorem LoopTakes.cons {queue next left : OutputQueue}
    {remaining bytes taken : Nat} {head : JsStr} {new : List JsStr}
    (hremains : Remains SurrogatePair (texts queue.chunks) head
      (texts next.chunks))
    (hsize : utf8Length head = bytes) (hroom : remaining ≠ 0)
    (hmost : bytes ≤ remaining + 3)
    (hwhole : (∀ chunk ∈ queue.chunks, isWellFormed chunk.data = true) →
      ∀ chunk ∈ next.chunks, isWellFormed chunk.data = true)
    (h : LoopTakes next (remaining - bytes) new taken left) :
    LoopTakes queue remaining (head :: new) (bytes + taken) left where
  remains := hremains.trans h.remains
  size := by
    have happend := utf8Length_append_le head new.flatten
    have hnew := h.size
    rw [flatten_cons]
    omega
  most := by
    have hnew := h.most
    have hnone := h.none
    omega
  none hzero := absurd hzero hroom
  least := h.least.imp_left fun hleast => by omega
  whole hchunks := h.whole (hwhole hchunks)

theorem LoopTakes.stop {queue : OutputQueue} {remaining : Nat}
    (h : remaining = 0 ∨ queue.chunks = []) :
    LoopTakes queue remaining [] 0 queue where
  remains := .refl _
  size := Nat.le_refl 0
  most := Nat.zero_le _
  none _ := rfl
  least := h.imp_left Nat.le_of_eq
  whole hchunks := hchunks

variable {queue : OutputQueue}

theorem dequeueLoop_takes_spec (h : queue.Counted)
    (remaining : Nat) (parts : List JsStr) (bytes : Nat) :
    ∃ new taken, (dequeueLoop queue remaining parts bytes).1 =
        (parts ++ new, bytes + taken) ∧
      LoopTakes queue remaining new taken
        (dequeueLoop queue remaining parts bytes).2 := by
  fun_induction dequeueLoop queue remaining parts bytes with
  | case1 queue parts bytes =>
    refine ⟨[], 0, ?_, LoopTakes.stop (.inl rfl)⟩
    rw [append_nil, Nat.add_zero]
  | case2 queue remaining parts bytes hroom hpeek =>
    refine ⟨[], 0, ?_, LoopTakes.stop (.inr ?_)⟩
    · rw [append_nil, Nat.add_zero]
    · exact head?_eq_none_iff.mp hpeek
  | case3 queue remaining parts bytes hroom chunk hpeek hfits ih =>
    obtain ⟨hcounted, -⟩ := h.shift hpeek
    obtain ⟨new, taken, hresult, htakes⟩ := ih hcounted
    obtain ⟨rest, hchunks⟩ := head?_eq_some_iff.mp hpeek
    have hnext : (shiftOutputQueue queue).chunks = rest := by
      simp only [shiftOutputQueue, hchunks]
    have hsized : chunk.Sized := h.sized chunk (mem_of_mem_head? hpeek)
    refine ⟨chunk.data :: new, chunk.bytes + taken, ?_, ?_⟩
    · rw [hresult, append_assoc, Nat.add_assoc]
      rfl
    · refine htakes.cons ?_ hsized.symm hroom (by omega) fun hall other => ?_
      · rw [hchunks, hnext]
        exact .shift _ _
      · rw [hnext]
        rw [hchunks] at hall
        exact fun hmem => hall other (mem_cons_of_mem chunk hmem)
  | case4 queue remaining parts bytes hroom chunk hpeek hsplit head tail ih =>
    have hsized : chunk.Sized := h.sized chunk (mem_of_mem_head? hpeek)
    obtain ⟨hparts, htail⟩ := splitOutputChunk_sized hsized remaining
    obtain ⟨hcounted, -⟩ := h.replaceHead hpeek hparts htail
    obtain ⟨new, taken, hresult, htakes⟩ := ih hcounted
    obtain ⟨rest, hchunks⟩ := head?_eq_some_iff.mp hpeek
    obtain ⟨hcut, hheadSized, -⟩ :=
      splitOutputChunk_cuts hsized (Nat.not_le.mp hsplit)
    have hnext : (replaceOutputQueueHead queue tail).chunks =
        tail :: rest := by
      simp only [replaceOutputQueueHead, hchunks]
    refine ⟨head.data :: new, head.bytes + taken, ?_, ?_⟩
    · rw [hresult, append_assoc, Nat.add_assoc]
      rfl
    · have hle : head.bytes ≤ remaining + 3 := by
        have hbytes : head.bytes = utf8Length head.data := hheadSized
        rw [hbytes]
        exact hcut.le (Nat.pos_of_ne_zero hroom)
      refine htakes.cons ?_ hheadSized.symm hroom hle fun hall other => ?_
      · change Remains _ (texts queue.chunks) _
          (texts (replaceOutputQueueHead queue tail).chunks)
        rw [hchunks, hnext]
        change Remains _ (chunk.data :: texts rest) _ _
        rw [hcut.joined]
        exact .cut (not_bonded_of_uncut hcut.uncut) _
      · change other ∈ (replaceOutputQueueHead queue tail).chunks → _
        rw [hnext]
        rw [hchunks] at hall
        intro hmem
        rcases mem_cons.mp hmem with rfl | hmem
        · have hchunk := hall chunk mem_cons_self
          rw [hcut.joined] at hchunk
          exact (isWellFormed_of_uncut hcut.uncut hchunk).2
        · exact hall other (mem_cons_of_mem chunk hmem)

/-- What a dequeue takes off the queue: as much as the budget allows, or all
there is. -/
structure Dequeues (queue : OutputQueue) (maxBytes : Nat)
    (payload : QueuedOutputChunk) (left : OutputQueue) : Prop where
  remains : Remains SurrogatePair (texts queue.chunks) payload.data
    (texts left.chunks)
  size : utf8Length payload.data ≤ payload.bytes
  most : payload.bytes ≤ maxBytes + 3
  least : maxBytes ≤ payload.bytes ∨ left.chunks = []
  counted : left.Counted
  bytes : payload.bytes + left.bytes = queue.bytes
  whole : (∀ chunk ∈ queue.chunks, isWellFormed chunk.data = true) →
    ∀ chunk ∈ left.chunks, isWellFormed chunk.data = true

theorem dequeueOutputChunk_dequeues {left : OutputQueue}
    (h : queue.Counted) {maxBytes : Nat} {payload : QueuedOutputChunk}
    (hdequeue : dequeueOutputChunk queue maxBytes = (some payload, left)) :
    Dequeues queue maxBytes payload left := by
  by_cases hnone : maxBytes = 0 ∨ hasOutputQueueItems queue = false
  · rw [dequeueOutputChunk_of_none hnone] at hdequeue
    exact absurd (congrArg Prod.fst hdequeue).symm (some_ne_none _)
  · obtain ⟨hroom, hitems⟩ := not_or.mp hnone
    have hcounted := dequeueOutputChunk_counted h maxBytes
    rw [hdequeue] at hcounted
    rw [dequeueOutputChunk_of_items hroom (Bool.of_not_eq_false hitems)]
      at hdequeue
    obtain ⟨new, taken, hresult, htakes⟩ :=
      dequeueLoop_takes_spec h maxBytes [] 0
    obtain ⟨hpayload, rfl⟩ := Prod.mk.inj hdequeue
    obtain rfl := some.inj hpayload
    rw [hresult, nil_append, Nat.zero_add] at hcounted ⊢
    exact ⟨htakes.remains, htakes.size, htakes.most, htakes.least, hcounted.1,
      hcounted.2, htakes.whole⟩

/-- A budget is used up, or the queue is. -/
theorem Dequeues.progress {left : OutputQueue} {maxBytes : Nat}
    {payload : QueuedOutputChunk} (h : Dequeues queue maxBytes payload left)
    (hbudget : 0 < maxBytes) : 0 < payload.bytes ∨ left.chunks = [] :=
  h.least.imp_left (Nat.lt_of_lt_of_le hbudget)

/-- The text of a payload whose turn to be written has not come. -/
def WriteJob.waitingText (job : WriteJob) : Option JsStr :=
  match job.task, job.phase with
  | .payload payload _, .waiting => some payload.data
  | _, _ => none

namespace TerminalOutputDrain

variable {d : TerminalOutputDrain} {answers : Answers}

def waiting (d : TerminalOutputDrain) : List JsStr :=
  d.writeQueue.filterMap WriteJob.waitingText

/-- At most one dequeue: its payload is put behind those that wait. -/
def Takes (before after : TerminalOutputDrain) : Prop :=
  after.queue = before.queue ∧ after.waiting = before.waiting ∨
  ∃ maxBytes payload, dequeueOutputChunk before.queue maxBytes =
      (some payload, after.queue) ∧
    after.waiting = before.waiting ++ [payload.data]

/-- Neither the queue nor the writes change. -/
def SameLine (before after : TerminalOutputDrain) : Prop :=
  after.queue = before.queue ∧ after.waiting = before.waiting

theorem SameLine.trans {first second third : TerminalOutputDrain}
    (h : SameLine first second) (h' : SameLine second third) :
    SameLine first third :=
  ⟨h'.1.trans h.1, h'.2.trans h.2⟩

theorem SameLine.then {first second third : TerminalOutputDrain}
    (h : SameLine first second) (h' : Takes second third) :
    Takes first third := by
  obtain ⟨hqueue, hwaiting⟩ := h
  unfold Takes at h' ⊢
  rw [hqueue, hwaiting] at h'
  exact h'

variable {before after : TerminalOutputDrain}

theorem SameLine.takes (h : SameLine before after) : Takes before after :=
  .inl h

theorem sameLine_of_books
    (h : after.books = before.books) : SameLine before after := by
  have hjobs : after.writeQueue = before.writeQueue :=
    congrArg Books.writeQueue h
  refine ⟨congrArg Books.queue h, ?_⟩
  rw [waiting, hjobs]
  rfl

theorem sendAck_sameLine (bytes : Nat) : SameLine d (d.sendAck bytes) := by
  unfold sendAck
  simp only
  split_ifs
  · exact ⟨rfl, rfl⟩
  · exact ⟨rfl, rfl⟩

theorem flushPendingAck_sameLine (force : Bool) :
    SameLine d (d.flushPendingAck force) := by
  have hclear : SameLine d d.clearAckTimer :=
    sameLine_of_books clearAckTimer_books
  unfold flushPendingAck
  split_ifs
  · exact hclear
  · exact ⟨rfl, rfl⟩
  · exact sameLine_of_books scheduleAckFlush_books
  · exact hclear.trans (sendAck_sameLine _)

theorem schedule_sameLine : SameLine d (d.schedule answers) := by
  unfold schedule
  split_ifs
  · exact ⟨rfl, rfl⟩
  · exact flushPendingAck_sameLine
      (d := { d with foregroundTurnStartedAt := none }) true
  · exact ⟨rfl, rfl⟩
  · exact sameLine_of_books scheduleBackground_books
  · exact sameLine_of_books scheduleForeground_books

theorem writePayload_takes {maxBytes : Nat} {payload : QueuedOutputChunk}
    {queue : OutputQueue} (next : Continuation)
    (hdequeue : dequeueOutputChunk d.queue maxBytes = (some payload, queue)) :
    Takes d (writePayload payload next { d with queue }) := by
  refine .inr ⟨maxBytes, payload, hdequeue, ?_⟩
  change (d.writeQueue ++ [_]).filterMap _ = _
  rw [filterMap_append]
  rfl

theorem dequeue_none_sameLine {maxBytes : Nat} {queue : OutputQueue}
    (hdequeue : dequeueOutputChunk d.queue maxBytes = (none, queue)) :
    SameLine d { d with queue } :=
  ⟨dequeueOutputChunk_eq_none hdequeue, rfl⟩

theorem flushOne_takes (maxBytes : Nat) :
    Takes d (d.flushOne answers maxBytes) := by
  unfold flushOne
  split_ifs
  · exact schedule_sameLine.takes
  · split
    · next queue hdequeue =>
        exact ((dequeue_none_sameLine hdequeue).trans
          (flushPendingAck_sameLine true)).takes
    · next payload queue hdequeue => exact writePayload_takes _ hdequeue

theorem flushForeground_takes : Takes d (d.flushForeground answers) := by
  unfold flushForeground
  split_ifs
  · exact schedule_sameLine.takes
  · exact flushOne_takes (d := { d with foregroundTurnStartedAt := _ }) _

theorem flushBackground_takes : Takes d (d.flushBackground answers) := by
  unfold flushBackground
  split_ifs
  · exact schedule_sameLine.takes
  · exact flushOne_takes (d := d.resolveBackgroundSchedule) _

theorem pollRest_sameLine (deadline : Nat) :
    SameLine d (d.pollRest deadline) := by
  unfold pollRest
  split_ifs
  · exact ⟨rfl, rfl⟩
  · exact flushPendingAck_sameLine true

theorem poll_takes (deadline : Nat) : Takes d (d.poll answers deadline) := by
  unfold poll
  split_ifs
  · exact .inl ⟨rfl, rfl⟩
  · exact .inl ⟨rfl, rfl⟩
  · split
    · next payload queue hdequeue => exact writePayload_takes _ hdequeue
    · next queue hdequeue =>
        exact ((dequeue_none_sameLine hdequeue).trans
          (pollRest_sameLine deadline)).takes
  · exact (pollRest_sameLine deadline).takes

theorem waitForIdle_takes (timeoutMs : Nat) :
    Takes d (d.waitForIdle answers timeoutMs) :=
  (sameLine_of_books
    (cancelBackground_books.trans cancelForeground_books)).then (poll_takes _)

theorem setMode_sameLine (mode : TerminalOutputDrainMode) :
    SameLine d (d.setMode answers mode) := by
  by_cases hdisposed : d.disposed = true
  · rw [setMode, if_pos hdisposed]
    exact ⟨rfl, rfl⟩
  · by_cases hmode : d.mode = mode
    · rw [setMode, if_neg hdisposed, if_pos hmode]
      exact schedule_sameLine
    · rw [setMode, if_neg hdisposed, if_neg hmode]
      refine SameLine.trans (sameLine_of_books ?_) schedule_sameLine
      simp only
      split_ifs
      · exact cancelBackground_books.trans cancelForeground_books
      · exact cancelBackground_books
      · exact cancelForeground_books
      · rfl

theorem completeWrite_sameLine (payload : QueuedOutputChunk) :
    SameLine d (d.completeWrite payload) :=
  flushPendingAck_sameLine (d := { d with
    writingBytes := d.writingBytes - payload.bytes
    pendingAckBytes := d.pendingAckBytes + payload.bytes
    writeInFlight := false }) _

/-- The head of the chain is no waiting payload, before and after. -/
theorem sameLine_of_cons {job : WriteJob} {jobs : List WriteJob}
    (hjobs : before.writeQueue = job :: jobs) (hjob : job.waitingText = none)
    (hafter : after.waiting = jobs.filterMap WriteJob.waitingText)
    (hqueue : after.queue = before.queue) : SameLine before after := by
  refine ⟨hqueue, ?_⟩
  rw [hafter, waiting, hjobs, filterMap_cons_none hjob]

theorem finishWrite_sameLine {next : TerminalOutputDrain}
    (h : d.finishWrite = some next) : SameLine d next := by
  unfold finishWrite at h
  split at h
  · next payload continuation jobs hjobs =>
      rw [← some.inj h]
      have hsettled : SameLine d { d with
          writeQueue := ⟨.payload payload continuation, .settled⟩ :: jobs } :=
        sameLine_of_cons hjobs rfl rfl rfl
      exact hsettled.trans (completeWrite_sameLine payload)
  · next jobs hjobs =>
      rw [← some.inj h]
      exact sameLine_of_cons hjobs rfl rfl rfl
  · exact absurd h (by simp)

theorem settleWrite_takes {next : TerminalOutputDrain}
    (h : d.settleWrite answers = some next) : Takes d next := by
  have hdrop : ∀ job jobs, d.writeQueue = job :: jobs →
      job.waitingText = none → SameLine d { d with writeQueue := jobs } :=
    fun job jobs hjobs hjob => sameLine_of_cons hjobs hjob rfl rfl
  unfold settleWrite at h
  split at h
  · next hjobs =>
      rw [← some.inj h]
      exact ((hdrop _ _ hjobs rfl).trans schedule_sameLine).takes
  · next hjobs =>
      rw [← some.inj h]
      exact ((hdrop _ _ hjobs rfl).trans (flushPendingAck_sameLine true)).then
        (poll_takes _)
  · next hjobs => exact some.inj h ▸ (hdrop _ _ hjobs rfl).takes
  · exact absurd h (by simp)

theorem claimAndFlush_takes (generation : Nat) :
    Takes d (d.claimAndFlush answers generation) := by
  unfold claimAndFlush
  split_ifs
  · exact .inl ⟨rfl, rfl⟩
  · exact (sameLine_of_books clearForegroundSchedulers_books).then
      (flushForeground_takes (d := { d.clearForegroundSchedulers with
        foregroundScheduleGeneration := _
        foregroundTurnStartedAt := none }))

theorem runTimer_takes (callback : TimerCallback) :
    Takes d (d.runTimer answers callback) := by
  cases callback with
  | foregroundDelay =>
    exact flushForeground_takes (d := { d with
      foregroundTimer := none, foregroundTurnStartedAt := none })
  | foregroundFrame generation => exact claimAndFlush_takes generation
  | foregroundFallback generation => exact claimAndFlush_takes generation
  | background =>
    exact flushBackground_takes (d := { d with
      backgroundTimer := none, backgroundTimerCatchUp := none })
  | ack =>
    exact (flushPendingAck_sameLine (d := { d with ackTimer := none })
      true).takes
  | poll deadline => exact poll_takes deadline

theorem fireTimer_takes {index : Nat} {next : TerminalOutputDrain}
    (h : d.fireTimer answers index = some next) : Takes d next := by
  unfold fireTimer at h
  split at h
  · exact absurd h (by simp)
  · next callback htimer =>
      rw [← some.inj h]
      have hfired : SameLine d { d with timers := d.timers.eraseIdx index } :=
        ⟨rfl, rfl⟩
      exact hfired.then (runTimer_takes callback)

theorem runMicrotask_takes {next : TerminalOutputDrain}
    (h : d.runMicrotask answers = some next) : Takes d next := by
  unfold runMicrotask at h
  split_ifs at h
  exact some.inj h ▸ flushForeground_takes (d := { d with
    microtasks := d.microtasks - 1, microtaskPending := false })

end TerminalOutputDrain

open TerminalOutputDrain

/-- The text a callback puts into the drain. -/
def offered : Action → List JsStr
  | .enqueue chunk => [chunk.data]
  | _ => []

/-- The payload whose turn to be written comes, and how it goes. -/
def turn (d : TerminalOutputDrain) : Action → List (WriteOutcome × JsStr)
  | .startWrite outcome =>
    match d.writeQueue with
    | ⟨.payload payload _, .waiting⟩ :: _ => [(outcome, payload.data)]
    | _ => []
  | _ => []

def enqueuedTexts (events : List (Answers × Action)) : List JsStr :=
  events.flatMap fun event => offered event.2

/-- The turns of a run, in order. -/
def turns (d : TerminalOutputDrain) :
    List (Answers × Action) → List (WriteOutcome × JsStr)
  | [] => []
  | event :: rest =>
    turn d event.2 ++ (drainStep d event).elim [] fun next => turns next rest

def turnTexts (d : TerminalOutputDrain) (events : List (Answers × Action)) :
    List JsStr :=
  (turns d events).map Prod.snd

/-- The texts passed to `terminal.write`: a payload is, unless it finds no
terminal. -/
def written (d : TerminalOutputDrain) (events : List (Answers × Action)) :
    List JsStr :=
  ((turns d events).filter fun turn => turn.1 != .noTerminal).map Prod.snd

/-- What was put into a live drain is taken off it in order. -/
structure Delivery (enqueued taken : List JsStr) (d : TerminalOutputDrain) :
    Prop where
  counted : d.queue.Counted
  remains : Remains SurrogatePair enqueued (taken ++ d.waiting).flatten
    (texts d.queue.chunks)
  uncut : ∀ done, done <+: taken ++ d.waiting →
    ¬ Splits SurrogatePair enqueued done.flatten
  whole : (∀ text ∈ enqueued, isWellFormed text = true) →
    ∀ chunk ∈ d.queue.chunks, isWellFormed chunk.data = true

theorem delivery_initial : Delivery [] [] {} where
  counted := counted_empty
  remains := .refl []
  uncut := by
    rintro done hdone ⟨before, part, rest, after, htexts, -⟩
    exact absurd htexts.symm (by simp)
  whole _ _ hmem := absurd hmem not_mem_nil

variable {d next : TerminalOutputDrain} {enqueued taken : List JsStr}

section

variable (h : Delivery enqueued taken d)
include h

theorem Delivery.of_sameLine
    (hsame : SameLine d next) : Delivery enqueued taken next := by
  obtain ⟨hqueue, hwaiting⟩ := hsame
  constructor
  · exact hqueue ▸ h.counted
  · rw [hwaiting, hqueue]
    exact h.remains
  · rw [hwaiting]
    exact h.uncut
  · rw [hqueue]
    exact h.whole

theorem Delivery.takes
    (htakes : Takes d next) : Delivery enqueued taken next := by
  rcases htakes with hsame | ⟨maxBytes, payload, hdequeue, hwaiting⟩
  · exact h.of_sameLine hsame
  · have hdequeues := dequeueOutputChunk_dequeues h.counted hdequeue
    have hremains : Remains SurrogatePair enqueued
        (taken ++ next.waiting).flatten (texts next.queue.chunks) := by
      rw [hwaiting, ← append_assoc, flatten_append, flatten_singleton]
      exact h.remains.trans hdequeues.remains
    refine ⟨hdequeues.counted, hremains, fun done hdone => ?_,
      fun hall => hdequeues.whole (h.whole hall)⟩
    rw [hwaiting, ← append_assoc, prefix_concat_iff] at hdone
    rcases hdone with hlast | hbefore
    · rw [hlast, append_assoc, ← hwaiting]
      exact hremains.not_splits
    · exact h.uncut done hbefore

theorem Delivery.enqueue (answers : Answers)
    (chunk : SizedChunk) (hlive : d.disposed = false) :
    Delivery (enqueued ++ [chunk.data]) taken
      (d.enqueue answers chunk.toQueuedOutputChunk) := by
  have huncut : ∀ done, done <+: taken ++ d.waiting →
      ¬ Splits SurrogatePair (enqueued ++ [chunk.data]) done.flatten := by
    intro done hdone
    refine not_splits_concat (h.uncut done hdone) ?_ _
    obtain ⟨later, hlater⟩ := hdone
    refine IsPrefix.trans ?_ h.remains.isPrefix
    rw [← hlater, flatten_append]
    exact prefix_append _ _
  have hwhole : (∀ text ∈ enqueued ++ [chunk.data],
      isWellFormed text = true) → ∀ other ∈ d.queue.chunks,
        isWellFormed other.data = true :=
    fun hall => h.whole fun text hmem => hall text (mem_append_left _ hmem)
  unfold TerminalOutputDrain.enqueue
  rw [hlive, Bool.false_or]
  split_ifs with hempty
  · have hnil : chunk.data = [] := by
      rw [Bool.or_eq_true, beq_iff_eq, List.isEmpty_iff] at hempty
      rcases hempty with hzero | hnil
      · by_contra hne
        have hpos := utf8Length_pos hne
        have hsized : chunk.bytes = utf8Length chunk.data := chunk.sized
        omega
      · exact hnil
    refine ⟨h.counted, ?_, huncut, hwhole⟩
    rw [hnil]
    exact h.remains.push_nil
  · refine Delivery.of_sameLine ?_ schedule_sameLine
    refine ⟨h.counted.push chunk.sized, ?_, huncut, fun hall other hmem => ?_⟩
    · change Remains _ _ _ (texts (d.queue.chunks ++ [_]))
      rw [texts, map_append]
      exact h.remains.push _
    · rcases mem_append.mp hmem with hold | hnew
      · exact hwhole hall other hold
      · rw [mem_singleton.mp hnew]
        exact hall _ (mem_append_right _ (mem_singleton_self _))

theorem Delivery.startWrite
    {outcome : WriteOutcome} (hstep : d.startWrite outcome = some next) :
    Delivery enqueued
      (taken ++ (turn d (.startWrite outcome)).map Prod.snd) next := by
  unfold TerminalOutputDrain.startWrite at hstep
  unfold turn
  split at hstep
  · next payload continuation jobs hjobs =>
      have hwaiting : d.waiting =
          payload.data :: jobs.filterMap WriteJob.waitingText := by
        rw [waiting, hjobs]
        rfl
      have hnext : next.queue = d.queue ∧
          next.waiting = jobs.filterMap WriteJob.waitingText := by
        cases outcome with
        | accepts => exact some.inj hstep ▸ ⟨rfl, rfl⟩
        | noTerminal => exact some.inj hstep ▸ ⟨rfl, rfl⟩
        | throws => exact some.inj hstep ▸ ⟨rfl, rfl⟩
      have hline : taken ++ [payload.data] ++ next.waiting =
          taken ++ d.waiting := by
        rw [hnext.2, hwaiting, append_assoc]
        rfl
      simp only [hjobs, map_cons, map_nil]
      refine ⟨hnext.1 ▸ h.counted, ?_, ?_, hnext.1 ▸ h.whole⟩
      · rw [hline, hnext.1]
        exact h.remains
      · rw [hline]
        exact h.uncut
  · next jobs hjobs =>
      simp only [hjobs, map_nil, append_nil]
      exact h.of_sameLine (some.inj hstep ▸ sameLine_of_cons hjobs rfl rfl rfl)
  · exact absurd hstep (by simp)

theorem drainStep_delivery
    {event : Answers × Action} (hstep : drainStep d event = some next)
    (hnot : ∀ ackRemaining, event.2 ≠ .dispose ackRemaining) :
    Delivery (enqueued ++ offered event.2)
      (taken ++ (turn d event.2).map Prod.snd) next := by
  have hd := live_of_step hstep
  obtain ⟨answers, action⟩ := event
  unfold drainStep at hstep
  rw [hd, if_neg Bool.false_ne_true] at hstep
  have hother : ∀ {after}, offered action = [] → turn d action = [] →
      Takes d after → Delivery (enqueued ++ offered action)
        (taken ++ (turn d action).map Prod.snd) after := by
    intro after hoffered hturn htakes
    rw [hoffered, hturn, map_nil, append_nil, append_nil]
    exact h.takes htakes
  cases action with
  | enqueue chunk =>
    obtain rfl := some.inj hstep
    change Delivery (enqueued ++ [chunk.data]) (taken ++ []) _
    rw [append_nil]
    exact h.enqueue answers chunk hd
  | setMode mode =>
    exact hother rfl rfl (some.inj hstep ▸ (setMode_sameLine _).takes)
  | waitForIdle timeoutMs =>
    exact hother rfl rfl (some.inj hstep ▸ waitForIdle_takes _)
  | writeExternal =>
    refine hother rfl rfl (some.inj hstep ▸ .inl ⟨rfl, ?_⟩)
    change (d.writeQueue ++ [_]).filterMap _ = _
    rw [filterMap_append]
    exact append_nil _
  | dispose ackRemaining => exact absurd rfl (hnot ackRemaining)
  | timer index => exact hother rfl rfl (fireTimer_takes hstep)
  | microtask => exact hother rfl rfl (runMicrotask_takes hstep)
  | startWrite outcome =>
    change Delivery (enqueued ++ []) _ _
    rw [append_nil]
    exact h.startWrite hstep
  | finishWrite => exact hother rfl rfl (finishWrite_sameLine hstep).takes
  | settleWrite => exact hother rfl rfl (settleWrite_takes hstep)

end

/-- What a run has delivered of what was put in. -/
structure Delivered (enqueued taken : List JsStr) (d : TerminalOutputDrain) :
    Prop where
  ordered : taken.flatten <+: enqueued.flatten
  uncut : ∀ done, done <+: taken → ¬ Splits SurrogatePair enqueued done.flatten
  kept : d.disposed = false →
    (taken ++ d.waiting ++ texts d.queue.chunks).flatten = enqueued.flatten
  dequeues : ∀ maxBytes, 0 < maxBytes → hasOutputQueueItems d.queue = true →
    ∃ payload left,
      dequeueOutputChunk d.queue maxBytes = (some payload, left) ∧
        Dequeues d.queue maxBytes payload left ∧
          (0 < payload.bytes ∨ left.chunks = [])
  counter : d.queue.bytes = total utf8Length (texts d.queue.chunks)
  counter_whole : (∀ text ∈ enqueued, isWellFormed text = true) →
    d.queue.bytes = utf8Length (textOf d.queue.chunks)

theorem OutputQueue.Counted.texts {queue : OutputQueue} (h : queue.Counted) :
    queue.bytes = total utf8Length (texts queue.chunks) := by
  obtain ⟨hsized, hbytes⟩ := h
  rw [hbytes]
  generalize queue.chunks = chunks at hsized
  induction chunks with
  | nil => rfl
  | cons chunk rest ih =>
    have hchunk : chunk.bytes = utf8Length chunk.data :=
      hsized chunk mem_cons_self
    have hrest := ih fun other hmem =>
      hsized other (mem_cons_of_mem chunk hmem)
    rw [total, hchunk, hrest]
    rfl

theorem OutputQueue.Counted.dequeues (h : queue.Counted) {maxBytes : Nat}
    (hbudget : 0 < maxBytes) (hitems : hasOutputQueueItems queue = true) :
    ∃ payload left, dequeueOutputChunk queue maxBytes = (some payload, left) ∧
      Dequeues queue maxBytes payload left ∧
        (0 < payload.bytes ∨ left.chunks = []) := by
  have hdequeue := dequeueOutputChunk_of_items
    (Nat.pos_iff_ne_zero.mp hbudget) hitems
  have hdequeues := dequeueOutputChunk_dequeues h hdequeue
  exact ⟨_, _, hdequeue, hdequeues, hdequeues.progress hbudget⟩

theorem Delivery.delivered (h : Delivery enqueued taken d) :
    Delivered enqueued taken d where
  ordered := by
    refine IsPrefix.trans ?_ h.remains.isPrefix
    rw [flatten_append]
    exact prefix_append _ _
  uncut done hdone := h.uncut done (hdone.trans (prefix_append _ _))
  kept _ := by
    rw [flatten_append]
    exact h.remains.joined
  dequeues _ hbudget hitems := h.counted.dequeues hbudget hitems
  counter := h.counted.texts
  counter_whole hall := by
    have htext := (Whole.mk h.counted.sized (h.whole hall)).text
    rw [htext.2]
    exact h.counted.bytes

theorem Delivery.dispose (h : Delivery enqueued taken d)
    (hdisposed : next.disposed = true) (hqueue : next.queue = {}) :
    Delivered enqueued taken next := by
  have hbefore := h.delivered
  refine ⟨hbefore.ordered, hbefore.uncut, fun hlive => ?_,
    fun _ _ hitems => ?_, ?_, fun _ => ?_⟩
  · rw [hdisposed] at hlive
    cases hlive
  · rw [hqueue] at hitems
    cases hitems
  · rw [hqueue]
    rfl
  · rw [hqueue]
    rfl

theorem dispose_queue (hlive : d.disposed = false) (ackRemaining : Bool) :
    (d.dispose ackRemaining).queue = {} := by
  have hopen : ¬ d.disposed = true := by simp [hlive]
  rw [TerminalOutputDrain.dispose, if_neg hopen]

theorem run_delivers {events : List (Answers × Action)}
    (h : Delivery enqueued taken d)
    (hrun : drainSystem.runFrom d events = some next) :
    Delivered (enqueued ++ enqueuedTexts events)
      (taken ++ turnTexts d events) next := by
  induction events generalizing d enqueued taken with
  | nil =>
    rw [← some.inj hrun]
    change Delivered (enqueued ++ []) (taken ++ []) d
    rw [append_nil, append_nil]
    exact h.delivered
  | cons event rest ih =>
    obtain ⟨middle, hstep, hrest⟩ := drainSystem.runFrom_cons_eq_some.mp hrun
    have hevents : enqueuedTexts (event :: rest) =
        offered event.2 ++ enqueuedTexts rest := rfl
    have hturns : turnTexts d (event :: rest) =
        (turn d event.2).map Prod.snd ++ turnTexts middle rest := by
      have hsome : drainStep d event = some middle := hstep
      rw [turnTexts, turns, hsome, map_append]
      rfl
    rw [hevents, hturns, ← append_assoc, ← append_assoc]
    by_cases hdispose : ∃ ackRemaining, event.2 = .dispose ackRemaining
    · -- nothing runs after a disposal
      obtain ⟨ackRemaining, haction⟩ := hdispose
      have hd := live_of_step hstep
      have hmiddle : middle = d.dispose ackRemaining := by
        change drainStep d event = some middle at hstep
        rw [drainStep, hd, if_neg Bool.false_ne_true, haction] at hstep
        exact (some.inj hstep).symm
      have hdisposed := dispose_disposed (d := d) ackRemaining
      rw [← hmiddle] at hdisposed
      cases rest with
      | nil =>
        rw [← some.inj hrest, haction]
        change Delivered (enqueued ++ [] ++ []) (taken ++ [] ++ []) middle
        simp only [append_nil]
        refine h.dispose hdisposed ?_
        rw [hmiddle]
        exact dispose_queue hd ackRemaining
      | cons later others =>
        obtain ⟨_, hlater, -⟩ :=
          drainSystem.runFrom_cons_eq_some.mp hrest
        rw [live_of_step hlater] at hdisposed
        cases hdisposed
    · exact ih (drainStep_delivery h hstep
        fun ackRemaining haction => hdispose ⟨ackRemaining, haction⟩) hrest

/-- Whatever the order of the callbacks and the budgets, the payloads whose
turn to be written comes are a beginning of what was enqueued; all of them are
passed to the terminal, unless one finds none. -/
theorem drain_delivers {events : List (Answers × Action)}
    {d : TerminalOutputDrain} (hrun : drainSystem.runFrom {} events = some d) :
    Delivered (enqueuedTexts events) (turnTexts {} events) d ∧
      ((∀ turn ∈ turns {} events, turn.1 ≠ .noTerminal) →
        written {} events = turnTexts {} events) := by
  refine ⟨run_delivers delivery_initial hrun, fun hfound => ?_⟩
  rw [written, filter_eq_self.mpr]
  · rfl
  · intro turn hmem
    exact bne_iff_ne.mpr (hfound turn hmem)

/-- A byte whose turn comes without a terminal, and another one behind it. -/
def skippedRun : List (Answers × Action) :=
  let answers : Answers := ⟨32 * 1024, 0, false, 0⟩
  [(answers, .enqueue ⟨⟨[112], 1⟩, rfl⟩), (answers, .timer 0),
    (answers, .startWrite .noTerminal), (answers, .settleWrite),
    (answers, .enqueue ⟨⟨[113], 1⟩, rfl⟩), (answers, .timer 0),
    (answers, .startWrite .accepts)]

theorem skipped_payload_missing :
    (drainSystem.runFrom {} skippedRun).isSome = true ∧
      ¬ (written {} skippedRun).flatten <+:
        (enqueuedTexts skippedRun).flatten := by
  have hwritten : written {} skippedRun = [[113]] := by decide +kernel
  refine ⟨by decide +kernel, ?_⟩
  rw [hwritten]
  decide

/-- `abé` is written first, then the two units of the emoji together. -/
theorem accepted_writes_delivered :
    Delivered (enqueuedTexts splitRun) (turnTexts {} splitRun) splitRunEnd ∧
      written {} splitRun = [[97, 98, 0xE9], [0xD83D, 0xDE00]] := by
  obtain ⟨hdelivered, hwritten⟩ := drain_delivers runFrom_splitRun
  have hturns : turns {} splitRun = [(.accepts, [97, 98, 0xE9]),
      (.accepts, [0xD83D, 0xDE00])] := by
    decide +kernel
  refine ⟨hdelivered, (hwritten fun turn hmem => ?_).trans ?_⟩
  · rw [hturns] at hmem
    simp only [mem_cons, not_mem_nil, or_false] at hmem
    rcases hmem with rfl | rfl <;> decide
  · rw [turnTexts, hturns]
    rfl

end NiceTerm.Drain
