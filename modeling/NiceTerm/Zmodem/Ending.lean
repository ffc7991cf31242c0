/-
The end of a transfer is announced exactly when it comes, if every file of an
upload can be started and nothing cancels a transfer that is over.
-/
import NiceTerm.Lib.Transition
import NiceTerm.Zmodem.Transfer

namespace NiceTerm.Zmodem

open Emitting
open ZmodemAction (terminal)
open Transition

theorem terminal_drained (outgoing : Bytes) :
    (drained outgoing).countP terminal = 0 := by
  rw [drained]
  split <;> rfl

theorem endsOnce_emitProgress {ρ : Type} (active : Active ρ)
    (bytesTransferred : Nat) (force : Bool) (now : Nat) {event : ZmodemEvent}
    (h : terminal (.emitEvent event) = false) :
    EndsOnce terminal
      (emitProgress active bytesTransferred force now event) := by
  apply endsOnce_live
  split
  · simp [h]
  · rfl

theorem endsOnce_drained {ρ : Type} (active : Active ρ) (outgoing : Bytes) :
    EndsOnce terminal (live active (drained outgoing)) :=
  endsOnce_live (terminal_drained outgoing)

theorem endsOnce_receiverEvent (active : Active Receiving)
    (event : ReceiverPoll) :
    EndsOnce terminal (receiverEvent active event) := by
  cases event with
  | fileStart fileName fileSize created now =>
    cases created with
    | ok _ => exact endsOnce_emitProgress _ 0 true now rfl
    | error error => exact endsOnce_ended rfl
  | fileComplete now =>
    refine EndsOnce.andThen ?_ fun _ => endsOnce_live rfl
    cases active.session.currentFile with
    | none => exact endsOnce_live rfl
    | some file => exact endsOnce_emitProgress _ _ true now rfl
  | sessionComplete => exact endsOnce_ended rfl

theorem endsOnce_receiverEvents (active : Active Receiving)
    (events : List ReceiverPoll) :
    EndsOnce terminal (receiverEvents active events) := by
  induction events generalizing active with
  | nil => exact endsOnce_live rfl
  | cons event rest ih => exact (endsOnce_receiverEvent active event).andThen ih

theorem endsOnce_receiveFileData (active : Active Receiving)
    (round : ReceiverRound) :
    EndsOnce terminal (receiveFileData active round) := by
  rw [receiveFileData]
  cases active.session.currentFile with
  | none => exact endsOnce_live rfl
  | some file =>
    by_cases hempty : round.fileData.isEmpty = true
    · simp only [hempty, if_true]
      exact endsOnce_live rfl
    · simp only [hempty]
      cases round.written with
      | error error => exact endsOnce_ended rfl
      | ok _ => exact endsOnce_emitProgress _ _ false round.now rfl

theorem endsOnce_feedReceiver (length : Nat) (active : Active Receiving)
    (offset : Nat) (rounds : List ReceiverRound) :
    EndsOnce terminal (feedReceiver length active offset rounds) := by
  induction rounds generalizing active offset with
  | nil => exact endsOnce_live rfl
  | cons round rest ih =>
    rw [feedReceiver]
    by_cases hend : length ≤ offset
    · rw [if_pos hend]
      exact endsOnce_live rfl
    · rw [if_neg hend]
      match round.fed with
      | .ok 0 => exact endsOnce_live rfl
      | .ok (consumed + 1) =>
        apply EndsOnce.andThen
        · exact (endsOnce_drained active round.outgoing).andThen
            fun active => endsOnce_receiverEvents active round.events
        · intro active
          exact (endsOnce_receiveFileData active round).andThen
            fun active => ih active _
      | .error error =>
        by_cases hcrc : error.isCrc = true
        · simp only [hcrc, if_true]
          exact ih active _
        · simp only [hcrc]
          exact endsOnce_ended rfl

/-- The file can be opened and described, and the sender takes it. -/
def FileStart.succeeds : FileStart → Bool
  | .started _ => true
  | _ => false

def SenderPoll.starts : SenderPoll → Bool
  | .fileComplete _ start _ => start.succeeds
  | .fileSkipped start _ => start.succeeds
  | .sessionComplete => true

section

variable (active : Active Sending)
include active

theorem endsOnce_startNext {start : FileStart} (h : start.succeeds = true)
    (now : Nat) : EndsOnce terminal (startNext active start now) := by
  apply EndsOnce.andThen
  · cases start with
    | started size => exact endsOnce_live rfl
    | openFailed error => cases h
    | metadataFailed error => cases h
    | refused error => cases h
  · intro active
    cases active.session.currentFile with
    | none => exact endsOnce_live rfl
    | some file => exact endsOnce_emitProgress _ 0 true now rfl

theorem endsOnce_advanceFile {start : FileStart} (h : start.succeeds = true)
    (now : Nat) : EndsOnce terminal (advanceFile active start now) := by
  rw [advanceFile]
  split
  · exact endsOnce_startNext _ h now
  · exact endsOnce_live rfl

theorem endsOnce_fileRequests (requests : List SenderRequest) :
    EndsOnce terminal (fileRequests active requests) := by
  induction requests generalizing active with
  | nil => exact endsOnce_live rfl
  | cons request rest ih =>
    rw [fileRequests]
    cases active.session.currentFile with
    | none => exact ih active
    | some file =>
      simp only
      split
      · exact endsOnce_live rfl
      · cases request.read with
        | none => exact endsOnce_live rfl
        | some count =>
          simp only
          split
          · exact endsOnce_live rfl
          · apply EndsOnce.andThen
            · exact (endsOnce_emitProgress _ _ false request.now
                rfl).andThen
                fun active => endsOnce_drained active request.outgoing
            · exact ih

theorem endsOnce_senderEvent {event : SenderPoll}
    (h : event.starts = true) : EndsOnce terminal (senderEvent active event) := by
  cases event with
  | fileComplete now start startedAt =>
    refine EndsOnce.andThen ?_ fun _ => endsOnce_advanceFile _ h startedAt
    cases active.session.currentFile with
    | none => exact endsOnce_live rfl
    | some file => exact endsOnce_emitProgress _ _ true now rfl
  | fileSkipped start startedAt =>
    rw [senderEvent]
    split
    · exact endsOnce_ended rfl
    · exact endsOnce_advanceFile _ h startedAt
  | sessionComplete => exact endsOnce_ended rfl

theorem endsOnce_senderEvents
    {events : List SenderPoll} (h : events.all SenderPoll.starts = true) :
    EndsOnce terminal (senderEvents active events) := by
  induction events generalizing active with
  | nil => exact endsOnce_live rfl
  | cons event rest ih =>
    rw [List.all_cons, Bool.and_eq_true] at h
    apply EndsOnce.andThen
    · exact endsOnce_senderEvent active h.1
    · intro active
      exact ih active h.2

end

theorem endsOnce_feedSender (length : Nat) (active : Active Sending)
    {answers : SenderAnswers} (h : answers.events.all SenderPoll.starts = true) :
    EndsOnce terminal (feedSender length active answers) := by
  rw [feedSender]
  cases feedData length 0 answers.fed with
  | some error => exact endsOnce_ended rfl
  | none =>
    apply EndsOnce.andThen
    · exact (endsOnce_drained active answers.outgoing).andThen
        fun active => endsOnce_fileRequests active answers.requests
    · intro active
      exact (endsOnce_senderEvents active h).andThen
        fun active => endsOnce_drained active answers.finalOutgoing

namespace ZmodemTransfer

/-- The end is announced once if the transfer is over. -/
def Announced (result : Result) : Prop :=
  result.2.countP terminal = if result.1.isDone then 1 else 0

theorem announced_store {ρ : Type} (transfer : ZmodemTransfer)
    {state : ρ → TransferState} (hstate : ∀ session, state session ≠ .done)
    {run : Step ρ} (h : EndsOnce terminal run) :
    Announced (transfer.store state run) := by
  rw [EndsOnce] at h
  rw [Announced, store]
  cases hnext : run.next with
  | none =>
    rw [hnext] at h
    exact h
  | some active =>
    rw [hnext] at h
    have hlive : (state active.session == .done) = false := by
      simpa using hstate active.session
    simpa [isDone, hlive] using h

theorem announced_feedIncoming {transfer : ZmodemTransfer}
    (hlive : transfer.isDone = false) (data : Bytes) {answers : Answers}
    (h : answers.sender.events.all SenderPoll.starts = true) :
    Announced (transfer.feedIncoming data answers) := by
  rw [feedIncoming]
  match countCancel transfer.cancelCount data with
  | (cancelCount, true) => rfl
  | (cancelCount, false) =>
    cases hstate : transfer.state with
    | waitingForUser buffered => rfl
    | receiving session =>
      exact announced_store _ (fun _ hdone => by cases hdone)
        (endsOnce_feedReceiver _ _ _ _)
    | sending session =>
      exact announced_store _ (fun _ hdone => by cases hdone)
        (endsOnce_feedSender _ _ h)
    | done => simp [isDone, hstate] at hlive

theorem terminal_drainOutgoing (transfer : ZmodemTransfer) (outgoing : Bytes) :
    (transfer.drainOutgoing outgoing).countP terminal = 0 := by
  rw [drainOutgoing]
  cases transfer.state <;> first | rfl | exact terminal_drained outgoing

theorem announced_startNextSendFile {transfer : ZmodemTransfer}
    (hlive : transfer.isDone = false) {start : FileStart}
    (h : start.succeeds = true) (now : Nat) :
    Announced (transfer.startNextSendFile start now) := by
  rw [startNextSendFile]
  cases hstate : transfer.state with
  | sending session =>
    simp only
    split
    · simp [Announced, hlive]
    · exact announced_store _ (fun _ hdone => by cases hdone)
        (endsOnce_startNext _ h now)
  | waitingForUser buffered => simp [Announced, hlive]
  | receiving session => simp [Announced, hlive]
  | done => simp [Announced, hlive]

theorem startNextSendFile_done {transfer : ZmodemTransfer}
    (hdone : transfer.isDone = true) (start : FileStart) (now : Nat) :
    transfer.startNextSendFile start now = (transfer, []) := by
  have hstate : transfer.state = .done := by simpa [isDone] using hdone
  rw [startNextSendFile, hstate]

/-- The first file of an upload, behind what has been returned before. -/
theorem Announced.startNextSendFile {fed : Result} (hfed : Announced fed)
    {front : List ZmodemAction} (hfront : front.countP terminal = 0)
    {start : FileStart} (h : start.succeeds = true) (now : Nat)
    (outgoing : Bytes) :
    Announced ((fed.1.startNextSendFile start now).1,
      front ++ fed.2 ++ (fed.1.startNextSendFile start now).2 ++
        (fed.1.startNextSendFile start now).1.drainOutgoing outgoing) := by
  rw [Announced] at hfed
  simp only [Announced, List.countP_append, terminal_drainOutgoing, hfront,
    Nat.zero_add, Nat.add_zero, hfed]
  cases hdone : fed.1.isDone with
  | true =>
    rw [startNextSendFile_done hdone]
    simp [hdone]
  | false =>
    have hstarted := announced_startNextSendFile hdone h now
    rw [Announced] at hstarted
    simpa using hstarted

end ZmodemTransfer

/-- The operations of a session on its transfer. -/
inductive Call where
  | acceptDownload (saveDir : Path) (created : Except Zmodem2Error Unit)
      (outgoing : Bytes) (answers : ZmodemTransfer.Answers)
  | acceptUpload (files : List Path) (conflictMode : ZmodemUploadConflictMode)
      (answers : ZmodemTransfer.UploadAnswers)
  | feedIncoming (data : Bytes) (answers : ZmodemTransfer.Answers)
  | cancel

def perform (transfer : ZmodemTransfer) : Call → ZmodemTransfer.Result
  | .acceptDownload saveDir created outgoing answers =>
    transfer.acceptDownload saveDir created outgoing answers
  | .acceptUpload files conflictMode answers =>
    transfer.acceptUpload files conflictMode answers
  | .feedIncoming data answers => transfer.feedIncoming data answers
  | .cancel => transfer.cancel

/-- Every file the call may start can be started. -/
def Call.starts : Call → Bool
  | .acceptDownload _ _ _ answers => answers.sender.events.all SenderPoll.starts
  | .acceptUpload _ _ answers =>
    answers.start.succeeds && answers.fed.sender.events.all SenderPoll.starts
  | .feedIncoming _ answers => answers.sender.events.all SenderPoll.starts
  | .cancel => true

open ZmodemTransfer in
/-- A call on a live transfer announces the end exactly if it comes. -/
theorem announced_perform {transfer : ZmodemTransfer}
    (hlive : transfer.isDone = false) {call : Call} (h : call.starts = true) :
    Announced (perform transfer call) := by
  cases call with
  | acceptDownload saveDir created outgoing answers =>
    rw [perform, acceptDownload]
    cases hstate : transfer.state with
    | waitingForUser buffered =>
      cases created with
      | error error => rfl
      | ok _ =>
        have hlive' : isDone
            { transfer with state := .receiving { saveDir } } = false :=
          rfl
        have hfed := announced_feedIncoming hlive' buffered h
        rw [Announced] at hfed ⊢
        simp only [List.countP_append, terminal_drainOutgoing, Nat.zero_add]
        exact hfed
    | receiving session => simp [Announced, hlive]
    | sending session => simp [Announced, hlive]
    | done => simp [Announced, hlive]
  | acceptUpload files conflictMode answers =>
    rw [perform, acceptUpload]
    cases hstate : transfer.state with
    | waitingForUser buffered =>
      cases hcreated : answers.created with
      | error error => rfl
      | ok _ =>
        rw [Call.starts, Bool.and_eq_true] at h
        have hlive' : isDone { transfer with
            state := .sending { files, conflictMode } } = false :=
          rfl
        have hfed := announced_feedIncoming hlive' buffered h.2
        exact hfed.startNextSendFile (terminal_drainOutgoing _ _) h.1
          answers.startedAt answers.finalOutgoing
    | receiving session => simp [Announced, hlive]
    | sending session => simp [Announced, hlive]
    | done => simp [Announced, hlive]
  | feedIncoming data answers => exact announced_feedIncoming hlive data h
  | cancel => rfl

/-- The data of the call does not complete a cancel sequence. -/
def Call.quiet (transfer : ZmodemTransfer) : Call → Bool
  | .feedIncoming data _ =>
    !(ZmodemTransfer.countCancel transfer.cancelCount data).2
  | _ => true

/-- A quiet call on a transfer that is over does nothing. -/
theorem perform_done {transfer : ZmodemTransfer} (hdone : transfer.isDone = true)
    {call : Call} (hquiet : call.quiet transfer = true) (hcancel : call ≠ .cancel) :
    (perform transfer call).2 = [] ∧
      (perform transfer call).1.isDone = true := by
  have hstate : transfer.state = .done := by
    simpa [ZmodemTransfer.isDone] using hdone
  cases call with
  | acceptDownload saveDir created outgoing answers =>
    rw [perform, ZmodemTransfer.acceptDownload, hstate]
    exact ⟨rfl, hdone⟩
  | acceptUpload files conflictMode answers =>
    rw [perform, ZmodemTransfer.acceptUpload, hstate]
    exact ⟨rfl, hdone⟩
  | feedIncoming data answers =>
    rw [perform, ZmodemTransfer.feedIncoming]
    rw [Call.quiet] at hquiet
    match hcount : ZmodemTransfer.countCancel transfer.cancelCount data with
    | (cancelCount, true) =>
      rw [hcount] at hquiet
      cases hquiet
    | (cancelCount, false) =>
      rw [ZmodemTransfer.isDone]
      simp [hstate]
  | cancel => exact absurd rfl hcancel

/-- A transfer and all the actions it has returned. -/
structure Session where
  transfer : ZmodemTransfer
  actions : List ZmodemAction

def Session.start (direction : ZmodemDirection) (initialBytes : Bytes) :
    Session :=
  ⟨.new direction initialBytes, []⟩

/-- Sessions cancel a transfer only while it is not done. -/
def session : System Session Call where
  init s := ∃ direction initialBytes, s = .start direction initialBytes
  step s call :=
    match call with
    | .cancel =>
      if s.transfer.isDone then none
      else some ⟨(perform s.transfer .cancel).1,
        s.actions ++ (perform s.transfer .cancel).2⟩
    | call => some ⟨(perform s.transfer call).1,
        s.actions ++ (perform s.transfer call).2⟩

theorem session_step {s t : Session} {call : Call}
    (h : session.step s call = some t) :
    t = ⟨(perform s.transfer call).1,
        s.actions ++ (perform s.transfer call).2⟩ ∧
      (s.transfer.isDone = true → call ≠ .cancel) := by
  cases call with
  | cancel =>
    simp only [session] at h
    split at h
    · cases h
    · next hlive =>
        exact ⟨(Option.some.inj h).symm, fun hdone => absurd hdone hlive⟩
  | acceptDownload saveDir created outgoing answers =>
    exact ⟨(Option.some.inj h).symm, fun _ hcancel => by cases hcancel⟩
  | acceptUpload files conflictMode answers =>
    exact ⟨(Option.some.inj h).symm, fun _ hcancel => by cases hcancel⟩
  | feedIncoming data answers =>
    exact ⟨(Option.some.inj h).symm, fun _ hcancel => by cases hcancel⟩

/-- No file of the call fails to start, and the call cancels nothing that is
over. -/
def Session.Orderly (s : Session) (call : Call) : Prop :=
  call.starts = true ∧
    (s.transfer.isDone = true → call.quiet s.transfer = true)

instance (s : Session) (call : Call) : Decidable (s.Orderly call) :=
  inferInstanceAs (Decidable (_ ∧ (_ → _)))

/-- The call returns a terminal event exactly if it ends the transfer, and
nothing at all behind the end. -/
def Session.EndsExactly (s : Session) (call : Call) : Prop :=
  call = .cancel ∧ s.transfer.isDone = true ∨
    ((∃ action ∈ (perform s.transfer call).2, terminal action = true) ↔
        s.transfer.isDone = false ∧
          (perform s.transfer call).1.isDone = true) ∧
      (s.transfer.isDone = true → (perform s.transfer call).2 = [])

/-- The end has been announced once if it has come. -/
def Session.Consistent (s : Session) : Prop :=
  ZmodemTransfer.Announced (s.transfer, s.actions)

theorem Session.start_consistent (direction : ZmodemDirection)
    (initialBytes : Bytes) : (start direction initialBytes).Consistent := rfl

theorem Session.Consistent.step {s t : Session} {call : Call}
    (hs : s.Consistent) (horderly : s.Orderly call)
    (hstep : session.step s call = some t) : t.Consistent := by
  obtain ⟨rfl, hcancel⟩ := session_step hstep
  rw [Consistent, ZmodemTransfer.Announced] at hs ⊢
  rw [List.countP_append, hs]
  cases hdone : s.transfer.isDone with
  | true =>
    obtain ⟨hnone, hstill⟩ :=
      perform_done hdone (horderly.2 hdone) (hcancel hdone)
    rw [hnone, hstill]
    rfl
  | false =>
    have hannounced := announced_perform hdone horderly.1
    rw [ZmodemTransfer.Announced] at hannounced
    rw [hannounced]
    exact Nat.zero_add _

theorem Session.Orderly.endsExactly {s : Session} {call : Call}
    (h : s.Orderly call) : s.EndsExactly call := by
  by_cases hover : call = .cancel ∧ s.transfer.isDone = true
  · exact .inl hover
  right
  cases hdone : s.transfer.isDone with
  | true =>
    have hcancel : call ≠ .cancel := fun heq => hover ⟨heq, hdone⟩
    obtain ⟨hnone, -⟩ := perform_done hdone (h.2 hdone) hcancel
    rw [hnone]
    simp
  | false =>
    have hannounced := announced_perform hdone h.1
    rw [ZmodemTransfer.Announced] at hannounced
    refine ⟨?_, fun hover => by cases hover⟩
    rw [← List.countP_pos_iff, hannounced]
    cases (perform s.transfer call).1.isDone <;> simp

/-- In a run of orderly calls, every call announces the end exactly if it
brings it, the end is announced at most once, and behind it nothing is done. -/
theorem ends_exactly_once {direction : ZmodemDirection} {initialBytes : Bytes}
    {calls : List Call}
    (h : session.Along Session.Orderly (.start direction initialBytes) calls) :
    session.Along Session.EndsExactly (.start direction initialBytes) calls ∧
      ∀ s, session.runFrom (.start direction initialBytes) calls = some s →
        s.actions.countP terminal ≤ 1 := by
  constructor
  · have hany : ∀ s call t, (fun _ : Session => True) s →
        session.step s call = some t → (fun _ : Session => True) t :=
      fun _ _ _ _ _ => trivial
    exact session.along_of_invariant hany
      (fun _ _ _ => Session.Orderly.endsExactly) trivial h
  · intro s hrun
    have hconsistent : Session.Consistent s := session.run_invariant_along
      (fun _ _ _ hs horderly => hs.step horderly)
      (Session.start_consistent direction initialBytes) h hrun
    rw [Session.Consistent, ZmodemTransfer.Announced] at hconsistent
    change s.actions.countP terminal = _ at hconsistent
    split at hconsistent <;> omega

/-- The calls of an upload of one file that is received and completed. -/
def uploadOne : List Call :=
  [.acceptUpload [["notes.txt".toList]] .overwrite { start := .started 3 },
    .feedIncoming [0x2a]
      { sender :=
          { fed := [.ok 1]
            requests := [{ offset := 0, len := 3, read := some 3 }] } },
    .feedIncoming [0x2a] { sender :=
          { fed := [.ok 1]
            events := [.fileComplete 0 (.started 0) 0, .sessionComplete] } }]

theorem uploadOne_ends_once :
    session.Along Session.EndsExactly (.start .upload []) uploadOne ∧
      ∀ s, session.runFrom (.start .upload []) uploadOne = some s →
        s.actions.countP terminal ≤ 1 :=
  ends_exactly_once (by decide)

/-- A file that cannot be opened fails a transfer that goes on; and a transfer
that is over fails again at the next CAN. -/
theorem failed_without_end :
    ¬ session.Along Session.EndsExactly (.start .upload [])
        [.acceptUpload [["missing".toList]] .overwrite
          { start := .openFailed "not found".toList }, .cancel] ∧
      ¬ session.Along Session.EndsExactly (.start .download [])
        [.feedIncoming (List.replicate 5 zdle) {}, .feedIncoming [zdle] {}] := by
  constructor
  · rintro ⟨⟨hcancel, -⟩ | ⟨hends, -⟩, -⟩
    · cases hcancel
    · have hdone := hends.mp ⟨_, List.mem_singleton.mpr rfl, rfl⟩
      exact absurd hdone.2 (by decide)
  · rintro ⟨-, hrest⟩
    obtain ⟨⟨hcancel, -⟩ | ⟨-, hnone⟩, -⟩ := hrest _ rfl
    · cases hcancel
    · exact absurd (hnone rfl) (by decide)

end NiceTerm.Zmodem
